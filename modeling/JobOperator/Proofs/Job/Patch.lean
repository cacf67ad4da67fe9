import JobOperator.Proofs.Job.Status

/-!
Patches that give a job a status, one after the other. Only the last one shows, as long as they
speak of the same roles; and two that differ in some times leave documents that differ there.
-/

namespace JobOperator

open Json

/-! ### The last patch shows -/

theorem Json.membersAlike_of_keys {as bs : List (String × Json)}
    (hkeys : as.map (·.1) = bs.map (·.1)) (hnodup : (as.map (·.1)).Nodup)
    (h : ∀ a ∈ as, ∀ b ∈ bs, Alike a.2 b.2) : MembersAlike as bs := by
  induction as generalizing bs with
  | nil =>
    cases bs with
    | nil => trivial
    | cons b bs => cases hkeys
  | cons a as ih =>
    cases bs with
    | nil => cases hkeys
    | cons b bs =>
      obtain ⟨hkey, hkeys⟩ := List.cons.inj hkeys
      obtain ⟨hnot, hnodup⟩ := List.nodup_cons.1 hnodup
      refine ⟨hkey, fun m hm heq => hnot (List.mem_map.2 ⟨m, hm, heq⟩),
        h a List.mem_cons_self b List.mem_cons_self, ?_⟩
      exact ih hkeys hnodup fun a ha b hb =>
        h a (List.mem_cons_of_mem _ ha) b (List.mem_cons_of_mem _ hb)

theorem RoleStatus.encode_alike (r s : RoleStatus) : Alike (codec.encode r) (codec.encode s) := by
  rw [encode_eq, encode_eq]
  refine ⟨rfl, by simp, trivial, rfl, by simp, trivial, rfl, by simp, trivial, trivial⟩

/-- Whether two statuses speak of the same roles, and none of completion. -/
structure JobStatus.Comparable (s t : JobStatus) : Prop where
  left : s.completionTime = none
  right : t.completionTime = none
  roles : ∀ k, (s.roleStatuses.get? k).isSome = (t.roleStatuses.get? k).isSome

namespace JobStatus

theorem roles_alike {m n : StringMap RoleStatus} (h : ∀ k, (m.get? k).isSome = (n.get? k).isSome) :
    Alike ((Codec.stringMap RoleStatus.codec).encode m)
      ((Codec.stringMap RoleStatus.codec).encode n) := by
  have hkeys : m.keys = n.keys := SortedMap.keys_eq_of_isSome h
  refine membersAlike_of_keys ?_ ?_ ?_
  · rw [List.map_map, List.map_map]
    exact hkeys
  · rw [List.map_map]
    exact m.nodup_keys
  · intro a ha b hb
    obtain ⟨e, -, rfl⟩ := List.mem_map.1 ha
    obtain ⟨f, -, rfl⟩ := List.mem_map.1 hb
    exact RoleStatus.encode_alike e.2 f.2

theorem encode_alike {s t : JobStatus} (hs : s.Stamped) (ht : t.Stamped) (h : s.Comparable t) :
    Alike (codec.encode s) (codec.encode t) := by
  obtain ⟨start, hstart, -⟩ := hs.start
  obtain ⟨last, hlast, -⟩ := hs.last
  obtain ⟨start', hstart', -⟩ := ht.start
  obtain ⟨last', hlast', -⟩ := ht.last
  rw [encode_eq hstart hlast, encode_eq hstart' hlast', h.left, h.right]
  exact ⟨rfl, by simp, trivial, rfl, by simp, trivial, rfl, by simp, roles_alike h.roles, trivial⟩

end JobStatus

namespace Job

/-- Of two statuses given to a job, the later one shows. -/
theorem statusPatch_statusPatch {s t : JobStatus} (hs : s.Stamped) (ht : t.Stamped)
    (h : s.Comparable t) (job job' : Job) (doc : Json) :
    (doc.mergePatch (Client.statusPatch (job.withStatus s))).mergePatch
        (Client.statusPatch (job'.withStatus t)) =
      doc.mergePatch (Client.statusPatch (job'.withStatus t)) := by
  refine mergePatch_mergePatch ?_ doc
  rw [statusPatch_withStatus, statusPatch_withStatus]
  exact ⟨rfl, by simp, trivial, rfl, by simp, trivial, rfl, by simp,
    JobStatus.encode_alike hs ht h, trivial⟩

end Job

/-! ### Times that do not matter -/

namespace Json

/-- An object with a value in the place of each member's. -/
def mapMembers (f : String → Json → Json) : Json → Json
  | .obj members => .obj (members.map fun m => (m.1, f m.1 m.2))
  | other => other

theorem map_setMember (f : String → Json → Json) (k : String) (v : Json)
    (members : List (String × Json)) :
    (setMember k v members).map (fun m => (m.1, f m.1 m.2)) =
      setMember k (f k v) (members.map fun m => (m.1, f m.1 m.2)) := by
  induction members with
  | nil => rfl
  | cons m rest ih =>
    obtain ⟨j, w⟩ := m
    simp only [setMember, List.map_cons]
    split
    · rename_i hj
      simp only [List.map_cons, hj]
    · simp only [List.map_cons, ih]

/-- Two patches, given by their keys with both values, leave the same members once the values that
they set look the same. -/
theorem map_mergeMembers (f : String → Json → Json) {pairs : List (String × Json × Json)}
    (hp : Sets (pairs.map fun p => (p.1, p.2.1))) (hq : Sets (pairs.map fun p => (p.1, p.2.2)))
    (h : ∀ p ∈ pairs, ∀ target : Json,
      f p.1 (target.mergePatch p.2.1) = f p.1 (target.mergePatch p.2.2))
    {ms ns : List (String × Json)}
    (hmap : ms.map (fun m => (m.1, f m.1 m.2)) = ns.map (fun m => (m.1, f m.1 m.2)))
    (hbase : ∀ p ∈ pairs, base p.1 ms = base p.1 ns) :
    (mergeMembers ms (pairs.map fun p => (p.1, p.2.1))).map (fun m => (m.1, f m.1 m.2)) =
      (mergeMembers ns (pairs.map fun p => (p.1, p.2.2))).map (fun m => (m.1, f m.1 m.2)) := by
  induction pairs generalizing ms ns with
  | nil =>
    rw [List.map_nil, List.map_nil, mergeMembers_nil, mergeMembers_nil, hmap]
  | cons p rest ih =>
    obtain ⟨k, v, w⟩ := p
    rw [List.map_cons] at hp hq
    have hk : base k ms = base k ns := hbase _ List.mem_cons_self
    have hfresh : ∀ p ∈ rest, p.1 ≠ k := fun p hmem =>
      hp.key_ne _ (List.mem_map.2 ⟨p, hmem, rfl⟩)
    rw [List.map_cons, List.map_cons, mergeMembers_cons hp.head_ne_null,
      mergeMembers_cons hq.head_ne_null]
    refine ih hp.tail hq.tail (fun p hp => h p (List.mem_cons_of_mem _ hp)) ?_ fun p hp => ?_
    · rw [map_setMember, map_setMember, hmap]
      congr 1
      change f k ((base k ms).mergePatch v) = f k ((base k ns).mergePatch w)
      rw [hk]
      exact h _ List.mem_cons_self _
    · rw [base_setMember_ne (hfresh p hp), base_setMember_ne (hfresh p hp)]
      exact hbase p (List.mem_cons_of_mem _ hp)

theorem mapMembers_mergePatch (f : String → Json → Json) {pairs : List (String × Json × Json)}
    (hp : Sets (pairs.map fun p => (p.1, p.2.1))) (hq : Sets (pairs.map fun p => (p.1, p.2.2)))
    (h : ∀ p ∈ pairs, ∀ target : Json,
      f p.1 (target.mergePatch p.2.1) = f p.1 (target.mergePatch p.2.2)) (doc : Json) :
    (doc.mergePatch (.obj (pairs.map fun p => (p.1, p.2.1)))).mapMembers f =
      (doc.mergePatch (.obj (pairs.map fun p => (p.1, p.2.2)))).mapMembers f := by
  rw [mergePatch_obj, mergePatch_obj]
  exact congrArg Json.obj (map_mergeMembers f hp hq h rfl fun _ _ => rfl)

end Json

namespace JobStatus

/-- A status in which members have lost their values. -/
def blank (keys : List String) (doc : Json) : Json :=
  doc.mapMembers fun key value => if keys.contains key then .null else value

/-- Statuses that differ only in times that are blanked out leave the same status. -/
theorem blank_mergePatch {s t : JobStatus} {keys : List String} (hs : s.Stamped) (ht : t.Stamped)
    (hcompletion : s.completionTime = t.completionTime) (hroles : s.roleStatuses = t.roleStatuses)
    (hstart : s.startTime = t.startTime ∨ keys.contains "startTime" = true)
    (hlast : s.lastReconcileTime = t.lastReconcileTime ∨
      keys.contains "lastReconcileTime" = true) (doc : Json) :
    blank keys (doc.mergePatch (codec.encode s)) = blank keys (doc.mergePatch (codec.encode t)) := by
  obtain ⟨start, hs1, -⟩ := hs.start
  obtain ⟨last, hs2, -⟩ := hs.last
  obtain ⟨start', ht1, -⟩ := ht.start
  obtain ⟨last', ht2, -⟩ := ht.last
  have htime {key : String} {a b : Instant} (h : a = b ∨ keys.contains key = true) (target : Json) :
      (if keys.contains key then Json.null else target.mergePatch (.str a.text)) =
        if keys.contains key then Json.null else target.mergePatch (.str b.text) := by
    rcases h with rfl | h
    · rfl
    · rw [if_pos h, if_pos h]
  rw [hs1, ht1, Option.some.injEq] at hstart
  rw [hs2, ht2, Option.some.injEq] at hlast
  rw [encode_eq hs1 hs2, encode_eq ht1 ht2, hcompletion, hroles]
  generalize t.completionTime = completion, t.roleStatuses = roles
  have hp := sets_stampedMembers start last completion roles
  have hq := sets_stampedMembers start' last' completion roles
  let pairs : List (String × Json × Json) :=
    ("startTime", .str start.text, .str start'.text) ::
      ((completion.map fun c => ("completionTime", .str c.text, .str c.text)).toList ++
        [("lastReconcileTime", .str last.text, .str last'.text),
          ("roleStatuses", (Codec.stringMap RoleStatus.codec).encode roles,
            (Codec.stringMap RoleStatus.codec).encode roles)])
  have hleft : stampedMembers start last completion roles =
      pairs.map fun p => (p.1, p.2.1) := by
    cases completion <;> rfl
  have hright : stampedMembers start' last' completion roles =
      pairs.map fun p => (p.1, p.2.2) := by
    cases completion <;> rfl
  rw [hleft] at hp ⊢
  rw [hright] at hq ⊢
  refine mapMembers_mergePatch (fun key value => if keys.contains key then .null else value) hp hq
    ?_ doc
  intro p hmem target
  simp only [pairs, List.mem_cons, List.mem_append, Option.mem_toList, Option.map_eq_some_iff,
    List.not_mem_nil, or_false] at hmem
  rcases hmem with rfl | ⟨c, -, rfl⟩ | rfl | rfl
  · exact htime hstart target
  · rfl
  · exact htime hlast target
  · rfl

end JobStatus

namespace Job

/-- The document of a job in which members of its status have lost their values. -/
def blankStatus (keys : List String) (doc : Json) : Json :=
  doc.mapMembers fun key value => if key = "status" then JobStatus.blank keys value else value

/-- Statuses that differ only in times that are blanked out leave the same document. -/
theorem blankStatus_statusPatch {s t : JobStatus} {keys : List String} (hs : s.Stamped)
    (ht : t.Stamped) (hcompletion : s.completionTime = t.completionTime)
    (hroles : s.roleStatuses = t.roleStatuses)
    (hstart : s.startTime = t.startTime ∨ keys.contains "startTime" = true)
    (hlast : s.lastReconcileTime = t.lastReconcileTime ∨
      keys.contains "lastReconcileTime" = true) (job job' : Job) (doc : Json) :
    blankStatus keys (doc.mergePatch (Client.statusPatch (job.withStatus s))) =
      blankStatus keys (doc.mergePatch (Client.statusPatch (job'.withStatus t))) := by
  let pairs : List (String × Json × Json) :=
    [("apiVersion", .str apiVersion, .str apiVersion), ("kind", .str kind, .str kind),
      ("status", JobStatus.codec.encode s, JobStatus.codec.encode t)]
  have hp : Sets (pairs.map fun p => (p.1, p.2.1)) := sets_statusMembers s
  have hq : Sets (pairs.map fun p => (p.1, p.2.2)) := sets_statusMembers t
  refine mapMembers_mergePatch
    (fun key value => if key = "status" then JobStatus.blank keys value else value) hp hq ?_ doc
  intro p hmem target
  simp only [pairs, List.mem_cons, List.not_mem_nil, or_false] at hmem
  rcases hmem with rfl | rfl | rfl
  · rfl
  · rfl
  · exact JobStatus.blank_mergePatch hs ht hcompletion hroles hstart hlast target

end Job

end JobOperator
