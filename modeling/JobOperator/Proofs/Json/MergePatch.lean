import JobOperator.Json.MergePatch
import JobOperator.Proofs.Json.Members

/-!
Merge patches that set members and remove none. Of two such patches that set the same members, only
the later one shows.
-/

namespace JobOperator.Json

theorem mergePatch_obj (target : Json) (patch : List (String × Json)) :
    target.mergePatch (.obj patch) = .obj (mergeMembers target.membersOrNone patch) := by
  rw [mergePatch]

@[simp] theorem mergeMembers_nil (members : List (String × Json)) :
    mergeMembers members [] = members := by
  rw [mergeMembers]

/-- A member of a patch that is not `null` is set. -/
theorem mergeMembers_cons {patch : Json} (hp : patch ≠ .null) (key : String)
    (members rest : List (String × Json)) :
    mergeMembers members ((key, patch) :: rest) =
      mergeMembers
        (setMember key (((lastMember? key members).getD .null).mergePatch patch) members) rest := by
  rw [mergeMembers]
  exact hp

/-- A patch that is no object takes the place of the document. -/
theorem mergePatch_of_ne_obj {patch : Json} (h : ∀ members, patch ≠ .obj members) (target : Json) :
    target.mergePatch patch = patch := by
  rw [mergePatch]
  exact h

mutual

/-- Whether two patches set the same members, each once and none to `null`. -/
def Alike : Json → Json → Prop
  | .obj a, .obj b => MembersAlike a b
  | .obj _, _ | _, .obj _ | .null, _ | _, .null => False
  | _, _ => True

/-- Whether two lists of members set the same keys, each once and none to `null`. -/
def MembersAlike : List (String × Json) → List (String × Json) → Prop
  | [], [] => True
  | (j, v) :: as, (k, w) :: bs =>
    j = k ∧ (∀ m ∈ as, m.1 ≠ j) ∧ Alike v w ∧ MembersAlike as bs
  | _, _ => False

end

theorem Alike.left_ne_null {v w : Json} (h : Alike v w) : v ≠ .null := by
  rintro rfl
  cases w <;> exact h

theorem Alike.right_ne_null {v w : Json} (h : Alike v w) : w ≠ .null := by
  rintro rfl
  cases v <;> exact h

/-- The value of a key that a patch does not set stays. -/
theorem lastMember?_mergeMembers_ne {key : String} {patch : List (String × Json)}
    (hnull : ∀ m ∈ patch, m.2 ≠ .null) (hkey : ∀ m ∈ patch, m.1 ≠ key)
    (members : List (String × Json)) :
    lastMember? key (mergeMembers members patch) = lastMember? key members := by
  induction patch generalizing members with
  | nil => rw [mergeMembers_nil]
  | cons m rest ih =>
    obtain ⟨k, v⟩ := m
    rw [mergeMembers_cons (hnull _ List.mem_cons_self),
      ih (fun m hm => hnull m (List.mem_cons_of_mem _ hm))
        (fun m hm => hkey m (List.mem_cons_of_mem _ hm)),
      lastMember?_setMember_ne (Ne.symm (hkey _ List.mem_cons_self))]

/-- A member that is there and that a patch does not set can be set before or after the patch. -/
theorem setMember_mergeMembers {key : String} {value : Json} {patch : List (String × Json)}
    (hnull : ∀ m ∈ patch, m.2 ≠ .null) (hkey : ∀ m ∈ patch, m.1 ≠ key)
    {members : List (String × Json)} (hmem : ∃ m ∈ members, m.1 = key) :
    setMember key value (mergeMembers members patch) =
      mergeMembers (setMember key value members) patch := by
  induction patch generalizing members with
  | nil => rw [mergeMembers_nil, mergeMembers_nil]
  | cons m rest ih =>
    obtain ⟨k, v⟩ := m
    have hk : k ≠ key := hkey _ List.mem_cons_self
    have hv : v ≠ .null := hnull _ List.mem_cons_self
    have hthere : ∃ m ∈ setMember k (((lastMember? k members).getD .null).mergePatch v) members,
        m.1 = key := by
      rwa [← lastMember?_isSome_iff, lastMember?_setMember_ne (Ne.symm hk),
        lastMember?_isSome_iff]
    rw [mergeMembers_cons hv, mergeMembers_cons hv,
      ih (fun m hm => hnull m (List.mem_cons_of_mem _ hm))
        (fun m hm => hkey m (List.mem_cons_of_mem _ hm)) hthere,
      setMember_comm hk hmem, lastMember?_setMember_ne hk]

theorem MembersAlike.left_ne_null {as bs : List (String × Json)} (h : MembersAlike as bs) :
    ∀ m ∈ as, m.2 ≠ .null := by
  induction as generalizing bs with
  | nil => exact fun _ hm => absurd hm List.not_mem_nil
  | cons a as ih =>
    cases bs with
    | nil => exact h.elim
    | cons b bs =>
      obtain ⟨-, -, hab, hrest⟩ := h
      intro m hm
      rcases List.mem_cons.1 hm with rfl | hm
      · exact hab.left_ne_null
      · exact ih hrest m hm

mutual

/-- Of two patches alike, only the later one shows. -/
theorem mergePatch_mergePatch : {p q : Json} → Alike p q → (target : Json) →
    (target.mergePatch p).mergePatch q = target.mergePatch q
  | .obj a, .obj b, h, target => by
    rw [mergePatch_obj, mergePatch_obj, mergePatch_obj, membersOrNone,
      mergeMembers_mergeMembers h]
  | .bool _, q, h, target | .num _, q, h, target | .str _, q, h, target | .arr _, q, h, target
  | .broken _, q, h, target => by
    cases q with
    | null | obj => exact h.elim
    | _ => rw [mergePatch_of_ne_obj (by simp), mergePatch_of_ne_obj (by simp)]
  | .null, q, h, target => absurd rfl h.left_ne_null

/-- The same for the members of two patches. -/
theorem mergeMembers_mergeMembers : {as bs : List (String × Json)} → MembersAlike as bs →
    (members : List (String × Json)) →
    mergeMembers (mergeMembers members as) bs = mergeMembers members bs
  | [], [], _, members => by rw [mergeMembers_nil]
  | (k, v) :: as, (_, w) :: bs, ⟨rfl, hfresh, hvw, hrest⟩, members => by
    have hnull := hrest.left_ne_null
    -- the members after the first patch has set its first key
    let first := setMember k (((lastMember? k members).getD .null).mergePatch v) members
    have hlast : lastMember? k (mergeMembers first as) = lastMember? k first :=
      lastMember?_mergeMembers_ne hnull hfresh first
    have hvalue : ((lastMember? k first).getD .null).mergePatch w =
        ((lastMember? k members).getD .null).mergePatch w := by
      rcases lastMember?_setMember_cases k
        (((lastMember? k members).getD .null).mergePatch v) members with h | ⟨u, hu, h⟩
      · rw [h, Option.getD_some, mergePatch_mergePatch hvw]
      · rw [h, hu]
    rw [mergeMembers_cons hvw.left_ne_null, mergeMembers_cons hvw.right_ne_null, hlast, hvalue,
      setMember_mergeMembers hnull hfresh (setMember_present _ _), setMember_setMember,
      mergeMembers_mergeMembers hrest, ← mergeMembers_cons hvw.right_ne_null]

end

end JobOperator.Json
