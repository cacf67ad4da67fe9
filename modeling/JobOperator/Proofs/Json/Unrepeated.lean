import Mathlib.Data.List.Nodup
import JobOperator.Proofs.Codec.Patch

/-!
Documents in which no member is repeated, as an API server keeps them. Such a document stays one
inside each of its members, and a patch that sets a member of it gives that member the patched value.
-/

namespace JobOperator.Json

variable {key : String} {value : Json} {found members patch : List (String × Json)}

theorem nodup_keys_setMember (h : (members.map (·.1)).Nodup) (key : String) (value : Json) :
    ((setMember key value members).map (·.1)).Nodup := by
  induction members with
  | nil => simp [setMember]
  | cons m rest ih =>
    obtain ⟨k, v⟩ := m
    obtain ⟨hnot, hrest⟩ := List.nodup_cons.1 h
    simp only [setMember]
    split
    · exact List.nodup_cons.2 ⟨hnot, hrest⟩
    · rename_i hk
      refine List.nodup_cons.2 ⟨fun hmem => ?_, ih hrest⟩
      obtain ⟨m, hm, hmk⟩ := List.mem_map.1 hmem
      rcases mem_setMember hm with rfl | hm
      · exact hk hmk.symm
      · exact hnot (List.mem_map.2 ⟨m, hm, hmk⟩)

theorem nodup_keys_unrepeatedMembers (h : (found.map (·.1)).Nodup)
    (members : List (String × Json)) : ((unrepeatedMembers found members).map (·.1)).Nodup := by
  induction members generalizing found with
  | nil =>
    rw [unrepeatedMembers]
    exact h
  | cons m rest ih =>
    obtain ⟨k, v⟩ := m
    rw [unrepeatedMembers]
    exact ih (nodup_keys_setMember h k _)

theorem mem_unrepeatedMembers {m : String × Json} (h : m ∈ unrepeatedMembers found members) :
    m ∈ found ∨ ∃ n ∈ members, m = (n.1, n.2.unrepeated) := by
  induction members generalizing found with
  | nil =>
    rw [unrepeatedMembers] at h
    exact .inl h
  | cons n rest ih =>
    obtain ⟨k, v⟩ := n
    rw [unrepeatedMembers] at h
    rcases ih h with h | ⟨n, hn, rfl⟩
    · rcases mem_setMember h with rfl | h
      · exact .inr ⟨(k, v), List.mem_cons_self, rfl⟩
      · exact .inl h
    · exact .inr ⟨n, List.mem_cons_of_mem _ hn, rfl⟩

/-- In a document without repeated members each key stands once. -/
theorem nodup_keys_of_unrepeated {doc : Json} (h : doc.unrepeated = doc) :
    (doc.membersOrNone.map (·.1)).Nodup := by
  cases doc with
  | obj members =>
    rw [unrepeated] at h
    rw [← h]
    exact @nodup_keys_unrepeatedMembers [] List.nodup_nil members
  | _ => exact List.nodup_nil

theorem eq_of_nodup_keys (h : (members.map (·.1)).Nodup) {v w : Json} (hv : (key, v) ∈ members)
    (hw : (key, w) ∈ members) : v = w :=
  congrArg Prod.snd (List.inj_on_of_nodup_map h hv hw rfl)

/-- A document without repeated members has none inside its members either. -/
theorem unrepeated_base {doc : Json} (h : doc.unrepeated = doc) (key : String) :
    (base key doc.membersOrNone).unrepeated = base key doc.membersOrNone := by
  cases hlast : lastMember? key doc.membersOrNone with
  | none =>
    rw [base, hlast]
    rfl
  | some v =>
    have hv := mem_of_lastMember? hlast
    have hnodup := nodup_keys_of_unrepeated h
    rw [base, hlast, Option.getD_some]
    cases doc with
    | obj members =>
      rw [unrepeated] at h
      have hv' : (key, v) ∈ unrepeatedMembers [] members := by
        rw [Json.obj.inj h]
        exact hv
      rcases mem_unrepeatedMembers hv' with hv' | ⟨n, hn, heq⟩
      · cases hv'
      · obtain ⟨rfl, rfl⟩ := Prod.mk.inj heq
        exact congrArg unrepeated (eq_of_nodup_keys hnodup hv hn)
    | _ => cases hv

theorem lastMember?_setMember_self (h : (members.map (·.1)).Nodup) (key : String) (value : Json) :
    lastMember? key (setMember key value members) = some value := by
  induction members with
  | nil => simp [setMember, lastMember?_cons]
  | cons m rest ih =>
    obtain ⟨k, v⟩ := m
    obtain ⟨hnot, hrest⟩ := List.nodup_cons.1 h
    simp only [setMember]
    split
    · rename_i hk
      have hnone : lastMember? key rest = none := by
        refine lastMember?_eq_none_iff.2 fun m hm hmk => hnot ?_
        exact List.mem_map.2 ⟨m, hm, hmk.trans hk.symm⟩
      rw [lastMember?_cons, hnone, if_pos hk, Option.none_or]
    · rw [lastMember?_cons, ih hrest, Option.some_or]

/-- A member that a patch sets has the patched value, where no member is repeated. -/
theorem lastMember?_mergeMembers_self (hp : Sets patch) (h : (members.map (·.1)).Nodup)
    (hv : (key, value) ∈ patch) :
    lastMember? key (mergeMembers members patch) = some ((base key members).mergePatch value) := by
  induction patch generalizing members with
  | nil => cases hv
  | cons m rest ih =>
    obtain ⟨j, w⟩ := m
    rw [mergeMembers_cons hp.head_ne_null]
    rcases List.mem_cons.1 hv with heq | hv
    · cases heq
      rw [lastMember?_mergeMembers_ne hp.tail.ne_null hp.key_ne, lastMember?_setMember_self h]
      rfl
    · rw [ih hp.tail (nodup_keys_setMember h _ _) hv, base_setMember_ne (hp.key_ne _ hv)]

theorem base_mergeMembers_self (hp : Sets patch) (h : (members.map (·.1)).Nodup)
    (hv : (key, value) ∈ patch) :
    base key (mergeMembers members patch) = (base key members).mergePatch value := by
  rw [base, lastMember?_mergeMembers_self hp h hv]
  rfl

end JobOperator.Json
