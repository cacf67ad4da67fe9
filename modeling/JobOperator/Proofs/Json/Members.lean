import JobOperator.Json.Basic

/-!
Members of objects: what setting a member does to the members, to the value of each key, and to
members that are set later. Keys may be repeated, so setting a member, which changes the first of
its key, need not change the value, which is that of the last.
-/

namespace JobOperator.Json

variable {j k : String} {v w : Json} {ms : List (String × Json)}

@[simp] theorem lastMember?_nil (k : String) : lastMember? k [] = none := rfl

theorem lastMember?_cons (k : String) (m : String × Json) (ms : List (String × Json)) :
    lastMember? k (m :: ms) = (lastMember? k ms).or (if m.1 = k then some m.2 else none) := by
  simp only [lastMember?, List.reverse_cons, List.find?_append]
  cases hms : ms.reverse.find? (·.1 == k) with
  | some f => rfl
  | none => by_cases h : m.1 = k <;> simp [h]

theorem lastMember?_append (k : String) (ms ns : List (String × Json)) :
    lastMember? k (ms ++ ns) = (lastMember? k ns).or (lastMember? k ms) := by
  induction ms with
  | nil => simp
  | cons m ms ih => rw [List.cons_append, lastMember?_cons, lastMember?_cons, ih, Option.or_assoc]

theorem lastMember?_eq_none_iff : lastMember? k ms = none ↔ ∀ m ∈ ms, m.1 ≠ k := by
  simp [lastMember?]

theorem lastMember?_isSome_iff : (lastMember? k ms).isSome = true ↔ ∃ m ∈ ms, m.1 = k := by
  simp [lastMember?]

theorem mem_of_lastMember? (h : lastMember? k ms = some v) : (k, v) ∈ ms := by
  obtain ⟨m, hm, rfl⟩ := Option.map_eq_some_iff.1 h
  have hk : m.1 = k := by simpa using List.find?_some hm
  exact hk ▸ List.mem_reverse.1 (List.mem_of_find?_eq_some hm)

/-! ### Setting a member -/

theorem mem_setMember {m : String × Json} (h : m ∈ setMember k v ms) : m = (k, v) ∨ m ∈ ms := by
  induction ms with
  | nil => exact .inl (List.mem_singleton.1 h)
  | cons n rest ih =>
    obtain ⟨i, u⟩ := n
    simp only [setMember] at h
    split at h
    · rename_i hi
      rcases List.mem_cons.1 h with rfl | h
      · exact .inl (hi ▸ rfl)
      · exact .inr (List.mem_cons_of_mem _ h)
    · rcases List.mem_cons.1 h with rfl | h
      · exact .inr List.mem_cons_self
      · exact (ih h).imp_right (List.mem_cons_of_mem _)

theorem setMember_present (v : Json) (ms : List (String × Json)) :
    ∃ m ∈ setMember k v ms, m.1 = k := by
  induction ms with
  | nil => exact ⟨(k, v), List.mem_singleton_self _, rfl⟩
  | cons m rest ih =>
    obtain ⟨i, u⟩ := m
    simp only [setMember]
    split
    · rename_i hi
      exact ⟨(i, v), List.mem_cons_self, hi⟩
    · obtain ⟨m, hm, hk⟩ := ih
      exact ⟨m, List.mem_cons_of_mem _ hm, hk⟩

/-- Of two values set for a key, the later one is left. -/
theorem setMember_setMember (k : String) (v w : Json) (ms : List (String × Json)) :
    setMember k w (setMember k v ms) = setMember k w ms := by
  induction ms with
  | nil => simp [setMember]
  | cons m rest ih =>
    obtain ⟨i, u⟩ := m
    by_cases hi : i = k
    · simp only [setMember, if_pos hi]
    · simp only [setMember, if_neg hi, ih]

/-- Two members can be set in either order, when one of them is there already. -/
theorem setMember_comm (hne : j ≠ k) (hk : ∃ m ∈ ms, m.1 = k) :
    setMember k w (setMember j v ms) = setMember j v (setMember k w ms) := by
  induction ms with
  | nil => simp at hk
  | cons m rest ih =>
    obtain ⟨i, u⟩ := m
    by_cases hi : i = k
    · have hij : i ≠ j := fun h => hne (h.symm.trans hi)
      simp only [setMember, if_neg hij, if_pos hi]
    · have hrest : ∃ m ∈ rest, m.1 = k := by
        obtain ⟨m, hm, hmk⟩ := hk
        rcases List.mem_cons.1 hm with rfl | hm
        · exact absurd hmk hi
        · exact ⟨m, hm, hmk⟩
      by_cases hij : i = j
      · simp only [setMember, if_pos hij, if_neg hi]
      · simp only [setMember, if_neg hij, if_neg hi, ih hrest]

theorem lastMember?_setMember_ne (h : j ≠ k) :
    lastMember? j (setMember k v ms) = lastMember? j ms := by
  induction ms with
  | nil => simp [setMember, lastMember?_cons, Ne.symm h]
  | cons m rest ih =>
    obtain ⟨i, u⟩ := m
    simp only [setMember]
    split
    · rename_i hi
      simp only [lastMember?_cons, hi, if_neg (Ne.symm h)]
    · rw [lastMember?_cons, lastMember?_cons, ih]

/-- A key that is not repeated has the value that was set; one that is repeated keeps its value. -/
theorem lastMember?_setMember_cases (k : String) (v : Json) (ms : List (String × Json)) :
    lastMember? k (setMember k v ms) = some v ∨
      ∃ w, lastMember? k ms = some w ∧ lastMember? k (setMember k v ms) = some w := by
  induction ms with
  | nil => exact .inl (by simp [setMember, lastMember?_cons])
  | cons m rest ih =>
    obtain ⟨i, u⟩ := m
    simp only [setMember]
    split
    · rename_i hi
      rw [lastMember?_cons, lastMember?_cons, if_pos hi, if_pos hi]
      cases hrest : lastMember? k rest with
      | none => exact .inl rfl
      | some x => exact .inr ⟨x, rfl, rfl⟩
    · rename_i hi
      rw [lastMember?_cons, lastMember?_cons, if_neg hi, Option.or_none, Option.or_none]
      exact ih

end JobOperator.Json
