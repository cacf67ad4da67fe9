import JobOperator.SortedMap

/-!
Sorted maps through their look-up: what each operation does to `get?`, and that two maps with the
same look-up are equal. Later proofs see a map only through these facts.
-/

namespace JobOperator.SortedMap

variable {κ : Type} [OrderedKey κ] {α β : Type}

theorem lt_asymm {a b : κ} (h : a < b) : ¬ b < a :=
  fun h' => OrderedKey.irrefl a (OrderedKey.trans h h')

theorem ne_of_lt {a b : κ} (h : a < b) : a ≠ b := by
  rintro rfl
  exact OrderedKey.irrefl a h

/-! ### Look-up in entries -/

theorem lookup_cons_self (k : κ) (a : α) (rest : List (κ × α)) :
    lookup k ((k, a) :: rest) = some a := by
  simp only [lookup, if_neg (OrderedKey.irrefl k)]

/-- A key that is before all others is not found behind them. -/
theorem lookup_eq_none {k : κ} {l : List (κ × α)} (h : ∀ e ∈ l, k < e.1) : lookup k l = none := by
  cases l with
  | nil => rfl
  | cons e rest =>
    obtain ⟨j, b⟩ := e
    simp only [lookup, if_pos (h (j, b) List.mem_cons_self)]

/-- Behind an entry of another key, the look-up goes on. -/
theorem lookup_cons_ne {k j : κ} {a : α} {rest : List (κ × α)}
    (hl : ((j, a) :: rest).Pairwise (fun a b => a.1 < b.1)) (hne : k ≠ j) :
    lookup k ((j, a) :: rest) = lookup k rest := by
  have hj := (List.pairwise_cons.1 hl).1
  simp only [lookup]
  split
  · rename_i hk
    exact (lookup_eq_none fun e he => OrderedKey.trans hk (hj e he)).symm
  · rename_i hk
    split
    · rfl
    · rename_i hk'
      exact absurd (OrderedKey.connected hk hk') hne

theorem lookup_eq_some_iff {k : κ} {a : α} {l : List (κ × α)}
    (hl : l.Pairwise (fun a b => a.1 < b.1)) : lookup k l = some a ↔ (k, a) ∈ l := by
  induction l with
  | nil => simp [lookup]
  | cons e rest ih =>
    obtain ⟨j, b⟩ := e
    have hrest := (List.pairwise_cons.1 hl).2
    by_cases hk : k = j
    · subst hk
      rw [lookup_cons_self, List.mem_cons]
      constructor
      · rintro ⟨⟩
        exact .inl rfl
      · rintro (h | h)
        · cases h; rfl
        · exact absurd ((List.pairwise_cons.1 hl).1 _ h) (OrderedKey.irrefl k)
    · rw [lookup_cons_ne hl hk, ih hrest, List.mem_cons]
      constructor
      · exact .inr
      · rintro (h | h)
        · cases h; exact absurd rfl hk
        · exact h

theorem lookup_insertEntry_self (k : κ) (a : α) (l : List (κ × α)) :
    lookup k (insertEntry k a l) = some a := by
  induction l with
  | nil => exact lookup_cons_self k a []
  | cons e rest ih =>
    obtain ⟨j, b⟩ := e
    simp only [insertEntry]
    split
    · exact lookup_cons_self k a _
    · rename_i hk
      split
      · rename_i hj
        simp only [lookup, if_neg hk, if_pos hj, ih]
      · rename_i hj
        simp only [lookup, if_neg hk, if_neg hj]

theorem lookup_insertEntry_ne {j k : κ} (hne : j ≠ k) (a : α) {l : List (κ × α)}
    (hl : l.Pairwise (fun a b => a.1 < b.1)) : lookup j (insertEntry k a l) = lookup j l := by
  have hins := insertEntry_increasing k a hl
  induction l with
  | nil => exact lookup_cons_ne hins hne
  | cons e rest ih =>
    obtain ⟨i, b⟩ := e
    simp only [insertEntry] at hins ⊢
    split at hins
    · rename_i hk
      rw [if_pos hk]
      exact lookup_cons_ne hins hne
    · rename_i hk
      rw [if_neg hk]
      split at hins
      · rename_i hi
        rw [if_pos hi]
        have hrest := ih (List.pairwise_cons.1 hl).2 (List.pairwise_cons.1 hins).2
        simp only [lookup, hrest]
      · rename_i hi
        rw [if_neg hi]
        obtain rfl : k = i := OrderedKey.connected hk hi
        rw [lookup_cons_ne hins hne, lookup_cons_ne hl hne]

/-! ### Look-up in maps -/

theorem get?_eq_some_iff {m : SortedMap κ α} {k : κ} {a : α} :
    m.get? k = some a ↔ (k, a) ∈ m.toList :=
  lookup_eq_some_iff m.increasing

@[simp] theorem get?_empty (k : κ) : (∅ : SortedMap κ α).get? k = none := rfl

@[simp] theorem get?_insert_self (m : SortedMap κ α) (k : κ) (a : α) :
    (m.insert k a).get? k = some a :=
  lookup_insertEntry_self k a m.entries

theorem get?_insert_ne (m : SortedMap κ α) {j k : κ} (h : j ≠ k) (a : α) :
    (m.insert k a).get? j = m.get? j :=
  lookup_insertEntry_ne h a m.increasing

theorem get?_insert [DecidableEq κ] (m : SortedMap κ α) (j k : κ) (a : α) :
    (m.insert k a).get? j = if j = k then some a else m.get? j := by
  split
  · rename_i h
    rw [h, get?_insert_self]
  · rename_i h
    exact get?_insert_ne m h a

@[simp] theorem get?_erase_self (m : SortedMap κ α) (k : κ) : (m.erase k).get? k = none := by
  rw [Option.eq_none_iff_forall_ne_some]
  intro a ha
  have hmem := List.mem_filter.1 (get?_eq_some_iff.1 ha)
  simp only [Bool.or_eq_true, decide_eq_true_eq, or_self] at hmem
  exact OrderedKey.irrefl k hmem.2

theorem get?_erase_ne (m : SortedMap κ α) {j k : κ} (h : j ≠ k) :
    (m.erase k).get? j = m.get? j := by
  apply Option.ext
  intro a
  rw [get?_eq_some_iff, get?_eq_some_iff]
  simp only [toList, erase, List.mem_filter, Bool.or_eq_true, decide_eq_true_eq,
    and_iff_left_iff_imp]
  intro _
  exact Decidable.or_iff_not_not_and_not.2 fun hn => h (OrderedKey.connected hn.1 hn.2)

theorem get?_map (f : κ → α → β) (m : SortedMap κ α) (k : κ) :
    (m.map f).get? k = (m.get? k).map (f k) := by
  obtain ⟨l, hl⟩ := m
  simp only [get?, map]
  clear hl
  induction l with
  | nil => rfl
  | cons e rest ih =>
    obtain ⟨j, b⟩ := e
    simp only [List.map_cons, lookup, ih]
    split
    · rfl
    · rename_i hk
      split
      · rfl
      · rename_i hj
        rw [OrderedKey.connected hk hj]
        rfl

theorem contains_iff {m : SortedMap κ α} {k : κ} : m.contains k = true ↔ ∃ a, m.get? k = some a := by
  simp only [contains, Option.isSome_iff_exists]

theorem contains_eq_false_iff {m : SortedMap κ α} {k : κ} :
    m.contains k = false ↔ m.get? k = none := by
  simp only [contains, Option.isSome_eq_false_iff, Option.isNone_iff_eq_none]

theorem nodup_keys (m : SortedMap κ α) : m.keys.Nodup :=
  List.pairwise_map.2 (m.increasing.imp ne_of_lt)

/-- Lists of entries in key order with the same members are equal. -/
theorem eq_of_mem_iff {l l' : List (κ × α)} (hl : l.Pairwise (fun a b => a.1 < b.1))
    (hl' : l'.Pairwise (fun a b => a.1 < b.1)) (h : ∀ e, e ∈ l ↔ e ∈ l') : l = l' := by
  induction l generalizing l' with
  | nil =>
    cases l' with
    | nil => rfl
    | cons f rest' => exact absurd ((h f).2 List.mem_cons_self) List.not_mem_nil
  | cons e rest ih =>
    cases l' with
    | nil => exact absurd ((h e).1 List.mem_cons_self) List.not_mem_nil
    | cons f rest' =>
      obtain ⟨he, hrest⟩ := List.pairwise_cons.1 hl
      obtain ⟨hf, hrest'⟩ := List.pairwise_cons.1 hl'
      have hef : e = f := by
        rcases List.mem_cons.1 ((h e).1 List.mem_cons_self) with hef | hef
        · exact hef
        · rcases List.mem_cons.1 ((h f).2 List.mem_cons_self) with hfe | hfe
          · exact hfe.symm
          · exact absurd (hf e hef) (lt_asymm (he f hfe))
      subst hef
      congr 1
      refine ih hrest hrest' fun g => ⟨fun hg => ?_, fun hg => ?_⟩
      · rcases List.mem_cons.1 ((h g).1 (List.mem_cons_of_mem _ hg)) with rfl | hg'
        · exact absurd (he g hg) (OrderedKey.irrefl _)
        · exact hg'
      · rcases List.mem_cons.1 ((h g).2 (List.mem_cons_of_mem _ hg)) with rfl | hg'
        · exact absurd (hf g hg) (OrderedKey.irrefl _)
        · exact hg'

/-- Two maps with the same look-up are equal. -/
theorem ext_get? {m n : SortedMap κ α} (h : ∀ k, m.get? k = n.get? k) : m = n := by
  refine ext (eq_of_mem_iff m.increasing n.increasing fun e => ?_)
  obtain ⟨k, a⟩ := e
  have hk := h k
  rw [← toList, ← toList, ← get?_eq_some_iff, ← get?_eq_some_iff, hk]

/-- What is picked from the entries of a map depends only on what is picked under each key. -/
theorem filterMap_toList_congr {f : κ × α → Option β} {m n : SortedMap κ α}
    (h : ∀ k, ((m.get? k).bind fun a => f (k, a)) = (n.get? k).bind fun a => f (k, a)) :
    m.toList.filterMap f = n.toList.filterMap f := by
  let pick (e : κ × α) : Option (κ × β) := (f e).map fun b => (e.1, b)
  have hsorted (m : SortedMap κ α) :
      (m.toList.filterMap pick).Pairwise (fun a b => a.1 < b.1) := by
    refine List.Pairwise.filterMap pick ?_ m.increasing
    intro e e' hlt b hb b' hb'
    obtain ⟨_, -, rfl⟩ := Option.map_eq_some_iff.1 hb
    obtain ⟨_, -, rfl⟩ := Option.map_eq_some_iff.1 hb'
    exact hlt
  have hmem (m : SortedMap κ α) (k : κ) (b : β) : (k, b) ∈ m.toList.filterMap pick ↔
      ((m.get? k).bind fun a => f (k, a)) = some b := by
    rw [List.mem_filterMap, Option.bind_eq_some_iff]
    constructor
    · rintro ⟨e, he, hb⟩
      obtain ⟨_, hf, heq⟩ := Option.map_eq_some_iff.1 hb
      cases heq
      exact ⟨e.2, get?_eq_some_iff.2 he, hf⟩
    · rintro ⟨a, ha, hf⟩
      exact ⟨(k, a), get?_eq_some_iff.1 ha, by simp only [pick, hf, Option.map_some]⟩
  have hpicked : m.toList.filterMap pick = n.toList.filterMap pick := by
    refine eq_of_mem_iff (hsorted m) (hsorted n) fun e => ?_
    obtain ⟨k, b⟩ := e
    rw [hmem, hmem, h k]
  have hvalues (m : SortedMap κ α) :
      (m.toList.filterMap pick).map (·.2) = m.toList.filterMap f := by
    rw [List.map_filterMap]
    congr 1
    funext e
    simp only [pick, Option.map_map, Function.comp_def, Option.map_id']
  rw [← hvalues m, hpicked, hvalues n]

theorem keys_insertEntry_perm {k : κ} (a : α) {l : List (κ × α)}
    (hl : l.Pairwise (fun a b => a.1 < b.1)) (h : lookup k l = none) :
    ((insertEntry k a l).map (·.1)).Perm (k :: l.map (·.1)) := by
  induction l with
  | nil => exact .refl _
  | cons e rest ih =>
    obtain ⟨j, b⟩ := e
    simp only [insertEntry]
    split
    · exact .refl _
    · rename_i hk
      split
      · rename_i hj
        have hne : k ≠ j := fun heq => ne_of_lt hj heq.symm
        rw [lookup_cons_ne hl hne] at h
        exact ((ih (List.pairwise_cons.1 hl).2 h).cons j).trans (.swap k j _)
      · rename_i hj
        obtain rfl : k = j := OrderedKey.connected hk hj
        rw [lookup_cons_self] at h
        cases h

/-- A new key is one more key. -/
theorem keys_insert_perm {m : SortedMap κ α} {k : κ} (h : m.contains k = false) (a : α) :
    (m.insert k a).keys.Perm (k :: m.keys) :=
  keys_insertEntry_perm a m.increasing (contains_eq_false_iff.1 h)

/-- Maps in which the same keys have values have the same keys. -/
theorem keys_eq_of_isSome {m : SortedMap κ α} {n : SortedMap κ β}
    (h : ∀ k, (m.get? k).isSome = (n.get? k).isSome) : m.keys = n.keys := by
  have hkeys {γ : Type} (m : SortedMap κ γ) : (m.map fun _ _ => ()).keys = m.keys := by
    simp only [keys, map, List.map_map]
    rfl
  have heq : m.map (fun _ _ => ()) = n.map fun _ _ => () := by
    refine ext_get? fun k => ?_
    have hk := h k
    rw [get?_map, get?_map]
    cases hm : m.get? k with
    | none =>
      have hn : n.get? k = none := by
        rw [hm] at hk
        simpa using hk.symm
      rw [hn]
      rfl
    | some a =>
      rw [hm] at hk
      obtain ⟨b, hb⟩ := Option.isSome_iff_exists.1 hk.symm
      rw [hb]
      rfl
  rw [← hkeys m, heq, hkeys]

/-! ### Maps from lists -/

/-- The value of the last entry of a key. -/
def lastValue? [DecidableEq κ] (k : κ) (l : List (κ × α)) : Option α :=
  (l.reverse.find? (·.1 = k)).map (·.2)

omit [OrderedKey κ] in
theorem lastValue?_cons [DecidableEq κ] (k : κ) (e : κ × α) (l : List (κ × α)) :
    lastValue? k (e :: l) = (lastValue? k l).or (if e.1 = k then some e.2 else none) := by
  simp only [lastValue?, List.reverse_cons, List.find?_append]
  cases hl : l.reverse.find? (·.1 = k) with
  | some f => rfl
  | none => by_cases h : e.1 = k <;> simp [h]

omit [OrderedKey κ] in
theorem lastValue?_isSome [DecidableEq κ] {k : κ} {a : α} {l : List (κ × α)} (h : (k, a) ∈ l) :
    (lastValue? k l).isSome = true := by
  simp only [lastValue?, Option.isSome_map, List.find?_isSome, List.mem_reverse,
    decide_eq_true_eq]
  exact ⟨(k, a), h, rfl⟩

omit [OrderedKey κ] in
theorem mem_of_lastValue? [DecidableEq κ] {k : κ} {a : α} {l : List (κ × α)}
    (h : lastValue? k l = some a) : (k, a) ∈ l := by
  obtain ⟨e, he, rfl⟩ := Option.map_eq_some_iff.1 h
  obtain rfl : e.1 = k := by simpa using List.find?_some he
  exact List.mem_reverse.1 (List.mem_of_find?_eq_some he)

omit [OrderedKey κ] in
theorem lastValue?_eq_none [DecidableEq κ] {k : κ} {l : List (κ × α)} (h : k ∉ l.map (·.1)) :
    lastValue? k l = none := by
  simp only [lastValue?, Option.map_eq_none_iff, List.find?_eq_none, List.mem_reverse,
    decide_eq_true_eq]
  exact fun e he heq => h (List.mem_map.2 ⟨e, he, heq⟩)

theorem get?_insertAll [DecidableEq κ] (l : List (κ × α)) (m : SortedMap κ α) (k : κ) :
    (l.foldl (fun m e => m.insert e.1 e.2) m).get? k = (lastValue? k l).or (m.get? k) := by
  induction l generalizing m with
  | nil => rfl
  | cons e l ih =>
    rw [List.foldl_cons, ih, get?_insert, lastValue?_cons, Option.or_assoc]
    by_cases h : e.1 = k
    · simp [h]
    · simp [h, Ne.symm h]

theorem get?_ofList [DecidableEq κ] (l : List (κ × α)) (k : κ) :
    (ofList l).get? k = lastValue? k l :=
  (get?_insertAll l empty k).trans (Option.or_none)

/-- The entries of a map make the map again. -/
theorem ofList_toList [DecidableEq κ] (m : SortedMap κ α) : ofList m.toList = m := by
  apply ext_get?
  intro k
  rw [get?_ofList]
  apply Option.ext
  intro a
  rw [get?_eq_some_iff, lastValue?, Option.map_eq_some_iff]
  constructor
  · rintro ⟨e, he, rfl⟩
    have hk : e.1 = k := by simpa using List.find?_some he
    have hmem := List.mem_reverse.1 (List.mem_of_find?_eq_some he)
    exact hk ▸ hmem
  · intro hmem
    cases hfind : m.toList.reverse.find? (·.1 = k) with
    | none =>
      have hno := List.find?_eq_none.1 hfind (k, a) (List.mem_reverse.2 hmem)
      simp at hno
    | some e =>
      have hk : e.1 = k := by simpa using List.find?_some hfind
      have he := List.mem_reverse.1 (List.mem_of_find?_eq_some hfind)
      have heq : m.get? k = some e.2 := get?_eq_some_iff.2 (hk ▸ he)
      rw [get?_eq_some_iff.2 hmem] at heq
      exact ⟨e, rfl, (Option.some.inj heq).symm⟩

end JobOperator.SortedMap
