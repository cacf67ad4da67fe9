/-!
Maps kept as lists of entries in strictly increasing key order. The order is part of the type, so a
map has one representation and two maps with the same entries are equal.
-/

namespace JobOperator

/-- A strict total order on keys. -/
class OrderedKey (κ : Type) extends LT κ where
  decidableLT : DecidableLT κ
  irrefl (a : κ) : ¬ a < a
  trans {a b c : κ} : a < b → b < c → a < c
  connected {a b : κ} : ¬ a < b → ¬ b < a → a = b

instance OrderedKey.instDecidableLT {κ : Type} [OrderedKey κ] : DecidableLT κ :=
  OrderedKey.decidableLT

/-- Text is ordered by code point. -/
instance : OrderedKey String where
  decidableLT := inferInstance
  irrefl := String.lt_irrefl
  trans := String.lt_trans
  connected := fun hab hba => String.le_antisymm hba hab

/-- Entries in strictly increasing key order. -/
structure SortedMap (κ : Type) [OrderedKey κ] (α : Type) where
  entries : List (κ × α)
  increasing : entries.Pairwise (fun a b => a.1 < b.1)

/-- A map from text, the shape of every map in an object. -/
abbrev StringMap (α : Type) := SortedMap String α

namespace SortedMap

variable {κ : Type} [OrderedKey κ] {α β : Type}

theorem ext {m n : SortedMap κ α} (h : m.entries = n.entries) : m = n := by
  cases m; cases n; cases h; rfl

instance [DecidableEq κ] [DecidableEq α] : DecidableEq (SortedMap κ α) := fun m n =>
  decidable_of_iff (m.entries = n.entries) ⟨ext, fun h => h ▸ rfl⟩

instance [Repr κ] [Repr α] : Repr (SortedMap κ α) where
  reprPrec m := reprPrec m.entries

/-- The map without entries. -/
def empty : SortedMap κ α := ⟨[], .nil⟩

instance : EmptyCollection (SortedMap κ α) := ⟨empty⟩

instance : Inhabited (SortedMap κ α) := ⟨empty⟩

/-- The entries in key order. -/
def toList (m : SortedMap κ α) : List (κ × α) := m.entries

/-- The keys in order. -/
def keys (m : SortedMap κ α) : List κ := m.entries.map (·.1)

/-- The values in key order. -/
def values (m : SortedMap κ α) : List α := m.entries.map (·.2)

/-- The value of the key `k` in a list of entries in key order. -/
def lookup (k : κ) : List (κ × α) → Option α
  | [] => none
  | (j, a) :: rest => if k < j then none else if j < k then lookup k rest else some a

/-- The value of the key `k`. -/
def get? (m : SortedMap κ α) (k : κ) : Option α := lookup k m.entries

/-- Whether the key `k` has a value. -/
def contains (m : SortedMap κ α) (k : κ) : Bool := (m.get? k).isSome

/-- A list of entries in key order with the value of `k` set. -/
def insertEntry (k : κ) (a : α) : List (κ × α) → List (κ × α)
  | [] => [(k, a)]
  | (j, b) :: rest =>
    if k < j then (k, a) :: (j, b) :: rest
    else if j < k then (j, b) :: insertEntry k a rest
    else (j, a) :: rest

theorem key_mem_insertEntry {k : κ} {a : α} {l : List (κ × α)} {e : κ × α}
    (h : e ∈ insertEntry k a l) : e.1 = k ∨ ∃ f ∈ l, f.1 = e.1 := by
  induction l with
  | nil =>
    simp only [insertEntry, List.mem_singleton] at h
    exact .inl (h ▸ rfl)
  | cons f rest ih =>
    obtain ⟨j, b⟩ := f
    simp only [insertEntry] at h
    split at h
    · rcases List.mem_cons.1 h with rfl | h
      · exact .inl rfl
      · exact .inr ⟨e, h, rfl⟩
    · split at h
      · rcases List.mem_cons.1 h with rfl | h
        · exact .inr ⟨(j, b), List.mem_cons_self, rfl⟩
        · rcases ih h with h | ⟨f, hf, hfe⟩
          · exact .inl h
          · exact .inr ⟨f, List.mem_cons_of_mem _ hf, hfe⟩
      · rcases List.mem_cons.1 h with rfl | h
        · exact .inr ⟨(j, b), List.mem_cons_self, rfl⟩
        · exact .inr ⟨e, List.mem_cons_of_mem _ h, rfl⟩

theorem insertEntry_increasing (k : κ) (a : α) {l : List (κ × α)}
    (h : l.Pairwise (fun a b => a.1 < b.1)) :
    (insertEntry k a l).Pairwise (fun a b => a.1 < b.1) := by
  induction l with
  | nil => simp [insertEntry]
  | cons f rest ih =>
    obtain ⟨j, b⟩ := f
    have hj := (List.pairwise_cons.1 h).1
    have hrest := (List.pairwise_cons.1 h).2
    simp only [insertEntry]
    split
    · rename_i hk
      refine List.pairwise_cons.2 ⟨fun e he => ?_, h⟩
      rcases List.mem_cons.1 he with rfl | he
      · exact hk
      · exact OrderedKey.trans hk (hj e he)
    · split
      · rename_i hk
        refine List.pairwise_cons.2 ⟨fun e he => ?_, ih hrest⟩
        rcases key_mem_insertEntry he with heq | ⟨f, hf, hfe⟩
        · simpa [heq] using hk
        · simpa [hfe] using hj f hf
      · exact List.pairwise_cons.2 ⟨hj, hrest⟩

/-- The map with the value of `k` set to `a`. -/
def insert (m : SortedMap κ α) (k : κ) (a : α) : SortedMap κ α :=
  ⟨insertEntry k a m.entries, insertEntry_increasing k a m.increasing⟩

/-- The map without the key `k`. -/
def erase (m : SortedMap κ α) (k : κ) : SortedMap κ α :=
  ⟨m.entries.filter (fun e => e.1 < k || k < e.1), m.increasing.filter _⟩

/-- The map with every value replaced by its image, which may depend on the key. -/
def map (f : κ → α → β) (m : SortedMap κ α) : SortedMap κ β :=
  ⟨m.entries.map (fun e => (e.1, f e.1 e.2)), List.pairwise_map.2 m.increasing⟩

/-- The entries of a list, where a later entry of a key replaces an earlier one. -/
def ofList (l : List (κ × α)) : SortedMap κ α :=
  l.foldl (fun m e => m.insert e.1 e.2) empty

/-- Updates the value of `k`, which is `a` where there is none yet. -/
def alter (m : SortedMap κ α) (k : κ) (a : α) (f : α → α) : SortedMap κ α :=
  m.insert k (f ((m.get? k).getD a))

end SortedMap

end JobOperator
