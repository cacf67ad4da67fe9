import JobOperator.Store.Kind

/-! The key of an object in a cluster: no two objects of one kind and namespace have the same name. -/

namespace JobOperator

/-- Where a cluster keeps an object. -/
structure ObjectKey where
  kind : Kind
  «namespace» : String
  name : String
  deriving DecidableEq, Repr

namespace Kind

theorem plural_injective {a b : Kind} (h : a.plural = b.plural) : a = b := by
  cases a <;> cases b <;> first | rfl | exact absurd h (by decide)

/-- The kind of this name. -/
def ofName? (name : String) : Option Kind := all.find? (·.name == name)

end Kind

namespace ObjectKey

/-- Keys are ordered by collection, then by namespace, then by name. -/
def Before (a b : ObjectKey) : Prop :=
  a.kind.plural < b.kind.plural ∨
    a.kind.plural = b.kind.plural ∧
      (a.namespace < b.namespace ∨ a.namespace = b.namespace ∧ a.name < b.name)

instance (a b : ObjectKey) : Decidable (a.Before b) :=
  inferInstanceAs (Decidable (_ ∨ _))

instance : LT ObjectKey := ⟨Before⟩

theorem irrefl (a : ObjectKey) : ¬ a.Before a := by
  rintro (h | ⟨-, h | ⟨-, h⟩⟩) <;> exact String.lt_irrefl _ h

theorem before_trans {a b c : ObjectKey} (hab : a.Before b) (hbc : b.Before c) : a.Before c := by
  rcases hab with h | ⟨h, hab⟩ <;> rcases hbc with h' | ⟨h', hbc⟩
  · exact .inl (String.lt_trans h h')
  · exact .inl (h' ▸ h)
  · exact .inl (h ▸ h')
  · refine .inr ⟨h.trans h', ?_⟩
    rcases hab with h | ⟨h, hab⟩ <;> rcases hbc with h' | ⟨h', hbc⟩
    · exact .inl (String.lt_trans h h')
    · exact .inl (h' ▸ h)
    · exact .inl (h ▸ h')
    · exact .inr ⟨h.trans h', String.lt_trans hab hbc⟩

theorem eq_of_not_lt {a b : String} (hab : ¬ a < b) (hba : ¬ b < a) : a = b :=
  String.le_antisymm hba hab

theorem before_connected {a b : ObjectKey} (hab : ¬ a.Before b) (hba : ¬ b.Before a) : a = b := by
  have hp : a.kind.plural = b.kind.plural :=
    eq_of_not_lt (fun h => hab (.inl h)) (fun h => hba (.inl h))
  have hn : a.namespace = b.namespace :=
    eq_of_not_lt (fun h => hab (.inr ⟨hp, .inl h⟩)) (fun h => hba (.inr ⟨hp.symm, .inl h⟩))
  have hm : a.name = b.name :=
    eq_of_not_lt (fun h => hab (.inr ⟨hp, .inr ⟨hn, h⟩⟩))
      (fun h => hba (.inr ⟨hp.symm, .inr ⟨hn.symm, h⟩⟩))
  have hk := Kind.plural_injective hp
  cases a; cases b; simp_all

instance : OrderedKey ObjectKey where
  decidableLT := fun a b => inferInstanceAs (Decidable (a.Before b))
  irrefl := irrefl
  trans := before_trans
  connected := before_connected

end ObjectKey

end JobOperator
