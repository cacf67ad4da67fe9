import JobOperator.Json.Record
import JobOperator.Proofs.Json.Members

/-!
What reading a record needs of the members of an object: of each field, the values of the members
that name it; of all other members, that they can be passed over. The places of failures play no
part in a reading that succeeds.
-/

namespace JobOperator

variable {α β γ τ : Type}

theorem map_eq_ok {ε : Type} {f : α → β} {x : Except ε α} {b : β} :
    x.map f = .ok b ↔ ∃ a, x = .ok a ∧ f a = b := by
  cases x <;> simp [Except.map]

/-! ### One field -/

namespace Field

variable {field : Field β} {members : List (String × Json)} {b : β}

/-- The values of the members that name a field, in order. -/
def values (field : Field β) (members : List (String × Json)) : List Json :=
  (members.filter (fun m => field.named m.1)).map (·.2)

@[simp] theorem values_nil (field : Field β) : field.values [] = [] := rfl

theorem values_cons (field : Field β) (m : String × Json) (members : List (String × Json)) :
    field.values (m :: members) =
      if field.named m.1 then m.2 :: field.values members else field.values members := by
  simp only [values, List.filter_cons]
  split <;> rfl

theorem values_append (field : Field β) (ms ns : List (String × Json)) :
    field.values (ms ++ ns) = field.values ms ++ field.values ns := by
  simp only [values, List.filter_append, List.map_append]

theorem values_eq_nil (h : ∀ m ∈ members, field.named m.1 = false) : field.values members = [] := by
  simp only [values, List.map_eq_nil_iff, List.filter_eq_nil_iff]
  intro m hm
  simp [h m hm]

theorem named_self (field : Field β) : field.named field.name = true := by
  simp [named]

/-- A field without members has the value of an earlier member, or its default. -/
theorem readMembers_of_absent {repetition : Repetition} {place : Nat} {seen : Option β}
    (hv : field.values members = []) (hb : seen.or field.missing = some b) :
    field.readMembers repetition place seen members = .ok b := by
  induction members generalizing place with
  | nil => simp only [readMembers, hb]
  | cons m rest ih =>
    obtain ⟨key, value⟩ := m
    rw [values_cons] at hv
    split at hv
    · cases hv
    · rename_i hn
      simp only [readMembers, if_neg hn]
      exact ih hv

/-- A field with one member has the value of that member. -/
theorem readMembers_of_single {repetition : Repetition} {place : Nat} {v : Json}
    (hv : field.values members = [v]) (hb : field.read v = .ok b) :
    field.readMembers repetition place none members = .ok b := by
  induction members generalizing place with
  | nil => cases hv
  | cons m rest ih =>
    obtain ⟨key, value⟩ := m
    rw [values_cons] at hv
    split at hv
    · rename_i hn
      obtain ⟨rfl, hrest⟩ := List.cons.inj hv
      simp only [readMembers, if_pos hn, hb, Option.isSome_none, Bool.false_and,
        Bool.false_eq_true, if_false]
      exact readMembers_of_absent hrest rfl
    · rename_i hn
      simp only [readMembers, if_neg hn]
      exact ih hv

/-- A field that may not be repeated has one member, or none and a default. -/
theorem of_readMembers_refused {place : Nat} {seen : Option β}
    (h : field.readMembers .refused place seen members = .ok b) :
    field.values members = [] ∧ seen.or field.missing = some b ∨
      seen = none ∧ ∃ v, field.values members = [v] ∧ field.read v = .ok b := by
  induction members generalizing place seen with
  | nil =>
    simp only [readMembers] at h
    split at h
    · rename_i a ha
      cases h
      exact .inl ⟨rfl, ha⟩
    · cases h
  | cons m rest ih =>
    obtain ⟨key, value⟩ := m
    simp only [readMembers] at h
    rw [values_cons]
    split at h
    · rename_i hn
      rw [if_pos hn]
      cases seen with
      | some a => simp at h
      | none =>
        simp only [Option.isSome_none, Bool.false_and, Bool.false_eq_true, if_false] at h
        split at h
        · rename_i a ha
          rcases ih h with ⟨hv, hab⟩ | ⟨hno, -⟩
          · cases hab
            exact .inr ⟨rfl, value, by rw [hv], ha⟩
          · cases hno
        · cases h
    · rename_i hn
      rw [if_neg hn]
      exact ih h

/-- Reading a field that may not be repeated, by the values that it has. -/
theorem readMembers_refused_iff :
    field.readMembers .refused 0 none members = .ok b ↔
      (field.values members = [] ∧ field.missing = some b) ∨
        ∃ v, field.values members = [v] ∧ field.read v = .ok b := by
  constructor
  · intro h
    rcases of_readMembers_refused h with h | ⟨-, h⟩
    · exact .inl h
    · exact .inr h
  · rintro (⟨hv, hb⟩ | ⟨v, hv, hb⟩)
    · exact readMembers_of_absent hv hb
    · exact readMembers_of_single hv hb

theorem values_length_le (h : field.readMembers .refused 0 none members = .ok b) :
    (field.values members).length ≤ 1 := by
  rcases readMembers_refused_iff.1 h with ⟨hv, -⟩ | ⟨v, hv, -⟩ <;> simp [hv]

/-- A field whose last member counts has the value of that member, or else an earlier value or its
default. -/
theorem of_readMembers_lastCounts (halias : field.aliases = []) {place : Nat} {seen : Option β}
    (h : field.readMembers .lastCounts place seen members = .ok b) :
    Json.lastMember? field.name members = none ∧ seen.or field.missing = some b ∨
      ∃ v, Json.lastMember? field.name members = some v ∧ field.read v = .ok b := by
  induction members generalizing place seen with
  | nil =>
    simp only [readMembers] at h
    split at h
    · rename_i a ha
      cases h
      exact .inl ⟨rfl, ha⟩
    · cases h
  | cons m rest ih =>
    obtain ⟨key, value⟩ := m
    have hnamed : field.named key = true ↔ key = field.name := by simp [named, halias]
    simp only [readMembers] at h
    rw [Json.lastMember?_cons]
    split at h
    · rename_i hn
      rw [if_pos (hnamed.1 hn)]
      simp only [show (Repetition.lastCounts == .refused) = false from rfl, Bool.and_false,
        Bool.false_eq_true, if_false] at h
      split at h
      · rename_i a ha
        rcases ih h with ⟨hnone, hab⟩ | ⟨v, hv, hb⟩
        · cases hab
          exact .inr ⟨value, by rw [hnone, Option.none_or], ha⟩
        · exact .inr ⟨v, by rw [hv, Option.some_or], hb⟩
      · cases h
    · rename_i hn
      rw [if_neg fun heq => hn (hnamed.2 heq), Option.or_none]
      exact ih h

/-- A field for which `null` stands for absence reads what its last member holds, or `null`. -/
theorem read_of_readMembers_lastCounts (halias : field.aliases = [])
    (hmissing : ∀ a, field.missing = some a → field.read .null = .ok a)
    (h : field.readMembers .lastCounts 0 none members = .ok b) :
    field.read ((Json.lastMember? field.name members).getD .null) = .ok b := by
  rcases of_readMembers_lastCounts halias h with ⟨hnone, hb⟩ | ⟨v, hv, hb⟩
  · rw [hnone]
    exact hmissing b hb
  · rw [hv]
    exact hb

theorem eq_null_of_readOption {value : Codec β} {json : Json}
    (h : readOption value json = .ok none) : json = .null := by
  cases json with
  | null => rfl
  | _ =>
    obtain ⟨b, -, hb⟩ := map_eq_ok.1 h
    cases hb

theorem decode_of_readOption {value : Codec β} {json : Json} {b : β}
    (h : readOption value json = .ok (some b)) : value.decode json = .ok b := by
  cases json with
  | null => cases h
  | _ =>
    obtain ⟨a, ha, hab⟩ := map_eq_ok.1 h
    cases hab
    exact ha

/-- What is not `null` is read as it is where `null` has a meaning of its own. -/
theorem presentOr_read {name : String} {zero : β} {value : Codec β} {json : Json}
    (h : json ≠ .null) : (presentOr name zero value).read json = value.decode json := by
  have hread : readOption value json = (value.decode json).map some := by
    cases json with
    | null => exact absurd rfl h
    | _ => rfl
  simp only [presentOr, zeroed, hread]
  cases value.decode json <;> rfl

/-! ### Setting a member -/

/-- Setting a member leaves the fields that it does not name. -/
theorem values_setMember_of_not_named {key : String} {value : Json}
    (h : field.named key = false) :
    field.values (Json.setMember key value members) = field.values members := by
  induction members with
  | nil => simp [Json.setMember, values_cons, h]
  | cons m rest ih =>
    obtain ⟨k, v⟩ := m
    simp only [Json.setMember]
    split
    · rename_i hk
      subst hk
      simp only [values_cons, h, Bool.false_eq_true, if_false]
    · rw [values_cons, values_cons, ih]

/-- Setting the member of a field that is not repeated gives it this value. -/
theorem values_setMember_self {value : Json} (halias : field.aliases = [])
    (hlen : (field.values members).length ≤ 1) :
    field.values (Json.setMember field.name value members) = [value] := by
  have hname (key : String) : field.named key = true ↔ key = field.name := by
    simp [named, halias]
  induction members with
  | nil => simp [Json.setMember, values_cons, named_self]
  | cons m rest ih =>
    obtain ⟨k, v⟩ := m
    simp only [Json.setMember]
    split
    · rename_i hk
      rw [values_cons, if_pos ((hname k).2 hk)] at hlen
      rw [values_cons, if_pos ((hname k).2 hk)]
      have hrest : field.values rest = [] := List.eq_nil_of_length_eq_zero (by
        simp only [List.length_cons] at hlen
        omega)
      rw [hrest]
    · rename_i hk
      have hn : ¬ field.named k = true := fun h => hk ((hname k).1 h)
      rw [values_cons, if_neg hn] at hlen ⊢
      exact ih hlen

/-- The value of a field without other names is that of its last member. -/
theorem lastMember?_of_values {v : Json} (halias : field.aliases = [])
    (h : field.values members = [v]) : Json.lastMember? field.name members = some v := by
  have hname (key : String) : field.named key = true ↔ key = field.name := by
    simp [named, halias]
  induction members with
  | nil => cases h
  | cons m rest ih =>
    obtain ⟨k, u⟩ := m
    rw [values_cons] at h
    rw [Json.lastMember?_cons]
    split at h
    · rename_i hk
      obtain ⟨rfl, hrest⟩ := List.cons.inj h
      have habsent : Json.lastMember? field.name rest = none := by
        rw [Json.lastMember?_eq_none_iff]
        intro m hm hmk
        have hmem : m.2 ∈ field.values rest :=
          List.mem_map.2 ⟨m, List.mem_filter.2 ⟨hm, (hname m.1).2 hmk⟩, rfl⟩
        rw [hrest] at hmem
        cases hmem
      rw [habsent, if_pos ((hname k).1 hk), Option.none_or]
    · rename_i hk
      rw [ih h, Option.some_or]

theorem lastMember?_of_values_nil (h : field.values members = []) :
    Json.lastMember? field.name members = none := by
  rw [Json.lastMember?_eq_none_iff]
  intro m hm hmk
  have hmem : m.2 ∈ field.values members :=
    List.mem_map.2 ⟨m, List.mem_filter.2 ⟨hm, hmk ▸ field.named_self⟩, rfl⟩
  rw [h] at hmem
  cases hmem

end Field

/-! ### All fields -/

theorem earliest_eq_ok {a : Except Placed α} {b : Except Placed β} {x : α} {y : β} :
    earliest a b = .ok (x, y) ↔ a = .ok x ∧ b = .ok y := by
  cases a <;> cases b <;> simp [earliest]

namespace Fields

variable {fields : Fields τ} {members : List (String × Json)}

@[simp] theorem readMembers_nil (repetition : Repetition) (members : List (String × Json)) :
    Fields.nil.readMembers repetition members = .ok () := rfl

theorem readMembers_cons {repetition : Repetition} {field : Field β} {rest : Fields γ} {b : β}
    {bs : γ} : (Fields.cons field rest).readMembers repetition members = .ok (b, bs) ↔
      field.readMembers repetition 0 none members = .ok b ∧
        rest.readMembers repetition members = .ok bs :=
  earliest_eq_ok

theorem ignoreOthers_eq_ok {place : Nat} :
    fields.ignoreOthers place members = .ok () ↔
      ∀ m ∈ members, fields.named m.1 = true ∨ m.2.ignoredFault = none := by
  induction members generalizing place with
  | nil => simp [ignoreOthers]
  | cons m rest ih =>
    obtain ⟨key, value⟩ := m
    simp only [ignoreOthers, List.forall_mem_cons]
    split
    · rename_i hn
      simp only [ih, hn, true_or, true_and]
    · rename_i hn
      split
      · rename_i fault hf
        simp [hn, hf]
      · rename_i hf
        simp only [ih, hf, or_true, true_and]

/-- A record is read from members when each field is, and the other members can be passed over. -/
theorem readObject_eq_ok {repetition : Repetition} {values : τ} :
    fields.readObject repetition members = .ok values ↔
      (∀ m ∈ members, fields.named m.1 = true ∨ m.2.ignoredFault = none) ∧
        fields.readMembers repetition members = .ok values := by
  rw [← @ignoreOthers_eq_ok _ fields members 0]
  simp only [readObject]
  split
  · rename_i u values' h
    obtain ⟨hi, hr⟩ := earliest_eq_ok.1 h
    rw [hi, hr]
    simp
  · rename_i e h
    constructor
    · intro h'
      cases h'
    · rintro ⟨hi, hr⟩
      rw [earliest_eq_ok.2 ⟨hi, hr⟩] at h
      cases h

/-- In an array, a field has the value of an item, or the one that stands for a missing item. -/
theorem of_readItems_cons {field : Field β} {rest : Fields γ} {items : List Json} {b : β} {bs : γ}
    (h : (Fields.cons field rest).readItems items = .ok (b, bs)) :
    (field.trailing = some b ∨ ∃ item, field.read item = .ok b) ∧
      ∃ items', rest.readItems items' = .ok bs := by
  cases items with
  | nil =>
    simp only [readItems] at h
    split at h
    · rename_i b' hb
      obtain ⟨bs', hbs, heq⟩ := map_eq_ok.1 h
      cases heq
      exact ⟨.inl hb, [], hbs⟩
    · cases h
  | cons item items =>
    simp only [readItems, bind, Except.bind] at h
    cases hb : field.read item with
    | error e =>
      rw [hb] at h
      cases h
    | ok b' =>
      rw [hb] at h
      cases hbs : rest.readItems items with
      | error e =>
        rw [hbs] at h
        cases h
      | ok bs' =>
        rw [hbs] at h
        cases h
        exact ⟨.inr ⟨item, hb⟩, items, hbs⟩

end Fields

theorem Codec.strictRecord_decode_obj {fields : Fields τ} {make : τ → α} {parts : α → τ}
    {members : List (String × Json)} {a : α} :
    (strictRecord fields make parts).decode (.obj members) = .ok a ↔
      ∃ values, fields.readObject .refused members = .ok values ∧ make values = a :=
  map_eq_ok

theorem Codec.strictRecord_decode_arr {fields : Fields τ} {make : τ → α} {parts : α → τ}
    {items : List Json} {a : α} :
    (strictRecord fields make parts).decode (.arr items) = .ok a ↔
      ∃ values, fields.readItems items = .ok values ∧ make values = a :=
  map_eq_ok

end JobOperator
