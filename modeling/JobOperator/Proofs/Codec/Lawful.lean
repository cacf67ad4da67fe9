import JobOperator.Proofs.Codec.Record
import JobOperator.Proofs.SortedMap

/-!
Codecs that read back what they write. A record does so when its fields do and no two fields share
a key.
-/

namespace JobOperator

variable {α β γ τ : Type}

namespace Codec

/-- A value is read back from what is written for it, which is not `null`. -/
structure LawfulAt (codec : Codec α) (a : α) : Prop where
  roundTrips : codec.RoundTrips a
  ne_null : codec.encode a ≠ .null

/-- Every value is read back. -/
def Lawful (codec : Codec α) : Prop := ∀ a, codec.LawfulAt a

/-! ### Plain values -/

@[simp] theorem string_lawful : string.Lawful := fun _ => ⟨rfl, nofun⟩

@[simp] theorem bool_lawful : bool.Lawful := fun _ => ⟨rfl, nofun⟩

theorem decodeInt_int {low high n : Int} (h : low ≤ n ∧ n ≤ high) :
    decodeInt low high (.int n) = .ok n :=
  if_pos h

@[simp] theorem int32_lawful : int32.Lawful := by
  refine fun n => ⟨?_, nofun⟩
  simp only [RoundTrips, int32, decodeInt_int ⟨n.minValue_le_toInt, n.toInt_le⟩, Except.map,
    Int32.ofInt_toInt]

@[simp] theorem int64_lawful : int64.Lawful := by
  refine fun n => ⟨?_, nofun⟩
  simp only [RoundTrips, int64, decodeInt_int ⟨n.minValue_le_toInt, n.toInt_le⟩, Except.map,
    Int64.ofInt_toInt]

/-! ### Lists and maps -/

theorem decodeItems_map {codec : Codec α} (h : codec.Lawful) (as : List α) :
    decodeItems codec.decode (as.map codec.encode) = .ok as := by
  induction as with
  | nil => rfl
  | cons a as ih =>
    have ha : codec.decode (codec.encode a) = .ok a := (h a).roundTrips
    simp only [List.map_cons, decodeItems, ha, ih]
    rfl

@[simp] theorem list_lawful {item : Codec α} (h : item.Lawful) : (list item).Lawful :=
  fun as => ⟨decodeItems_map h as, nofun⟩

theorem decodeEntries_map {codec : Codec α} (h : codec.Lawful) (entries : List (String × α)) :
    decodeEntries codec.decode (entries.map (fun e => (e.1, codec.encode e.2))) = .ok entries := by
  induction entries with
  | nil => rfl
  | cons e entries ih =>
    have he : codec.decode (codec.encode e.2) = .ok e.2 := (h e.2).roundTrips
    simp only [List.map_cons, decodeEntries, he, ih]
    rfl

@[simp] theorem stringMap_lawful {value : Codec α} (h : value.Lawful) :
    (stringMap value).Lawful := by
  refine fun m => ⟨?_, nofun⟩
  simp only [RoundTrips, stringMap, decodeEntries_map h, Except.map, SortedMap.ofList_toList]

end Codec

/-! ### Fields -/

/-- A field is read back from its member, or from having none. -/
def Field.LawfulAt (field : Field β) (b : β) : Prop :=
  match field.write b with
  | some v => field.read v = .ok b
  | none => field.missing = some b

namespace Field

theorem readOption_encode {codec : Codec β} {b : β} (h : codec.LawfulAt b) :
    readOption codec (codec.encode b) = .ok (some b) := by
  have hb : codec.decode (codec.encode b) = .ok b := h.roundTrips
  simp only [readOption]
  split
  · rename_i hnull
    exact absurd hnull h.ne_null
  · rw [hb]
    rfl

theorem required_lawfulAt {codec : Codec β} {name : String} {b : β} (h : codec.LawfulAt b) :
    (required name codec).LawfulAt b := h.roundTrips

theorem defaulted_lawfulAt {codec : Codec β} {name : String} {default b : β}
    (h : codec.LawfulAt b) : (defaulted name default codec).LawfulAt b := h.roundTrips

theorem optional_lawfulAt {codec : Codec β} {name : String} {aliases : List String} {o : Option β}
    (h : ∀ b, o = some b → codec.LawfulAt b) : (optional name codec aliases).LawfulAt o := by
  cases o with
  | none => rfl
  | some b => exact readOption_encode (h b rfl)

theorem optionalInPlace_lawfulAt {codec : Codec β} {name : String} {o : Option β}
    (h : ∀ b, o = some b → codec.LawfulAt b) : (optionalInPlace name codec).LawfulAt o := by
  cases o with
  | none => rfl
  | some b => exact readOption_encode (h b rfl)

theorem zeroed_lawfulAt {codec : Codec β} {name : String} {zero b : β} (h : codec.LawfulAt b) :
    (zeroed name zero codec).LawfulAt b := by
  simp only [LawfulAt, zeroed, readOption_encode h]
  rfl

@[simp] theorem constant_lawfulAt {name text : String} {u : Unit} :
    (constant name text).LawfulAt u := by
  simp [LawfulAt, constant]

/-! The same for codecs that read back every value. -/

@[simp] theorem required_lawful {codec : Codec β} {name : String} {b : β} (h : codec.Lawful) :
    (required name codec).LawfulAt b := required_lawfulAt (h b)

@[simp] theorem defaulted_lawful {codec : Codec β} {name : String} {default b : β}
    (h : codec.Lawful) : (defaulted name default codec).LawfulAt b := defaulted_lawfulAt (h b)

@[simp] theorem optional_lawful {codec : Codec β} {name : String} {aliases : List String}
    {o : Option β} (h : codec.Lawful) : (optional name codec aliases).LawfulAt o :=
  optional_lawfulAt fun b _ => h b

@[simp] theorem zeroed_lawful {codec : Codec β} {name : String} {zero b : β} (h : codec.Lawful) :
    (zeroed name zero codec).LawfulAt b := zeroed_lawfulAt (h b)

end Field

/-! ### Records -/

namespace Fields

/-- The keys of fields, in order. -/
def names {τ : Type} : Fields τ → List String
  | .nil => []
  | .cons field rest => field.name :: rest.names

/-- Whether no key names two fields. -/
def distinct {τ : Type} : Fields τ → Bool
  | .nil => true
  | .cons field rest =>
    !rest.named field.name && rest.names.all (fun n => !field.named n) && rest.distinct

/-- Every field is read back. -/
def LawfulAt {τ : Type} : Fields τ → τ → Prop
  | .nil, () => True
  | .cons field rest, (b, bs) => field.LawfulAt b ∧ rest.LawfulAt bs

@[simp] theorem lawfulAt_nil (u : Unit) : Fields.nil.LawfulAt u := trivial

@[simp] theorem lawfulAt_cons {field : Field β} {rest : Fields γ} {b : β} {bs : γ} :
    (Fields.cons field rest).LawfulAt (b, bs) ↔ field.LawfulAt b ∧ rest.LawfulAt bs := Iff.rfl

theorem named_of_mem_names {fields : Fields τ} {key : String} (h : key ∈ fields.names) :
    fields.named key = true := by
  induction fields with
  | nil => cases h
  | cons field rest ih =>
    simp only [named, Bool.or_eq_true]
    rcases List.mem_cons.1 h with rfl | h
    · exact .inl field.named_self
    · exact .inr (ih h)

theorem key_mem_of_mem_write {fields : Fields τ} {values : τ} {m : String × Json}
    (h : m ∈ fields.write values) : m.1 ∈ fields.names := by
  induction fields with
  | nil => cases h
  | cons field rest ih =>
    obtain ⟨b, bs⟩ := values
    simp only [write, List.mem_append, Option.mem_toList, Option.map_eq_some_iff] at h
    rcases h with ⟨v, -, rfl⟩ | h
    · exact List.mem_cons_self
    · exact List.mem_cons_of_mem _ (ih h)

/-- Fields are read back from what is written for them, behind members that name none of them. -/
theorem readMembers_write {repetition : Repetition} {fields : Fields τ} {values : τ}
    (hd : fields.distinct = true) (hl : fields.LawfulAt values) {others : List (String × Json)}
    (ho : ∀ m ∈ others, fields.named m.1 = false) :
    fields.readMembers repetition (others ++ fields.write values) = .ok values := by
  induction fields generalizing others with
  | nil => rfl
  | cons field rest ih =>
    obtain ⟨b, bs⟩ := values
    simp only [distinct, Bool.and_eq_true, Bool.not_eq_true', List.all_eq_true] at hd
    obtain ⟨⟨hname, hnames⟩, hrest⟩ := hd
    simp only [named, Bool.or_eq_false_iff] at ho
    have hvalues : field.values (others ++ (cons field rest).write (b, bs)) =
        (field.write b).toList := by
      rw [write, Field.values_append, Field.values_append,
        Field.values_eq_nil fun m hm => (ho m hm).1,
        Field.values_eq_nil fun m hm => hnames _ (key_mem_of_mem_write hm)]
      cases field.write b with
      | none => rfl
      | some v => simp [Field.values_cons, field.named_self]
    refine readMembers_cons.2 ⟨?_, ?_⟩
    · have hb := hl.1
      unfold Field.LawfulAt at hb
      cases hw : field.write b with
      | none =>
        rw [hw] at hvalues hb
        exact Field.readMembers_of_absent hvalues hb
      | some v =>
        rw [hw] at hvalues hb
        exact Field.readMembers_of_single hvalues hb
    · rw [write, ← List.append_assoc]
      refine ih hrest hl.2 fun m hm => ?_
      rcases List.mem_append.1 hm with hm | hm
      · exact (ho m hm).2
      · simp only [Option.mem_toList, Option.map_eq_some_iff] at hm
        obtain ⟨v, -, rfl⟩ := hm
        exact hname

/-- A record is read back behind members that are passed over. -/
theorem readObject_write {repetition : Repetition} {fields : Fields τ} {values : τ}
    (hd : fields.distinct = true) (hl : fields.LawfulAt values) {others : List (String × Json)}
    (ho : ∀ m ∈ others, fields.named m.1 = false ∧ m.2.ignoredFault = none) :
    fields.readObject repetition (others ++ fields.write values) = .ok values := by
  refine readObject_eq_ok.2 ⟨fun m hm => ?_, readMembers_write hd hl fun m hm => (ho m hm).1⟩
  rcases List.mem_append.1 hm with hm | hm
  · exact .inr (ho m hm).2
  · exact .inl (named_of_mem_names (key_mem_of_mem_write hm))

end Fields

namespace Codec

variable {fields : Fields τ} {make : τ → α} {parts : α → τ}

theorem strictRecord_lawfulAt {a : α} (hd : fields.distinct = true)
    (hl : fields.LawfulAt (parts a)) (ha : make (parts a) = a) :
    (strictRecord fields make parts).LawfulAt a := by
  have h : fields.readObject .refused ([] ++ fields.write (parts a)) = .ok (parts a) :=
    Fields.readObject_write hd hl (by simp)
  refine ⟨?_, nofun⟩
  simp only [RoundTrips, strictRecord]
  rw [← List.nil_append (fields.write (parts a)), h]
  exact congrArg Except.ok ha

theorem strictRecord_lawful (hd : fields.distinct = true) (hl : ∀ t, fields.LawfulAt t)
    (ha : ∀ a, make (parts a) = a) : (strictRecord fields make parts).Lawful :=
  fun a => strictRecord_lawfulAt hd (hl _) (ha a)

theorem lenientRecord_lawful (hd : fields.distinct = true) (hl : ∀ t, fields.LawfulAt t)
    (ha : ∀ a, make (parts a) = a) : (lenientRecord fields make parts).Lawful := by
  intro a
  have h : fields.readObject .lastCounts ([] ++ fields.write (parts a)) = .ok (parts a) :=
    Fields.readObject_write hd (hl _) (by simp)
  refine ⟨?_, nofun⟩
  simp only [RoundTrips, lenientRecord]
  rw [← List.nil_append (fields.write (parts a)), h]
  exact congrArg Except.ok (ha a)

/-- A header that names no field leaves a record readable. -/
theorem withHeader_lawfulAt {header : List (String × String)} {a : α}
    (hd : fields.distinct = true) (hh : header.all (fun h => !fields.named h.1) = true)
    (hl : fields.LawfulAt (parts a)) (ha : make (parts a) = a) :
    (withHeader header (strictRecord fields make parts)).LawfulAt a := by
  have hothers : ∀ m ∈ header.map (fun h => (h.1, Json.str h.2)),
      fields.named m.1 = false ∧ m.2.ignoredFault = none := by
    intro m hm
    obtain ⟨h, hmem, rfl⟩ := List.mem_map.1 hm
    exact ⟨by simpa using List.all_eq_true.1 hh h hmem, rfl⟩
  refine ⟨?_, nofun⟩
  simp only [RoundTrips, withHeader, strictRecord, Json.membersOrNone,
    Fields.readObject_write hd hl hothers]
  exact congrArg Except.ok ha

theorem withHeader_lawful {header : List (String × String)} (hd : fields.distinct = true)
    (hh : header.all (fun h => !fields.named h.1) = true) (hl : ∀ t, fields.LawfulAt t)
    (ha : ∀ a, make (parts a) = a) :
    (withHeader header (strictRecord fields make parts)).Lawful :=
  fun a => withHeader_lawfulAt hd hh (hl _) (ha a)

end Codec

end JobOperator
