import JobOperator.Proofs.Codec.Lawful
import JobOperator.Proofs.Json.MergePatch

/-!
Records after a merge patch that removes nothing. A field that the patch sets is read from the
patched value; any other field is read as before.
-/

namespace JobOperator

variable {β γ τ α : Type} {members patch : List (String × Json)}

namespace Json

/-- A patch that gives each key one value, and none `null`. -/
structure Sets (patch : List (String × Json)) : Prop where
  nodup : (patch.map (·.1)).Nodup
  ne_null : ∀ m ∈ patch, m.2 ≠ .null

theorem Sets.tail {m : String × Json} (h : Sets (m :: patch)) : Sets patch :=
  ⟨(List.nodup_cons.1 h.nodup).2, fun n hn => h.ne_null n (List.mem_cons_of_mem _ hn)⟩

theorem Sets.key_ne {m : String × Json} (h : Sets (m :: patch)) : ∀ n ∈ patch, n.1 ≠ m.1 :=
  fun n hn heq => (List.nodup_cons.1 h.nodup).1 (List.mem_map.2 ⟨n, hn, heq⟩)

theorem Sets.head_ne_null {m : String × Json} (h : Sets (m :: patch)) : m.2 ≠ .null :=
  h.ne_null m List.mem_cons_self

/-- The value that a key has before a patch. -/
def base (key : String) (members : List (String × Json)) : Json :=
  (lastMember? key members).getD .null

theorem base_setMember_ne {j k : String} (h : j ≠ k) (v : Json) (members : List (String × Json)) :
    base j (setMember k v members) = base j members := by
  rw [base, lastMember?_setMember_ne h, base]

theorem mem_mergeMembers (hp : Sets patch) {m : String × Json}
    (h : m ∈ mergeMembers members patch) :
    m ∈ members ∨ ∃ p ∈ patch, m = (p.1, (base p.1 members).mergePatch p.2) := by
  induction patch generalizing members with
  | nil =>
    rw [mergeMembers_nil] at h
    exact .inl h
  | cons p rest ih =>
    obtain ⟨k, v⟩ := p
    rw [mergeMembers_cons hp.head_ne_null] at h
    rcases ih hp.tail h with h | ⟨q, hq, rfl⟩
    · rcases mem_setMember h with rfl | h
      · exact .inr ⟨(k, v), List.mem_cons_self, rfl⟩
      · exact .inl h
    · refine .inr ⟨q, List.mem_cons_of_mem _ hq, ?_⟩
      rw [base_setMember_ne (hp.key_ne q hq)]

theorem lastMember?_mergeMembers_of_ne (hp : Sets patch) {k : String} (h : ∀ p ∈ patch, p.1 ≠ k) :
    lastMember? k (mergeMembers members patch) = lastMember? k members := by
  induction patch generalizing members with
  | nil => rw [mergeMembers_nil]
  | cons p rest ih =>
    obtain ⟨j, v⟩ := p
    have hne : k ≠ j := Ne.symm (h (j, v) List.mem_cons_self)
    rw [mergeMembers_cons hp.head_ne_null,
      ih hp.tail fun p hp => h p (List.mem_cons_of_mem _ hp), lastMember?_setMember_ne hne]

/-- A patch leaves the members that it does not name. -/
theorem get?_mergePatch_of_ne (hp : Sets patch) {k : String} (h : ∀ p ∈ patch, p.1 ≠ k)
    (doc : Json) : (doc.mergePatch (.obj patch)).get? k = doc.get? k := by
  rw [mergePatch_obj]
  cases doc <;> exact lastMember?_mergeMembers_of_ne hp h

/-- A key that a patch sets has the patched value, unless the key is repeated. -/
theorem lastMember?_mergeMembers_of_mem (hp : Sets patch) {k : String} {v : Json}
    (hv : (k, v) ∈ patch) :
    lastMember? k (mergeMembers members patch) = some ((base k members).mergePatch v) ∨
      ∃ w, lastMember? k members = some w ∧ lastMember? k (mergeMembers members patch) = some w := by
  induction patch generalizing members with
  | nil => cases hv
  | cons m rest ih =>
    obtain ⟨j, w⟩ := m
    rw [mergeMembers_cons hp.head_ne_null]
    rcases List.mem_cons.1 hv with heq | hv
    · cases heq
      rw [lastMember?_mergeMembers_ne hp.tail.ne_null hp.key_ne]
      exact lastMember?_setMember_cases k _ members
    · have hk : k ≠ j := hp.key_ne _ hv
      have h := @ih (setMember j (((lastMember? j members).getD .null).mergePatch w) members)
        hp.tail hv
      rwa [base_setMember_ne hk, lastMember?_setMember_ne hk] at h

end Json

open Json

namespace Field

variable {field : Field β}

theorem values_eraseMember_of_not_named {key : String} (h : field.named key = false) :
    field.values (eraseMember key members) = field.values members := by
  simp only [values, eraseMember, List.filter_filter]
  congr 1
  refine List.filter_congr fun m _ => ?_
  by_cases hm : m.1 = key
  · simp [hm, h]
  · simp [hm]

/-- A patch leaves the fields that it does not name. -/
theorem values_mergeMembers_of_not_named (h : ∀ m ∈ patch, field.named m.1 = false) :
    field.values (mergeMembers members patch) = field.values members := by
  induction patch generalizing members with
  | nil => rw [mergeMembers_nil]
  | cons m rest ih =>
    obtain ⟨key, value⟩ := m
    have hkey : field.named key = false := h _ List.mem_cons_self
    have hrest : ∀ m ∈ rest, field.named m.1 = false := fun m hm => h m (List.mem_cons_of_mem _ hm)
    by_cases hnull : value = .null
    · rw [hnull, mergeMembers, ih hrest, values_eraseMember_of_not_named hkey]
    · rw [mergeMembers_cons hnull, ih hrest, values_setMember_of_not_named hkey]

/-- A field whose keys are not in a patch is read as before. -/
theorem readMembers_mergeMembers_of_not_named (hnot : ∀ m ∈ patch, field.named m.1 = false) {b : β}
    (h : field.readMembers .refused 0 none members = .ok b) :
    field.readMembers .refused 0 none (mergeMembers members patch) = .ok b := by
  rw [readMembers_refused_iff, values_mergeMembers_of_not_named hnot, ← readMembers_refused_iff]
  exact h

theorem named_eq_false (halias : field.aliases = []) {key : String} (h : key ≠ field.name) :
    field.named key = false := by
  simp [named, halias, h]

theorem base_of_values_nil (h : field.values members = []) : base field.name members = .null := by
  rw [base, lastMember?_of_values_nil h]
  rfl

theorem base_of_values (halias : field.aliases = []) {v : Json} (h : field.values members = [v]) :
    base field.name members = v := by
  rw [base, lastMember?_of_values halias h]
  rfl

/-- A field that a patch sets has one value, the patched one. -/
theorem values_mergeMembers_of_mem (halias : field.aliases = []) (hp : Sets patch) {v : Json}
    (hv : (field.name, v) ∈ patch) (hlen : (field.values members).length ≤ 1) :
    field.values (mergeMembers members patch) = [(base field.name members).mergePatch v] := by
  induction patch generalizing members with
  | nil => cases hv
  | cons m rest ih =>
    obtain ⟨k, w⟩ := m
    rw [mergeMembers_cons hp.head_ne_null]
    rcases List.mem_cons.1 hv with heq | hv
    · cases heq
      rw [values_mergeMembers_of_not_named fun m hm => named_eq_false halias (hp.key_ne m hm)]
      exact values_setMember_self halias hlen
    · have hk : field.name ≠ k := fun h => hp.key_ne _ hv h
      have hnamed : field.named k = false := named_eq_false halias (Ne.symm hk)
      rw [ih hp.tail hv (by rwa [values_setMember_of_not_named hnamed]), base,
        lastMember?_setMember_ne hk]
      rfl

end Field

namespace Fields

/-- Whether no field has more than one member. -/
def Single {τ : Type} : Fields τ → List (String × Json) → Prop
  | .nil, _ => True
  | .cons field rest, members => (field.values members).length ≤ 1 ∧ rest.Single members

theorem single_of_readMembers {fields : Fields τ} {values : τ}
    (h : fields.readMembers .refused members = .ok values) : fields.Single members := by
  induction fields with
  | nil => trivial
  | cons field rest ih =>
    obtain ⟨b, bs⟩ := values
    obtain ⟨hb, hbs⟩ := readMembers_cons.1 h
    exact ⟨Field.values_length_le hb, ih hbs⟩

theorem single_nil (fields : Fields τ) : fields.Single [] := by
  induction fields with
  | nil => trivial
  | cons field rest ih => exact ⟨Nat.zero_le _, ih⟩

/-- Members that a record can be read from once each of its fields can: no field is repeated, and
the other members can be passed over. -/
structure Tidy (fields : Fields τ) (members : List (String × Json)) : Prop where
  others : ∀ m ∈ members, fields.named m.1 = true ∨ m.2.ignoredFault = none
  single : fields.Single members

theorem tidy_nil (fields : Fields τ) : fields.Tidy [] :=
  ⟨fun _ hm => absurd hm List.not_mem_nil, fields.single_nil⟩

theorem tidy_of_readObject {fields : Fields τ} {values : τ}
    (h : fields.readObject .refused members = .ok values) : fields.Tidy members := by
  obtain ⟨hothers, hread⟩ := readObject_eq_ok.1 h
  exact ⟨hothers, single_of_readMembers hread⟩

/-- After a patch, a record is read from its fields alone, if the other members that the patch sets
can be passed over. -/
theorem readObject_mergeMembers {fields : Fields τ} {values : τ} (hp : Sets patch)
    (ht : fields.Tidy members)
    (hothers : ∀ p ∈ patch, fields.named p.1 = true ∨
      ((base p.1 members).mergePatch p.2).ignoredFault = none)
    (hread : fields.readMembers .refused (mergeMembers members patch) = .ok values) :
    fields.readObject .refused (mergeMembers members patch) = .ok values := by
  refine readObject_eq_ok.2 ⟨fun m hm => ?_, hread⟩
  rcases mem_mergeMembers hp hm with hm | ⟨p, hpmem, rfl⟩
  · exact ht.others m hm
  · exact hothers p hpmem

end Fields

/-- The members of a document that a strict record was read from. A document that is no object
counts as one without members. -/
theorem Codec.tidy_of_strictRecord {fields : Fields τ} {make : τ → α} {parts : α → τ} {doc : Json}
    {a : α} (h : (strictRecord fields make parts).decode doc = .ok a) :
    fields.Tidy doc.membersOrNone := by
  cases doc with
  | obj members =>
    obtain ⟨values, hread, -⟩ := strictRecord_decode_obj.1 h
    exact Fields.tidy_of_readObject hread
  | _ => exact fields.tidy_nil

namespace Codec

variable {value : Codec α}

/-! ### Maps -/

theorem of_decodeEntries {decode : Json → Except DecodeError α} {entries : List (String × α)}
    (h : decodeEntries decode members = .ok entries) :
    ∀ m ∈ members, ∃ a, decode m.2 = .ok a := by
  induction members generalizing entries with
  | nil => exact fun _ hm => absurd hm List.not_mem_nil
  | cons m rest ih =>
    obtain ⟨k, v⟩ := m
    simp only [decodeEntries, bind, Except.bind] at h
    intro m hm
    cases hv : decode v with
    | error e =>
      rw [hv] at h
      cases h
    | ok a =>
      rw [hv] at h
      cases hrest : decodeEntries decode rest with
      | error e =>
        rw [hrest] at h
        cases h
      | ok as =>
        rcases List.mem_cons.1 hm with rfl | hm
        · exact ⟨a, hv⟩
        · exact ih hrest m hm

/-- Entries are read when each value is, and then the value of a key is that of its last member. -/
theorem decodeEntries_of_forall {decode : Json → Except DecodeError α}
    (h : ∀ m ∈ members, ∃ a, decode m.2 = .ok a) :
    ∃ entries, decodeEntries decode members = .ok entries ∧
      ∀ k, SortedMap.lastValue? k entries =
        (lastMember? k members).bind fun v => (decode v).toOption := by
  induction members with
  | nil => exact ⟨[], rfl, fun _ => rfl⟩
  | cons m rest ih =>
    obtain ⟨k, v⟩ := m
    obtain ⟨entries, hentries, hlast⟩ := ih fun m hm => h m (List.mem_cons_of_mem _ hm)
    obtain ⟨a, ha⟩ := h (k, v) List.mem_cons_self
    refine ⟨(k, a) :: entries, by simp only [decodeEntries, ha, hentries]; rfl, fun j => ?_⟩
    rw [SortedMap.lastValue?_cons, lastMember?_cons, hlast]
    cases hj : lastMember? j rest with
    | none =>
      by_cases hk : k = j
      · simp [hk, ha, Except.toOption]
      · simp [hk]
    | some w =>
      obtain ⟨b, hb⟩ := h (j, w) (List.mem_cons_of_mem _ (mem_of_lastMember? hj))
      simp [hb, Except.toOption]

theorem of_decode_stringMap {m : StringMap α} (h : (stringMap value).decode (.obj members) = .ok m) :
    (∀ e ∈ members, ∃ a, value.decode e.2 = .ok a) ∧
      ∀ k, m.get? k = (lastMember? k members).bind fun v => (value.decode v).toOption := by
  obtain ⟨entries, hentries, rfl⟩ := map_eq_ok.1 h
  have hall := of_decodeEntries hentries
  obtain ⟨entries', hentries', hlast⟩ := decodeEntries_of_forall hall
  obtain rfl : entries' = entries := Except.ok.inj (hentries'.symm.trans hentries)
  exact ⟨hall, fun k => by rw [SortedMap.get?_ofList, hlast]⟩

theorem decode_stringMap (h : ∀ e ∈ members, ∃ a, value.decode e.2 = .ok a) :
    ∃ m, (stringMap value).decode (.obj members) = .ok m ∧
      ∀ k, m.get? k = (lastMember? k members).bind fun v => (value.decode v).toOption := by
  obtain ⟨entries, hentries, hlast⟩ := decodeEntries_of_forall h
  refine ⟨SortedMap.ofList entries, ?_, fun k => by rw [SortedMap.get?_ofList, hlast]⟩
  simp only [stringMap, hentries]
  rfl

/-- Writing a value over one that could be read, or over nothing, gives the new one. -/
def Merges (value : Codec α) : Prop :=
  ∀ target b, target = .null ∨ (∃ a, value.decode target = .ok a) →
    value.decode (target.mergePatch (value.encode b)) = .ok b

/-- The members that a map is written as. -/
def entriesOf (value : Codec α) (m : StringMap α) : List (String × Json) :=
  m.toList.map fun e => (e.1, value.encode e.2)

theorem sets_entriesOf (hnull : ∀ a, value.encode a ≠ .null) (m : StringMap α) :
    Sets (entriesOf value m) := by
  refine ⟨?_, fun p hp => ?_⟩
  · rw [entriesOf, List.map_map]
    exact m.nodup_keys
  · obtain ⟨e, -, rfl⟩ := List.mem_map.1 hp
    exact hnull e.2

theorem mem_entriesOf {m : StringMap α} {k : String} {v : Json} :
    (k, v) ∈ entriesOf value m ↔ ∃ a, m.get? k = some a ∧ v = value.encode a := by
  rw [entriesOf, List.mem_map]
  constructor
  · rintro ⟨e, he, heq⟩
    obtain ⟨rfl, rfl⟩ := Prod.mk.inj heq
    exact ⟨e.2, SortedMap.get?_eq_some_iff.2 he, rfl⟩
  · rintro ⟨a, ha, rfl⟩
    exact ⟨(k, a), SortedMap.get?_eq_some_iff.1 ha, rfl⟩

section

variable {members : List (String × Json)} (hreads : ∀ e ∈ members, ∃ a, value.decode e.2 = .ok a)

include hreads

theorem base_null_or_decodes (k : String) :
    base k members = .null ∨ ∃ a, value.decode (base k members) = .ok a := by
  cases hk : lastMember? k members with
  | none =>
    refine .inl ?_
    rw [base, hk]
    rfl
  | some v =>
    refine .inr ?_
    rw [base, hk]
    exact hreads _ (mem_of_lastMember? hk)

theorem decodes_of_mem_mergeMembers (hv : value.Merges) (hnull : ∀ a, value.encode a ≠ .null)
    (new : StringMap α) : ∀ e ∈ mergeMembers members (entriesOf value new),
      ∃ a, value.decode e.2 = .ok a := by
  rintro e he
  rcases mem_mergeMembers (sets_entriesOf hnull new) he with he | ⟨⟨k, v⟩, hp, rfl⟩
  · exact hreads e he
  · obtain ⟨a, -, rfl⟩ := mem_entriesOf.1 hp
    exact ⟨a, hv _ _ (base_null_or_decodes hreads k)⟩

end

/-- Writing a map over another replaces the values of its keys; other keys, and keys that are
repeated, keep their values. -/
theorem decode_stringMap_mergePatch (hv : value.Merges) (hnull : ∀ a, value.encode a ≠ .null)
    {doc : Json} (hdoc : ∀ e ∈ doc.membersOrNone, ∃ a, value.decode e.2 = .ok a)
    (new : StringMap α) :
    ∃ m, (stringMap value).decode (doc.mergePatch ((stringMap value).encode new)) = .ok m ∧
      ∀ k, m.get? k = new.get? k ∨ ∃ v a, lastMember? k doc.membersOrNone = some v ∧
        value.decode v = .ok a ∧ m.get? k = some a := by
  have hsets := sets_entriesOf hnull new
  obtain ⟨m, hm, hget⟩ := decode_stringMap (decodes_of_mem_mergeMembers hdoc hv hnull new)
  -- a key that the map keeps from the other has the value that it was read as there
  have hkept {k : String} {w : Json} (hw : lastMember? k doc.membersOrNone = some w)
      (h : lastMember? k (mergeMembers doc.membersOrNone (entriesOf value new)) = some w) :
      ∃ v a, lastMember? k doc.membersOrNone = some v ∧ value.decode v = .ok a ∧
        m.get? k = some a := by
    obtain ⟨a, ha⟩ := hdoc _ (mem_of_lastMember? hw)
    refine ⟨w, a, hw, ha, ?_⟩
    rw [hget, h, Option.bind_some, ha]
    rfl
  refine ⟨m, by rw [← hm, ← mergePatch_obj]; rfl, fun k => ?_⟩
  cases hk : new.get? k with
  | none =>
    have hother : ∀ p ∈ entriesOf value new, p.1 ≠ k := by
      rintro ⟨k', v⟩ hp rfl
      obtain ⟨a, ha, -⟩ := mem_entriesOf.1 hp
      rw [hk] at ha
      cases ha
    have hlast := lastMember?_mergeMembers_ne hsets.ne_null hother doc.membersOrNone
    cases hdock : lastMember? k doc.membersOrNone with
    | none =>
      refine .inl ?_
      rw [hget, hlast, hdock]
      rfl
    | some w => exact .inr (hdock ▸ hkept hdock (hlast.trans hdock))
  | some b =>
    have hmem : (k, value.encode b) ∈ entriesOf value new := mem_entriesOf.2 ⟨b, hk, rfl⟩
    rcases lastMember?_mergeMembers_of_mem hsets hmem with h | ⟨w, hw, h⟩
    · refine .inl ?_
      rw [hget, h, Option.bind_some, hv _ _ (base_null_or_decodes hdoc k)]
      rfl
    · exact .inr (hkept hw h)

end Codec

end JobOperator
