import JobOperator.Api.Cluster
import JobOperator.Proofs.Codec.Patch

/-!
The metadata of an object as it is found in what is written for the object: its name, under which a
cluster keeps it, and its labels, by which it is listed. A pod that is read has the labels by which
it is listed, however it is written.
-/

namespace JobOperator

open Json

variable {α β γ : Type}

@[simp] theorem Fields.write_nil (u : Unit) : Fields.nil.write u = [] := rfl

theorem Json.lastMember?_write (k : String) (field : Field β) (rest : Fields γ) (b : β) (bs : γ) :
    lastMember? k ((Fields.cons field rest).write (b, bs)) =
      (lastMember? k (rest.write bs)).or (if field.name = k then field.write b else none) := by
  rw [Fields.write, lastMember?_append]
  cases field.write b with
  | none => simp
  | some v => simp [lastMember?_cons]

theorem Codec.get?_encode_stringMap (value : Codec α) (m : StringMap α) (k : String) :
    ((stringMap value).encode m).get? k = (m.get? k).map value.encode := by
  change lastMember? k (m.toList.map fun e => (e.1, value.encode e.2)) = _
  cases hk : m.get? k with
  | none =>
    rw [Option.map_none, lastMember?_eq_none_iff]
    rintro p hp rfl
    obtain ⟨e, he, rfl⟩ := List.mem_map.1 hp
    rw [SortedMap.get?_eq_some_iff.2 he] at hk
    cases hk
  | some a =>
    have hmem : (k, value.encode a) ∈ m.toList.map fun e => (e.1, value.encode e.2) :=
      List.mem_map.2 ⟨(k, a), SortedMap.get?_eq_some_iff.1 hk, rfl⟩
    obtain ⟨v, hv⟩ := Option.isSome_iff_exists.1 (lastMember?_isSome_iff.2 ⟨_, hmem, rfl⟩)
    obtain ⟨e, he, heq⟩ := List.mem_map.1 (mem_of_lastMember? hv)
    obtain ⟨rfl, rfl⟩ := Prod.mk.inj heq
    rw [SortedMap.get?_eq_some_iff.2 he] at hk
    cases hk
    exact hv

namespace ObjectMeta

theorem get?_encode_name (m : ObjectMeta) : (codec.encode m).get? "name" = m.name.map .str := by
  simp [codec, Codec.lenientRecord, fields, get?, lastMember?_write, Field.optional, Codec.string]

theorem get?_encode_generateName (m : ObjectMeta) :
    (codec.encode m).get? "generateName" = m.generateName.map .str := by
  simp [codec, Codec.lenientRecord, fields, get?, lastMember?_write, Field.optional, Codec.string]

theorem get?_encode_labels (m : ObjectMeta) :
    (codec.encode m).get? "labels" = m.labels.map (Codec.stringMap .string).encode := by
  simp [codec, Codec.lenientRecord, fields, get?, lastMember?_write, Field.optional]

end ObjectMeta

namespace Kind

theorem get?_encode_metadata (kind : Kind) (object : kind.Object) :
    (kind.codec.encode object).get? "metadata" =
      some (ObjectMeta.codec.encode (kind.metadata object)) := by
  cases kind with
  | job =>
    simp [codec, metadata, Job.codec, Codec.withHeader, Codec.strictRecord, Job.fields, get?,
      membersOrNone, lastMember?_write, Field.optionalInPlace, Field.required, lastMember?_cons]
  | pod =>
    simp [codec, metadata, Pod.codec, Codec.lenientRecord, Pod.fields, get?, lastMember?_write,
      Field.optional, Field.zeroed, Field.constant]
  | configMap =>
    simp [codec, metadata, ConfigMap.codec, Codec.lenientRecord, ConfigMap.fields, get?,
      lastMember?_write, Field.optional, Field.zeroed, Field.constant]
  | service =>
    simp [codec, metadata, Service.codec, Codec.lenientRecord, Service.fields, get?,
      lastMember?_write, Field.optional, Field.zeroed, Field.constant]
  | podGroup =>
    simp [codec, metadata, PodGroup.codec, Codec.withHeader, Codec.strictRecord, PodGroup.fields,
      get?, membersOrNone, lastMember?_write, Field.required, lastMember?_cons]

/-- An object is posted under its own name. -/
theorem postedName_encode (kind : Kind) (object : kind.Object) :
    Request.postedName (kind.codec.encode object) = (kind.metadata object).nameAny := by
  have htext (o : Option String) : (o.map Json.str).bind Json.text? = o := by cases o <;> rfl
  simp only [Request.postedName, get?_encode_metadata, Option.getD_some,
    ObjectMeta.get?_encode_name, ObjectMeta.get?_encode_generateName, htext, ObjectMeta.nameAny]

/-- An object is listed by its own labels. -/
theorem label?_encode (kind : Kind) (object : kind.Object) (label : String) :
    Cluster.label? (kind.codec.encode object) label =
      ((kind.metadata object).label? label).map .str := by
  simp only [Cluster.label?, get?_encode_metadata, Option.bind_eq_bind, Option.bind_some,
    ObjectMeta.get?_encode_labels, ObjectMeta.label?]
  cases (kind.metadata object).labels with
  | none => rfl
  | some labels => exact Codec.get?_encode_stringMap .string labels label

end Kind

/-! ### What is read -/

theorem Json.get?_getD_null (value : Option Json) (key : String) :
    (value.getD .null).get? key = value.bind fun json => json.get? key := by
  cases value <;> rfl

theorem Codec.eq_str_of_decode {value : Json} {text : String} (h : string.decode value = .ok text) :
    value = .str text := by
  cases value with
  | str s =>
    cases h
    rfl
  | _ => cases h

/-- A map of texts is read as the members that the keys have. -/
theorem Codec.get?_of_decode_strings {json : Json} {m : StringMap String}
    (h : (stringMap .string).decode json = .ok m) (k : String) :
    json.get? k = (m.get? k).map .str := by
  cases json with
  | obj members =>
    obtain ⟨hall, hget⟩ := of_decode_stringMap h
    rw [hget, Json.get?]
    cases hk : lastMember? k members with
    | none => rfl
    | some v =>
      obtain ⟨text, htext⟩ := hall _ (mem_of_lastMember? hk)
      rw [Option.bind_some, htext]
      exact congrArg some (eq_str_of_decode htext)
  | _ => cases h

theorem ObjectMeta.get?_labels_of_decode {doc : Json} {m : ObjectMeta}
    (h : codec.decode doc = .ok m) (label : String) :
    ((doc.get? "labels").bind fun labels => labels.get? label) = (m.label? label).map .str := by
  cases doc with
  | obj members =>
    obtain ⟨⟨name, generateName, ns, uid, version, generation, labels, rest⟩, hread, rfl⟩ :=
      map_eq_ok.1 h
    obtain ⟨-, -, -, -, -, -, -, hlabels, -⟩ : _ ∧ _ ∧ _ ∧ _ ∧ _ ∧ _ ∧ _ ∧ _ ∧ _ := by
      simpa only [fields, Fields.readObject_eq_ok, Fields.readMembers_cons] using hread
    have hlabels := Field.read_of_readMembers_lastCounts rfl (fun _ h => by cases h; rfl) hlabels
    rw [← get?_getD_null]
    change Field.readOption _ (((Json.obj members).get? "labels").getD .null) = _ at hlabels
    cases labels with
    | none => rw [Field.eq_null_of_readOption hlabels]; rfl
    | some labels => exact Codec.get?_of_decode_strings (Field.decode_of_readOption hlabels) label
  | _ => cases h

/-- A pod is listed by the labels that are read from what is kept. -/
theorem Pod.label?_of_decode {doc : Json} {pod : Pod} (h : codec.decode doc = .ok pod)
    (label : String) : Cluster.label? doc label = (pod.metadata.label? label).map .str := by
  cases doc with
  | obj members =>
    obtain ⟨⟨_, _, metadata, rest⟩, hread, rfl⟩ := map_eq_ok.1 h
    obtain ⟨-, -, -, hmetadata, -⟩ : _ ∧ _ ∧ _ ∧ _ ∧ _ := by
      simpa only [fields, Fields.readObject_eq_ok, Fields.readMembers_cons] using hread
    have hmetadata :=
      Field.read_of_readMembers_lastCounts rfl (fun _ h => by cases h; rfl) hmetadata
    obtain ⟨found, hfound, rfl⟩ := map_eq_ok.1 hmetadata
    change Field.readOption _ (((Json.obj members).get? "metadata").getD .null) = _ at hfound
    have hlabel : Cluster.label? (.obj members) label =
        ((((Json.obj members).get? "metadata").getD .null).get? "labels").bind
          fun labels => labels.get? label := by
      rw [get?_getD_null, Option.bind_assoc]
      rfl
    rw [hlabel]
    cases found with
    | none => rw [Field.eq_null_of_readOption hfound]; rfl
    | some metadata =>
      exact ObjectMeta.get?_labels_of_decode (Field.decode_of_readOption hfound) label
  | _ => cases h

end JobOperator
