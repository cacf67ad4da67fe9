import JobOperator.Json.Record
import JobOperator.Object.ConfigMap
import JobOperator.Object.Pod
import JobOperator.Proofs.Json.Printed

/-!
What codecs write can be printed without loss: its numbers are of 64 bits, and it has no gaps. A record
is plain when the values of its fields are.
-/

namespace JobOperator

variable {α β γ τ : Type}

namespace Codec

/-- Whatever is written is printed without loss. -/
def Plain (codec : Codec α) : Prop := ∀ a, (codec.encode a).Plain

@[simp] theorem string_plain : string.Plain := .str

@[simp] theorem bool_plain : bool.Plain := .bool

@[simp] theorem int32_plain : int32.Plain := by
  intro n
  have hmin : Int64.minValue.toInt ≤ Int32.minValue.toInt := by decide
  have hmax : Int32.maxValue.toInt < UInt64.size := by decide
  exact .int ⟨Int.le_trans hmin n.minValue_le_toInt, Int.lt_of_le_of_lt n.toInt_le hmax⟩

@[simp] theorem int64_plain : int64.Plain := by
  intro n
  have hmax : Int64.maxValue.toInt < UInt64.size := by decide
  exact .int ⟨n.minValue_le_toInt, Int.lt_of_le_of_lt n.toInt_le hmax⟩

@[simp] theorem bytes_plain : bytes.Plain := fun _ => .str _

@[simp] theorem list_plain {item : Codec α} (h : item.Plain) : (list item).Plain := by
  intro as
  refine .arr fun document hmem => ?_
  obtain ⟨a, -, rfl⟩ := List.mem_map.1 hmem
  exact h a

@[simp] theorem stringMap_plain {value : Codec α} (h : value.Plain) : (stringMap value).Plain := by
  intro m
  refine .obj fun member hmem => ?_
  obtain ⟨entry, -, rfl⟩ := List.mem_map.1 hmem
  exact h entry.2

end Codec

/-! ### Records -/

/-- Whatever the field writes is printed without loss. -/
def Field.Plain (field : Field β) : Prop := ∀ b v, field.write b = some v → v.Plain

namespace Field

variable {codec : Codec β} {name : String}

@[simp] theorem required_plain (h : codec.Plain) : (required name codec).Plain := by
  rintro b _ ⟨⟩
  exact h b

@[simp] theorem defaulted_plain {default : β} (h : codec.Plain) :
    (defaulted name default codec).Plain := by
  rintro b _ ⟨⟩
  exact h b

@[simp] theorem zeroed_plain {zero : β} (h : codec.Plain) : (zeroed name zero codec).Plain := by
  rintro b _ ⟨⟩
  exact h b

theorem plain_of_map_encode (h : codec.Plain) {o : Option β} {v : Json}
    (hv : o.map codec.encode = some v) : v.Plain := by
  obtain ⟨b, -, rfl⟩ := Option.map_eq_some_iff.1 hv
  exact h b

@[simp] theorem optional_plain {aliases : List String} (h : codec.Plain) :
    (optional name codec aliases).Plain := fun _ _ => plain_of_map_encode h

@[simp] theorem optionalInPlace_plain (h : codec.Plain) : (optionalInPlace name codec).Plain :=
  fun _ _ => plain_of_map_encode h

end Field

namespace Fields

/-- Whatever the fields write is printed without loss. -/
def Plain {τ : Type} : Fields τ → Prop
  | .nil => True
  | .cons field rest => field.Plain ∧ rest.Plain

@[simp] theorem plain_nil : Fields.nil.Plain := trivial

@[simp] theorem plain_cons {field : Field β} {rest : Fields γ} :
    (Fields.cons field rest).Plain ↔ field.Plain ∧ rest.Plain := Iff.rfl

theorem plain_of_mem_write {fields : Fields τ} (h : fields.Plain) {values : τ}
    {m : String × Json} (hm : m ∈ fields.write values) : m.2.Plain := by
  induction fields with
  | nil => cases hm
  | cons field rest ih =>
    obtain ⟨b, bs⟩ := values
    simp only [write, List.mem_append, Option.mem_toList, Option.map_eq_some_iff] at hm
    rcases hm with ⟨v, hv, rfl⟩ | hm
    · exact h.1 b v hv
    · exact ih h.2 hm

end Fields

namespace Codec

variable {fields : Fields τ} {make : τ → α} {parts : α → τ}

theorem strictRecord_plain (h : fields.Plain) : (strictRecord fields make parts).Plain :=
  fun _ => .obj fun _ => Fields.plain_of_mem_write h

theorem lenientRecord_plain (h : fields.Plain) : (lenientRecord fields make parts).Plain :=
  fun _ => .obj fun _ => Fields.plain_of_mem_write h

theorem withHeader_plain {header : List (String × String)} (h : fields.Plain) :
    (withHeader header (strictRecord fields make parts)).Plain := by
  intro a
  refine .obj fun m hm => ?_
  rcases List.mem_append.1 hm with hm | hm
  · obtain ⟨line, -, rfl⟩ := List.mem_map.1 hm
    exact .str line.2
  · exact Fields.plain_of_mem_write h hm

end Codec

/-! ### Pod templates -/

@[simp] theorem OwnerReference.codec_plain : OwnerReference.codec.Plain :=
  Codec.lenientRecord_plain (by simp [fields])

@[simp] theorem ObjectMeta.codec_plain : ObjectMeta.codec.Plain :=
  Codec.lenientRecord_plain (by simp [fields])

@[simp] theorem Quantity.codec_plain : Quantity.codec.Plain := fun _ => .str _

@[simp] theorem EnvVar.codec_plain : EnvVar.codec.Plain :=
  Codec.lenientRecord_plain (by simp [fields])

@[simp] theorem ContainerPort.codec_plain : ContainerPort.codec.Plain :=
  Codec.lenientRecord_plain (by simp [fields])

@[simp] theorem ResourceRequirements.codec_plain : ResourceRequirements.codec.Plain :=
  Codec.lenientRecord_plain (by simp [fields])

@[simp] theorem VolumeMount.codec_plain : VolumeMount.codec.Plain :=
  Codec.lenientRecord_plain (by simp [fields])

@[simp] theorem Container.codec_plain : Container.codec.Plain :=
  Codec.lenientRecord_plain (by simp [fields])

@[simp] theorem EmptyDirSource.codec_plain : EmptyDirSource.codec.Plain :=
  Codec.lenientRecord_plain (by simp [fields])

@[simp] theorem HostPathSource.codec_plain : HostPathSource.codec.Plain :=
  Codec.lenientRecord_plain (by simp [fields])

@[simp] theorem ConfigMapSource.codec_plain : ConfigMapSource.codec.Plain :=
  Codec.lenientRecord_plain (by simp [fields])

@[simp] theorem SecretSource.codec_plain : SecretSource.codec.Plain :=
  Codec.lenientRecord_plain (by simp [fields])

@[simp] theorem Volume.codec_plain : Volume.codec.Plain :=
  Codec.lenientRecord_plain (by simp [fields])

@[simp] theorem Toleration.codec_plain : Toleration.codec.Plain :=
  Codec.lenientRecord_plain (by simp [fields])

@[simp] theorem LocalReference.codec_plain : LocalReference.codec.Plain :=
  Codec.lenientRecord_plain (by simp [fields])

@[simp] theorem PodSpec.codec_plain : PodSpec.codec.Plain :=
  Codec.lenientRecord_plain (by simp [fields])

@[simp] theorem PodTemplate.codec_plain : PodTemplate.codec.Plain :=
  Codec.lenientRecord_plain (by simp [fields])

end JobOperator
