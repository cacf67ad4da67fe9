import JobOperator.Proofs.Codec.Lawful
import JobOperator.Proofs.Text.Base64
import JobOperator.Store.Kind

/-!
The objects that a job owns are read back from what is written for them, whatever they hold: each
type follows from the types of its fields.
-/

namespace JobOperator

/-! ### Bytes and quantities -/

@[simp] theorem Codec.bytes_lawful : Codec.bytes.Lawful := by
  refine fun content => ⟨?_, nofun⟩
  simp only [RoundTrips, bytes, String.toList_ofList, Base64.decode_encode]

@[simp] theorem Quantity.codec_lawful : Quantity.codec.Lawful := fun _ => ⟨rfl, nofun⟩

/-! ### Metadata -/

@[simp] theorem OwnerReference.codec_lawful : OwnerReference.codec.Lawful :=
  Codec.lenientRecord_lawful (by decide) (by simp [fields]) fun _ => rfl

@[simp] theorem ObjectMeta.codec_lawful : ObjectMeta.codec.Lawful :=
  Codec.lenientRecord_lawful (by decide) (by simp [fields]) fun _ => rfl

/-! ### Pods -/

@[simp] theorem EnvVar.codec_lawful : EnvVar.codec.Lawful :=
  Codec.lenientRecord_lawful (by decide) (by simp [fields]) fun _ => rfl

@[simp] theorem ContainerPort.codec_lawful : ContainerPort.codec.Lawful :=
  Codec.lenientRecord_lawful (by decide) (by simp [fields]) fun _ => rfl

@[simp] theorem ResourceRequirements.codec_lawful : ResourceRequirements.codec.Lawful :=
  Codec.lenientRecord_lawful (by decide) (by simp [fields]) fun _ => rfl

@[simp] theorem VolumeMount.codec_lawful : VolumeMount.codec.Lawful :=
  Codec.lenientRecord_lawful (by decide) (by simp [fields]) fun _ => rfl

@[simp] theorem Container.codec_lawful : Container.codec.Lawful :=
  Codec.lenientRecord_lawful (by decide) (by simp [fields]) fun _ => rfl

@[simp] theorem EmptyDirSource.codec_lawful : EmptyDirSource.codec.Lawful :=
  Codec.lenientRecord_lawful (by decide) (by simp [fields]) fun _ => rfl

@[simp] theorem HostPathSource.codec_lawful : HostPathSource.codec.Lawful :=
  Codec.lenientRecord_lawful (by decide) (by simp [fields]) fun _ => rfl

@[simp] theorem ConfigMapSource.codec_lawful : ConfigMapSource.codec.Lawful :=
  Codec.lenientRecord_lawful (by decide) (by simp [fields]) fun _ => rfl

@[simp] theorem SecretSource.codec_lawful : SecretSource.codec.Lawful :=
  Codec.lenientRecord_lawful (by decide) (by simp [fields]) fun _ => rfl

@[simp] theorem Volume.codec_lawful : Volume.codec.Lawful :=
  Codec.lenientRecord_lawful (by decide) (by simp [fields]) fun _ => rfl

@[simp] theorem Toleration.codec_lawful : Toleration.codec.Lawful :=
  Codec.lenientRecord_lawful (by decide) (by simp [fields]) fun _ => rfl

@[simp] theorem LocalReference.codec_lawful : LocalReference.codec.Lawful :=
  Codec.lenientRecord_lawful (by decide) (by simp [fields]) fun _ => rfl

@[simp] theorem PodSpec.codec_lawful : PodSpec.codec.Lawful :=
  Codec.lenientRecord_lawful (by decide) (by simp [fields]) fun _ => rfl

@[simp] theorem PodTemplate.codec_lawful : PodTemplate.codec.Lawful :=
  Codec.lenientRecord_lawful (by decide) (by simp [fields]) fun _ => rfl

@[simp] theorem ContainerState.runningCodec_lawful : ContainerState.runningCodec.Lawful :=
  Codec.lenientRecord_lawful (by decide) (by simp) fun _ => rfl

@[simp] theorem ContainerState.waitingCodec_lawful : ContainerState.waitingCodec.Lawful :=
  Codec.lenientRecord_lawful (by decide) (by simp) fun _ => rfl

@[simp] theorem ContainerState.terminatedCodec_lawful : ContainerState.terminatedCodec.Lawful :=
  Codec.lenientRecord_lawful (by decide) (by simp) fun _ => rfl

@[simp] theorem ContainerState.codec_lawful : ContainerState.codec.Lawful :=
  Codec.lenientRecord_lawful (by decide) (by simp [fields]) fun _ => rfl

@[simp] theorem ContainerStatus.codec_lawful : ContainerStatus.codec.Lawful :=
  Codec.lenientRecord_lawful (by decide) (by simp [fields]) fun _ => rfl

@[simp] theorem PodStatus.codec_lawful : PodStatus.codec.Lawful :=
  Codec.lenientRecord_lawful (by decide) (by simp [fields]) fun _ => rfl

@[simp] theorem Pod.codec_lawful : Pod.codec.Lawful :=
  Codec.lenientRecord_lawful (by decide) (by simp [fields]) fun _ => rfl

/-! ### Config maps, services and pod groups -/

@[simp] theorem ConfigMap.codec_lawful : ConfigMap.codec.Lawful :=
  Codec.lenientRecord_lawful (by decide) (by simp [fields]) fun _ => rfl

@[simp] theorem ServicePort.codec_lawful : ServicePort.codec.Lawful :=
  Codec.lenientRecord_lawful (by decide) (by simp [fields]) fun _ => rfl

@[simp] theorem ServiceSpec.codec_lawful : ServiceSpec.codec.Lawful :=
  Codec.lenientRecord_lawful (by decide) (by simp [fields]) fun _ => rfl

@[simp] theorem Service.codec_lawful : Service.codec.Lawful :=
  Codec.lenientRecord_lawful (by decide) (by simp [fields]) fun _ => rfl

@[simp] theorem PodGroupSpec.codec_lawful : PodGroupSpec.codec.Lawful :=
  Codec.strictRecord_lawful (by decide) (by simp [fields]) fun _ => rfl

@[simp] theorem PodGroup.codec_lawful : PodGroup.codec.Lawful :=
  Codec.withHeader_lawful (by decide) (by decide) (by simp [fields]) fun _ => rfl

/-- The objects of every kind but jobs are read back. -/
theorem Kind.codec_lawful {kind : Kind} (h : kind ≠ .job) : kind.codec.Lawful := by
  cases kind with
  | job => exact absurd rfl h
  | pod => exact Pod.codec_lawful
  | configMap => exact ConfigMap.codec_lawful
  | service => exact Service.codec_lawful
  | podGroup => exact PodGroup.codec_lawful

end JobOperator
