import JobOperator.Job.Basic
import JobOperator.Object.Pod
import JobOperator.Proofs.Codec.Patch

/-!
Documents that retain their metadata. What is read of an object's metadata follows from the members
of its document that are named so, and a patch that does not name the metadata leaves those alone.
-/

namespace JobOperator

open Json

namespace Field

variable {β : Type} {field : Field β} {members members' : List (String × Json)} {b : β}

/-- What is read of a field follows from the values that it has, wherever they stand. -/
theorem readMembers_iff_values {repetition : Repetition} {place : Nat} (place' : Nat)
    {seen : Option β} :
    field.readMembers repetition place seen members = .ok b ↔
      field.readMembers repetition place' seen ((field.values members).map (field.name, ·)) =
        .ok b := by
  induction members generalizing place place' seen with
  | nil =>
    simp only [values_nil, List.map_nil, readMembers]
    cases seen.or field.missing <;> simp
  | cons m rest ih =>
    obtain ⟨key, value⟩ := m
    rw [values_cons]
    cases hnamed : field.named key with
    | false =>
      simp only [readMembers, hnamed, Bool.false_eq_true, if_false]
      exact ih place'
    | true =>
      simp only [readMembers, hnamed, named_self, if_true, List.map_cons]
      split
      · simp
      · cases field.read value with
        | error e => simp
        | ok c => exact ih (place' + 1)

/-- Members that give a field the same values are read alike. -/
theorem readMembers_congr {repetition : Repetition} {place place' : Nat} {seen : Option β} {c : β}
    (hvalues : field.values members = field.values members')
    (h : field.readMembers repetition place seen members = .ok b)
    (h' : field.readMembers repetition place' seen members' = .ok c) : b = c := by
  rw [readMembers_iff_values 0, hvalues] at h
  rw [readMembers_iff_values 0, h] at h'
  exact Except.ok.inj h'

end Field

/-- The metadata of an object, as a field. -/
def metadataField : Field ObjectMeta := .required "metadata" ObjectMeta.codec

/-- Whether a document may have become another one without a change of its metadata. -/
def Json.Retains (doc later : Json) : Prop :=
  later = doc ∨ ∃ members, later = .obj members ∧
    metadataField.values members = metadataField.values doc.membersOrNone

/-- Whether a patch changes an object and does not name its metadata. -/
def Json.sparesMetadata : (patch : Json) → Bool
  | .obj members => members.all (·.1 != "metadata")
  | _ => false

namespace Json.Retains

variable {doc later last patch : Json}

theorem refl (doc : Json) : doc.Retains doc := .inl rfl

theorem trans (h : doc.Retains later) (h' : later.Retains last) : doc.Retains last := by
  rcases h' with rfl | ⟨members, rfl, hvalues⟩
  · exact h
  · refine .inr ⟨members, rfl, hvalues.trans ?_⟩
    rcases h with rfl | ⟨members', rfl, hvalues'⟩
    · rfl
    · exact hvalues'

theorem mergePatch (doc : Json) (h : patch.sparesMetadata = true) :
    doc.Retains (doc.mergePatch patch) := by
  cases patch with
  | obj members =>
    refine .inr ⟨_, mergePatch_obj doc members, ?_⟩
    refine Field.values_mergeMembers_of_not_named fun m hm => ?_
    have hname : m.1 ≠ "metadata" := by simpa using List.all_eq_true.1 h m hm
    simp [metadataField, Field.named, Field.required, hname]
  | _ => cases h

end Json.Retains

/-- What retains the metadata of a job has it, if it can be read as a job at all. -/
theorem Job.metadata_of_retains {doc later : Json} {job job' : Job} (h : doc.Retains later)
    (hdoc : Job.codec.decode doc = .ok job) (hlater : Job.codec.decode later = .ok job') :
    job'.metadata = job.metadata := by
  have hfield {members : List (String × Json)} {job : Job}
      (hjob : Job.codec.decode (.obj members) = .ok job) :
      metadataField.readMembers .refused 0 none members = .ok job.metadata := by
    obtain ⟨⟨metadata, spec, status, ⟨⟩⟩, hread, rfl⟩ := map_eq_ok.1 hjob
    exact (Fields.readMembers_cons.1 (Fields.readObject_eq_ok.1 hread).2).1
  rcases h with rfl | ⟨members, rfl, hvalues⟩
  · rw [hdoc] at hlater
    rw [Except.ok.inj hlater]
  · cases doc with
    | obj members' => exact Field.readMembers_congr hvalues (hfield hlater) (hfield hdoc)
    | _ =>
      -- there is no metadata to retain
      rcases Field.readMembers_refused_iff.1 (hfield hlater) with ⟨-, hnone⟩ | ⟨v, hv, -⟩
      · cases hnone
      · rw [hvalues] at hv
        cases hv

/-- What retains the metadata of a pod has it, if it can be read as a pod at all. -/
theorem Pod.metadata_of_retains {doc later : Json} {pod pod' : Pod} (h : doc.Retains later)
    (hdoc : Pod.codec.decode doc = .ok pod) (hlater : Pod.codec.decode later = .ok pod') :
    pod'.metadata = pod.metadata := by
  have hfield {members : List (String × Json)} {pod : Pod}
      (hpod : Pod.codec.decode (.obj members) = .ok pod) :
      (Field.zeroed "metadata" {} ObjectMeta.codec).readMembers .lastCounts 0 none members =
        .ok pod.metadata := by
    obtain ⟨⟨⟨⟩, ⟨⟩, metadata, spec, status, ⟨⟩⟩, hread, rfl⟩ := map_eq_ok.1 hpod
    obtain ⟨-, hrest⟩ := Fields.readMembers_cons.1 (Fields.readObject_eq_ok.1 hread).2
    obtain ⟨-, hrest⟩ := Fields.readMembers_cons.1 hrest
    exact (Fields.readMembers_cons.1 hrest).1
  rcases h with rfl | ⟨members, rfl, hvalues⟩
  · rw [hdoc] at hlater
    rw [Except.ok.inj hlater]
  · cases doc with
    | obj members' =>
      have hsame : (Field.zeroed "metadata" {} ObjectMeta.codec).values members =
          (Field.zeroed "metadata" {} ObjectMeta.codec).values members' := hvalues
      exact Field.readMembers_congr hsame (hfield hlater) (hfield hdoc)
    | _ => cases hdoc

end JobOperator
