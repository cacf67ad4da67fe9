import JobOperator.Proofs.Job.Template
import Mathlib.Data.List.Nodup
import Mathlib.Tactic.MkIffOfInductiveProp

/-!
Names that have to be distinct in a pod: those of its volumes, those of its containers, and in each
container the paths of its mounts. A job adds names of its own to those of a template, always the same
ones. So the names in the pod of a replica are distinct just if those in the template are and none of
them is one that the job adds.
-/

namespace JobOperator

/-- Whether the names in a pod are distinct that an API server wants to be distinct. -/
@[mk_iff]
structure PodSpec.Distinct (spec : PodSpec) : Prop where
  volumes : (spec.allVolumes.map (·.name)).Nodup
  containers : (spec.allContainers.map (·.name)).Nodup
  paths : ∀ container ∈ spec.allContainers, (container.mounts.map (·.mountPath)).Nodup

instance (spec : PodSpec) : Decidable spec.Distinct :=
  decidable_of_iff _ spec.distinct_iff.symm

namespace Job

variable {job : Job} {role : String} {index : Int32} {images : Images} {before after : PodSpec}

/-- The names of the containers that a job has run before those of a pod. -/
def addedSteps (job : Job) : List String :=
  match job.spec.source with
  | none => []
  | some source =>
    (if source.git.isSome then ["init-git"] else []) ++
    (if source.objectStore.isSome then ["init-minio"] else []) ++ ["init-pip"]

/-- The paths at which a job mounts its volumes in the containers of a template. -/
def addedPaths (job : Job) : List String :=
  "/etc/config" :: if job.spec.source.isSome then
    ["/workdir", "/root/.local/lib/python3.9/site-packages"] else []

/-- Whether a template uses none of the names that a job adds. -/
@[mk_iff]
structure LeavesFree (job : Job) (spec : PodSpec) : Prop where
  volumes : ∀ volume ∈ spec.allVolumes, volume.name ∉ job.addedVolumes
  containers : ∀ container ∈ spec.allContainers, container.name ∉ job.addedSteps
  paths : ∀ container ∈ spec.containers, ∀ mount ∈ container.mounts, mount.mountPath ∉ job.addedPaths

instance (job : Job) (spec : PodSpec) : Decidable (job.LeavesFree spec) :=
  decidable_of_iff _ (job.leavesFree_iff spec).symm

/-! ### The names that a job adds -/

theorem nodup_addedVolumes (job : Job) : job.addedVolumes.Nodup := by
  unfold addedVolumes
  split <;> decide

theorem nodup_addedPaths (job : Job) : job.addedPaths.Nodup := by
  unfold addedPaths
  split <;> decide

theorem nodup_addedSteps (job : Job) : job.addedSteps.Nodup := by
  unfold addedSteps
  cases job.spec.source with
  | none => exact List.nodup_nil
  | some source =>
    simp only
    split <;> split <;> decide

theorem map_name_outlines (job : Job) (images : Images) :
    (job.outlines images).map (·.name) = job.addedSteps := by
  unfold outlines addedSteps
  cases job.spec.source with
  | none => rfl
  | some source =>
    simp only [SyncSource.outlines]
    split <;> split <;> rfl

theorem nodup_paths_outlines {outline : Outline} (h : outline ∈ job.outlines images) :
    (outline.mounts.map (·.2)).Nodup := by
  cases hsource : job.spec.source with
  | none => simp [outlines, hsource] at h
  | some source =>
    simp only [outlines, hsource, SyncSource.outlines, List.mem_append, List.mem_ite_nil_right,
      List.mem_singleton] at h
    rcases h with (⟨-, rfl⟩ | ⟨-, rfl⟩) | rfl <;> simp

/-! ### The names in a pod -/

/-- Names that are distinct are added to a list of names. -/
theorem nodup_map_append_iff {α : Type} {name : α → String} {added : List String}
    (h : added.Nodup) (items : List α) :
    (items.map name ++ added).Nodup ↔ (items.map name).Nodup ∧ ∀ item ∈ items, name item ∉ added := by
  rw [List.nodup_append', and_iff_right h]
  exact and_congr_right fun _ => List.forall_mem_map

theorem ExtendsContainer.name_eq {a b : Container} (h : job.ExtendsContainer a b) :
    b.name = a.name := by
  rw [← h.others]

theorem ExtendsContainer.map_path_mounts {a b : Container} (h : job.ExtendsContainer a b) :
    b.mounts.map (·.mountPath) = a.mounts.map (·.mountPath) ++ job.addedPaths := by
  rw [h.mounts, List.map_append, addedPaths]
  split <;> rfl

theorem ExtendsSpec.map_name_containers (h : job.ExtendsSpec role index images before after) :
    after.allContainers.map (·.name) = before.allContainers.map (·.name) ++ job.addedSteps := by
  obtain ⟨added, hafter, hadded⟩ := h.steps
  have hcontainers : after.containers.map (·.name) = before.containers.map (·.name) := by
    rw [← List.forall₂_eq_eq_eq, List.forall₂_map_left_iff, List.forall₂_map_right_iff]
    exact h.containers.flip.imp fun _ _ hab => hab.name_eq
  have hsteps : added.map (·.name) = job.addedSteps := by
    rw [← map_name_outlines job images, ← hadded, List.map_map]
    rfl
  simp only [PodSpec.allContainers, List.map_append, hcontainers, hafter, hsteps, List.append_assoc]

/-- The steps that a job adds have paths of their own, so paths can only meet in the containers of the
template. -/
theorem ExtendsSpec.nodup_paths_iff (h : job.ExtendsSpec role index images before after) :
    (∀ container ∈ after.allContainers, (container.mounts.map (·.mountPath)).Nodup) ↔
      (∀ container ∈ before.allContainers, (container.mounts.map (·.mountPath)).Nodup) ∧
      ∀ container ∈ before.containers, ∀ mount ∈ container.mounts,
        mount.mountPath ∉ job.addedPaths := by
  obtain ⟨added, hafter, hadded⟩ := h.steps
  have hpaths : ∀ container ∈ added, (container.mounts.map (·.mountPath)).Nodup := by
    intro container hcontainer
    have hnodup := nodup_paths_outlines (hadded ▸ List.mem_map_of_mem hcontainer)
    rwa [Container.outline, List.map_map] at hnodup
  have hcontainers : (∀ container ∈ after.containers, (container.mounts.map (·.mountPath)).Nodup) ↔
      ∀ container ∈ before.containers, (container.mounts.map (·.mountPath)).Nodup ∧
        ∀ mount ∈ container.mounts, mount.mountPath ∉ job.addedPaths := by
    refine (h.forall_containers fun a b hab => ?_).symm
    rw [hab.map_path_mounts]
    exact (nodup_map_append_iff (nodup_addedPaths job) _).symm
  simp only [PodSpec.allContainers, List.forall_mem_append, hafter, and_iff_left hpaths, hcontainers,
    forall_and]
  exact and_right_comm

/-- The names in a pod are distinct just if those of the template are and the template uses none of the
names that the job adds. -/
theorem ExtendsSpec.distinct_iff (h : job.ExtendsSpec role index images before after) :
    after.Distinct ↔ before.Distinct ∧ job.LeavesFree before := by
  rw [PodSpec.distinct_iff, PodSpec.distinct_iff, leavesFree_iff, h.map_name_volumes,
    h.map_name_containers, h.nodup_paths_iff, nodup_map_append_iff (nodup_addedVolumes job),
    nodup_map_append_iff (nodup_addedSteps job)]
  constructor
  · rintro ⟨⟨hvolumes, hfreeVolumes⟩, ⟨hcontainers, hfreeContainers⟩, hpaths, hfreePaths⟩
    exact ⟨⟨hvolumes, hcontainers, hpaths⟩, hfreeVolumes, hfreeContainers, hfreePaths⟩
  · rintro ⟨⟨hvolumes, hcontainers, hpaths⟩, hfreeVolumes, hfreeContainers, hfreePaths⟩
    exact ⟨⟨hvolumes, hfreeVolumes⟩, ⟨hcontainers, hfreeContainers⟩, hpaths, hfreePaths⟩

/-- The names in the pod of a replica are distinct just if those of the template of its role are and the
template uses none of the names that the job adds. -/
theorem replica_distinct_iff (job : Job) (role : String) (index : Int32) (images : Images)
    (definition : Role) (h : job.spec.roles.get? role = some definition) :
    ∃ pod, job.replica role index images = .ok pod ∧
      ((pod.spec.getD {}).Distinct ↔
        (definition.template.spec.getD {}).Distinct ∧
        job.LeavesFree (definition.template.spec.getD {})) := by
  obtain ⟨pod, hpod, hextends⟩ := extends_replica h
  obtain ⟨spec, hspec, hextendsSpec⟩ := hextends.spec
  refine ⟨pod, hpod, ?_⟩
  rw [hspec]
  exact hextendsSpec.distinct_iff

/-- A template with names of its own, in a job that has every kind of source. -/
theorem replica_distinct_iff_sourced :
    Sample.sourced.spec.roles.get? "learner" = some Sample.learner ∧
    (Sample.learner.template.spec.getD {}).Distinct ∧
    Sample.sourced.LeavesFree (Sample.learner.template.spec.getD {}) ∧
    ∃ pod, Sample.sourced.replica "learner" 0 {} = .ok pod ∧ (pod.spec.getD {}).Distinct := by
  have hrole : Sample.sourced.spec.roles.get? "learner" = some Sample.learner := by decide
  have hdistinct : (Sample.learner.template.spec.getD {}).Distinct := by decide
  have hfree : Sample.sourced.LeavesFree (Sample.learner.template.spec.getD {}) := by decide
  obtain ⟨pod, hpod, hiff⟩ := replica_distinct_iff Sample.sourced "learner" 0 {} Sample.learner hrole
  exact ⟨hrole, hdistinct, hfree, pod, hpod, hiff.2 ⟨hdistinct, hfree⟩⟩

end Job

/-- The role of a template that uses a name of each kind that a job adds. -/
def Sample.clashing : Role where
  template :=
    { spec := some
        { containers :=
            [{ name := "main", image := some "python:3.11"
               volumeMounts := some [{ name := "data", mountPath := "/etc/config" }] }]
          initContainers := some [{ name := "init-pip", image := some "python:3.11" }]
          volumes := some
            [{ name := "config", emptyDir := some {} }, { name := "data", emptyDir := some {} }] } }

/-- A job in which nothing is brought in, though there is a source. -/
def Sample.clashes : Job where
  metadata := { name := some "train", «namespace» := some "default" }
  spec := { roles := .ofList [("learner", clashing)], source := some ⟨none, none⟩ }

/-- The names in a template can be distinct when none of those in the pod are. -/
theorem Job.replica_repeats_names :
    Sample.clashes.spec.roles.get? "learner" = some Sample.clashing ∧
    (Sample.clashing.template.spec.getD {}).Distinct ∧
    ∃ pod, Sample.clashes.replica "learner" 0 {} = .ok pod ∧
      ¬ ((pod.spec.getD {}).allVolumes.map (·.name)).Nodup ∧
      ¬ ((pod.spec.getD {}).allContainers.map (·.name)).Nodup ∧
      ¬ ∀ container ∈ (pod.spec.getD {}).allContainers,
        (container.mounts.map (·.mountPath)).Nodup :=
  ⟨by decide, by decide, _, rfl, by decide, by decide, by decide⟩

end JobOperator
