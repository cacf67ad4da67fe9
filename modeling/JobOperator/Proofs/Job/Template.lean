import JobOperator.Job.Replica
import JobOperator.Proofs.SortedMap
import Mathlib.Data.List.Forall2

/-!
What the pod of a replica takes from the template of its role. A job adds to the lists of the template
at their ends and sets a few texts; all else of the template is in the pod as it is. As the job adds the
volumes that it mounts, every mount of a pod names a volume of the pod if that holds of the template.
-/

namespace JobOperator

/-- The mounts of a container. -/
def Container.mounts (container : Container) : List VolumeMount := container.volumeMounts.getD []

namespace PodSpec

/-- The containers that run before those of a pod start. -/
def steps (spec : PodSpec) : List Container := spec.initContainers.getD []

/-- All containers of a pod, those that run before the others among them. -/
def allContainers (spec : PodSpec) : List Container := spec.containers ++ spec.steps

/-- The volumes of a pod. -/
def allVolumes (spec : PodSpec) : List Volume := spec.volumes.getD []

/-- Whether every mount of a pod names a volume of the pod. -/
def MountsDeclared (spec : PodSpec) : Prop :=
  ∀ container ∈ spec.allContainers,
    container.mounts.map (·.name) ⊆ spec.allVolumes.map (·.name)

instance (spec : PodSpec) : Decidable spec.MountsDeclared :=
  inferInstanceAs (Decidable (∀ container ∈ spec.allContainers,
    container.mounts.map (·.name) ⊆ spec.allVolumes.map (·.name)))

end PodSpec

/-! ### What a job adds -/

/-- What is seen of a container from outside: its name, its image, and the volumes that it mounts, each
with its path. -/
structure Outline where
  name : String
  image : Option String
  mounts : List (String × String)
  deriving DecidableEq

/-- The outline of a container. -/
def Container.outline (container : Container) : Outline :=
  ⟨container.name, container.image, container.mounts.map fun mount => (mount.name, mount.mountPath)⟩

/-- The outlines of the containers that prepare source code: one for a repository, one for an archive,
and always one for what the code depends on. -/
def SyncSource.outlines (source : SyncSource) (images : Images) : List Outline :=
  (if source.git.isSome then [⟨"init-git", some images.gitSync, [("source", "/tmp/git")]⟩] else []) ++
  (if source.objectStore.isSome then
    [⟨"init-minio", some images.objectStore, [("source", "/build")]⟩] else []) ++
  [⟨"init-pip", some images.dependencyInstaller,
    [("source", "/source"), ("pip-packages", "/root/.local/lib/python3.9/site-packages")]⟩]

namespace Job

/-- The outlines of the containers that a job has run before those of a pod. -/
def outlines (job : Job) (images : Images) : List Outline :=
  match job.spec.source with
  | some source => source.outlines images
  | none => []

/-- Whether a container is one of the template with the mounts that a job adds: its programs, read-only,
and with a source the source code and what it depends on. -/
structure ExtendsContainer (job : Job) (before after : Container) : Prop where
  mounts : after.mounts = before.mounts ++
    { name := "config", mountPath := "/etc/config", readOnly := some true } ::
    if job.spec.source.isSome then
      [{ name := "source", mountPath := "/workdir" },
        { name := "pip-packages", mountPath := "/root/.local/lib/python3.9/site-packages" }]
    else []
  others : { after with volumeMounts := before.volumeMounts } = before

/-- Whether a specification is that of a template with what a job adds and sets for a replica. -/
structure ExtendsSpec (job : Job) (role : String) (index : Int32) (images : Images)
    (before after : PodSpec) : Prop where
  containers : List.Forall₂ job.ExtendsContainer before.containers after.containers
  steps : ∃ added, after.steps = before.steps ++ added ∧
    added.map Container.outline = job.outlines images
  noSteps : job.spec.source = none → after.initContainers = before.initContainers
  volumes : after.allVolumes = before.allVolumes ++
    { name := "config", configMap := some { name := job.name } } ::
    if job.spec.source.isSome then
      [{ name := "source", emptyDir := some {} }, { name := "pip-packages", emptyDir := some {} }]
    else []
  hostname : after.hostname = some (Names.host role index)
  subdomain : after.subdomain = some job.name
  restartPolicy : after.restartPolicy = some "Never"
  schedulerName : after.schedulerName =
    if job.spec.enableGangScheduling then some "volcano" else before.schedulerName
  others :
    { after with
      containers := before.containers
      initContainers := before.initContainers
      volumes := before.volumes
      hostname := before.hostname
      subdomain := before.subdomain
      restartPolicy := before.restartPolicy
      schedulerName := before.schedulerName } = before

/-- Whether metadata is that of a replica, with the labels and annotations of a template and those that a
job sets. -/
structure ExtendsMetadata (job : Job) (role : String) (index : Int32) (before after : ObjectMeta) :
    Prop where
  labels : ∀ key, after.labels.bind (·.get? key) =
    if key = "app" then some job.name else before.labels.bind (·.get? key)
  annotations : ∀ key, after.annotations.bind (·.get? key) =
    if job.spec.enableGangScheduling ∧ key = "volcano.sh/task-spec" then some role
    else if job.spec.enableGangScheduling ∧ key = "scheduling.k8s.io/group-name" then some job.name
    else if key = "sidecar.istio.io/inject" then some "false"
    else before.annotations.bind (·.get? key)
  others : { after with labels := none, annotations := none } =
    { name := some (Names.pod job.name role index), «namespace» := job.metadata.namespace }

/-- Whether a pod is made from a template and from what a job adds and sets for a replica, and from
nothing else. -/
structure Extends (job : Job) (role : String) (index : Int32) (images : Images) (template : PodTemplate)
    (pod : Pod) : Prop where
  metadata : job.ExtendsMetadata role index (template.metadata.getD {}) pod.metadata
  spec : ∃ spec, pod.spec = some spec ∧
    job.ExtendsSpec role index images (template.spec.getD {}) spec
  status : pod.status = none

variable {job : Job} {role : String} {index : Int32} {images : Images} {before after : PodSpec}

/-! ### The pod of a replica -/

theorem outline_containers (source : SyncSource) (images : Images) :
    (source.containers images).map Container.outline = source.outlines images := by
  obtain ⟨git, objectStore⟩ := source
  cases git <;> cases objectStore <;> rfl

theorem extendsSpec_podSpec (job : Job) (role : String) (index : Int32) (images : Images)
    (spec : PodSpec) : job.ExtendsSpec role index images spec (job.podSpec role index images spec) where
  containers := by
    rw [podSpec, List.forall₂_map_right_iff, List.forall₂_same]
    exact fun container _ => ⟨rfl, rfl⟩
  steps := by
    cases hsource : job.spec.source with
    | none => exact ⟨[], by simp [PodSpec.steps, podSpec, hsource], by simp [outlines, hsource]⟩
    | some source =>
      refine ⟨source.containers images, ?_, ?_⟩
      · simp [PodSpec.steps, podSpec, hsource]
      · simp [outlines, hsource, outline_containers]
  noSteps := fun hsource => by simp [podSpec, hsource]
  volumes := rfl
  hostname := rfl
  subdomain := rfl
  restartPolicy := rfl
  schedulerName := rfl
  others := rfl

theorem get?_getD (entries : Option (StringMap String)) (key : String) :
    (entries.getD {}).get? key = entries.bind (·.get? key) := by
  cases entries with
  | none => exact SortedMap.get?_empty key
  | some entries => rfl

theorem extendsMetadata_replica (job : Job) (role : String) (index : Int32) (metadata : ObjectMeta) :
    job.ExtendsMetadata role index metadata
      { name := some (Names.pod job.name role index)
        «namespace» := job.metadata.namespace
        labels := some (job.podLabels (metadata.labels.getD {}))
        annotations := some (job.podAnnotations role (metadata.annotations.getD {})) } where
  labels key := by
    rw [Option.bind_some, podLabels, SortedMap.get?_insert, get?_getD]
    rfl
  annotations key := by
    rw [Option.bind_some, podAnnotations]
    split_ifs <;> simp_all [SortedMap.get?_insert, get?_getD, sidecarAnnotation, groupAnnotation,
      taskAnnotation]
  others := rfl

/-- There is a pod for the replicas of the roles of a job, and it extends the template of the role. -/
theorem extends_replica {definition : Role} (h : job.spec.roles.get? role = some definition) :
    ∃ pod, job.replica role index images = .ok pod ∧
      job.Extends role index images definition.template pod := by
  simp only [replica, h]
  exact ⟨_, rfl, extendsMetadata_replica job role index _,
    ⟨_, rfl, extendsSpec_podSpec job role index images _⟩, rfl⟩

theorem replica_eq_error {e : ReplicaError} : job.replica role index images = .error e ↔
    e = .unknownRole role ∧ job.spec.roles.get? role = none := by
  cases h : job.spec.roles.get? role with
  | none => simp [replica, h, eq_comm]
  | some definition => simp [replica, h]

/-! ### Mounts and volumes -/

/-- The names of the volumes that a job adds. -/
def addedVolumes (job : Job) : List String :=
  "config" :: if job.spec.source.isSome then ["source", "pip-packages"] else []

theorem ExtendsSpec.map_name_volumes (h : job.ExtendsSpec role index images before after) :
    after.allVolumes.map (·.name) = before.allVolumes.map (·.name) ++ job.addedVolumes := by
  rw [h.volumes, List.map_append, addedVolumes]
  split <;> rfl

/-- The job mounts what it adds. -/
theorem ExtendsContainer.map_name_mounts {a b : Container} (h : job.ExtendsContainer a b) :
    b.mounts.map (·.name) = a.mounts.map (·.name) ++ job.addedVolumes := by
  rw [h.mounts, List.map_append, addedVolumes]
  split <;> rfl

theorem map_fst_mounts_outlines {outline : Outline} (h : outline ∈ job.outlines images) :
    outline.mounts.map (·.1) ⊆ job.addedVolumes := by
  cases hsource : job.spec.source with
  | none => simp [outlines, hsource] at h
  | some source =>
    simp only [outlines, hsource, SyncSource.outlines, List.mem_append, List.mem_ite_nil_right,
      List.mem_singleton] at h
    rw [addedVolumes, hsource]
    rcases h with (⟨-, rfl⟩ | ⟨-, rfl⟩) | rfl <;> simp

/-- What holds of the containers of a template and of those that extend them. -/
theorem ExtendsSpec.forall_containers {p q : Container → Prop}
    (h : job.ExtendsSpec role index images before after)
    (hpq : ∀ a b, job.ExtendsContainer a b → (p a ↔ q b)) :
    (∀ container ∈ before.containers, p container) ↔ ∀ container ∈ after.containers, q container := by
  obtain ⟨hcontainers⟩ := h
  generalize before.containers = befores, after.containers = afters at hcontainers ⊢
  induction hcontainers with
  | nil => simp
  | cons hfirst _ ih => rw [List.forall_mem_cons, List.forall_mem_cons, hpq _ _ hfirst, ih]

theorem ExtendsSpec.mountsDeclared (h : job.ExtendsSpec role index images before after)
    (hbefore : before.MountsDeclared) : after.MountsDeclared := by
  obtain ⟨hcontainers, hsteps⟩ := List.forall_mem_append.1 hbefore
  obtain ⟨added, hafter, hadded⟩ := h.steps
  have hmore : before.allVolumes.map (·.name) ⊆ after.allVolumes.map (·.name) := by
    rw [h.map_name_volumes]
    exact List.subset_append_left _ _
  have hadds : job.addedVolumes ⊆ after.allVolumes.map (·.name) := by
    rw [h.map_name_volumes]
    exact List.subset_append_right _ _
  refine List.forall_mem_append.2 ⟨?_, ?_⟩
  · refine (h.forall_containers fun a b hab => ?_).1 fun container hcontainer =>
      List.Subset.trans (hcontainers container hcontainer) hmore
    rw [hab.map_name_mounts, List.append_subset, and_iff_left hadds]
  · rw [hafter]
    refine List.forall_mem_append.2 ⟨fun container hcontainer =>
      List.Subset.trans (hsteps container hcontainer) hmore, fun container hcontainer => ?_⟩
    have houtline := map_fst_mounts_outlines (hadded ▸ List.mem_map_of_mem hcontainer)
    rw [Container.outline, List.map_map] at houtline
    exact List.Subset.trans houtline hadds

/-- A job has a pod for a replica just if it has the role. The pod is made from the template of the role
and from what the job adds, and from nothing else; so if the mounts of the template name volumes of the
template, the mounts of the pod name volumes of the pod. -/
theorem replica_extends_template (job : Job) (role : String) (index : Int32) (images : Images) :
    (∀ e, job.replica role index images = .error e ↔
      e = .unknownRole role ∧ job.spec.roles.get? role = none) ∧
    ∀ definition, job.spec.roles.get? role = some definition →
      ∃ pod, job.replica role index images = .ok pod ∧
        job.Extends role index images definition.template pod ∧
        ((definition.template.spec.getD {}).MountsDeclared → (pod.spec.getD {}).MountsDeclared) := by
  refine ⟨fun _ => replica_eq_error, fun definition hrole => ?_⟩
  obtain ⟨pod, hpod, hextends⟩ := extends_replica hrole
  refine ⟨pod, hpod, hextends, fun hdeclared => ?_⟩
  obtain ⟨spec, hspec, hextendsSpec⟩ := hextends.spec
  rw [hspec]
  exact hextendsSpec.mountsDeclared hdeclared

end Job

namespace Sample

/-- The role of a job whose containers share data that a first step brings in. -/
def learner : Role where
  template :=
    { metadata := some { labels := some (.ofList [("app", "other"), ("team", "rl")]) }
      spec := some
        { containers :=
            [{ name := "main", volumeMounts := some [{ name := "data", mountPath := "/data" }] },
              { name := "helper" }]
          initContainers := some
            [{ name := "warmup", volumeMounts := some [{ name := "data", mountPath := "/out" }] }]
          volumes := some [{ name := "data", emptyDir := some {} }]
          schedulerName := some "default" } }

/-- A job in a gang, with a repository and an archive as its source. -/
def sourced : Job where
  metadata := { name := some "train", «namespace» := some "default" }
  spec :=
    { enableGangScheduling := true
      roles := .ofList [("learner", learner)]
      source := some ⟨some ⟨"https://git.example/rl.git", "", ""⟩,
        some ⟨"minio:9000", "code", "app.tar", "ak", "sk"⟩⟩ }

end Sample

namespace Job

/-- A template with volumes, mounts and steps of its own, in a job that has every kind of source. -/
theorem replica_extends_template_sourced :
    Sample.sourced.spec.roles.get? "learner" = some Sample.learner ∧
    (Sample.learner.template.spec.getD {}).MountsDeclared ∧
    ∃ pod, Sample.sourced.replica "learner" 0 {} = .ok pod ∧
      Sample.sourced.Extends "learner" 0 {} Sample.learner.template pod ∧
      (pod.spec.getD {}).MountsDeclared := by
  have hrole : Sample.sourced.spec.roles.get? "learner" = some Sample.learner := by decide
  have hdeclared : (Sample.learner.template.spec.getD {}).MountsDeclared := by decide
  obtain ⟨-, hreplica⟩ := replica_extends_template Sample.sourced "learner" 0 {}
  obtain ⟨pod, hpod, hextends, hmounts⟩ := hreplica Sample.learner hrole
  exact ⟨hrole, hdeclared, pod, hpod, hextends, hmounts hdeclared⟩

end Job

end JobOperator
