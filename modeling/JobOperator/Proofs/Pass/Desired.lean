import JobOperator.Pass.Basic
import JobOperator.Proofs.Pass.Calls
import JobOperator.Proofs.Pass.Listing

/-!
The objects that a job should have, and those of them that a pass creates. Each is known by its key,
so it does not matter in which order, or by which pass, they are created.
-/

namespace JobOperator

open Client

namespace Identity

variable {job : Job} {identity : Identity}

theorem ofJob_eq_ok : ofJob job = .ok identity ↔ job.metadata.namespace = some identity.namespace ∧
    job.metadata.name = some identity.name ∧ job.metadata.uid = some identity.uid := by
  obtain ⟨name, ns, uid⟩ := identity
  unfold ofJob
  cases job.metadata.namespace with
  | none => simp
  | some ns' =>
    cases job.metadata.name with
    | none => simp
    | some name' =>
      cases job.metadata.uid with
      | none => simp
      | some uid' => simp [and_left_comm]

theorem name_of_ofJob (h : ofJob job = .ok identity) : job.name = identity.name := by
  obtain ⟨-, hname, -⟩ := ofJob_eq_ok.1 h
  rw [Job.name, ObjectMeta.nameAny, hname]
  rfl

/-- The job controls what is made for it. -/
theorem isControllerIn_controllerReference (h : ofJob job = .ok identity) :
    job.isControllerIn (Job.controllerReference identity.name identity.uid) = true := by
  obtain ⟨-, -, huid⟩ := ofJob_eq_ok.1 h
  simp only [Job.isControllerIn, Job.controllerReference, name_of_ofJob h, huid, Option.all_some,
    beq_self_eq_true, Bool.and_self]

theorem controls_owned (h : ofJob job = .ok identity) (kind : Kind) (object : kind.Object) :
    job.controls (kind.metadata (identity.owned kind object)) = true := by
  rw [owned, Kind.metadata_withMetadata]
  simp only [Job.controls, adopt, Option.getD_some, List.any_cons,
    isControllerIn_controllerReference h, Bool.true_or]

end Identity

namespace Pass

variable {job : Job} {identity : Identity} {images : Images} {settings : PassSettings}

/-! ### The pod of a replica -/

theorem of_replica {role : String} {index : Int32} {pod : Pod}
    (h : job.replica role index images = .ok pod) :
    pod.metadata.name = some (Names.pod job.name role index) ∧
      pod.metadata.namespace = job.metadata.namespace ∧
      pod.metadata.label? appLabel = some job.name ∧ pod.status = none := by
  unfold Job.replica at h
  split at h
  · cases h
  · cases h
    exact ⟨rfl, rfl, SortedMap.get?_insert_self _ _ _, rfl⟩

/-- A replica that is created is one of the pods that are seen. -/
theorem ownedPod?_entry (hid : Identity.ofJob job = .ok identity) {role : String} {index : Int32}
    {pod : Pod} (h : job.replica role index images = .ok pod) :
    ownedPod? identity.namespace job (identity.entry .pod pod) =
      some (identity.owned .pod pod) := by
  obtain ⟨-, -, hlabel, -⟩ := of_replica h
  refine ownedPod?_eq_some.2 ⟨?_, ?_, Identity.controls_owned hid .pod pod⟩
  · have hlabel : (Kind.metadata .pod (identity.owned .pod pod)).label? appLabel = some job.name :=
      hlabel
    simp only [isListed, beq_self_eq_true, Bool.true_and, Cluster.selected, Kind.label?_encode,
      hlabel, Option.map_some]
  · exact (Kind.codec_lawful (show Kind.pod ≠ .job by decide) _).roundTrips

/-! ### Everything that a job should have -/

/-- The objects that a pass creates when it sees these pods, unless their names are taken. -/
def creations (settings : PassSettings) (job : Job) (identity : Identity) (pods : List Pod) :
    List (ObjectKey × Json) :=
  children job identity settings.servicePort ++
    missingPods job identity settings.images pods job.spec.roles.toList

/-- The objects that a job should have. -/
def desired (settings : PassSettings) (job : Job) (identity : Identity) : List (ObjectKey × Json) :=
  creations settings job identity []

theorem mem_children {port : Int32} {e : ObjectKey × Json} : e ∈ children job identity port ↔
    e = identity.entry .configMap (job.configMap identity) ∨
      e = identity.entry .service (Job.service identity port) ∨
      job.spec.enableGangScheduling = true ∧
        e = identity.entry .podGroup (job.podGroup identity) := by
  unfold children
  cases job.spec.enableGangScheduling <;> simp

theorem mem_missingPods {pods : List Pod} {e : ObjectKey × Json} :
    e ∈ missingPods job identity images pods job.spec.roles.toList ↔
      ∃ role definition index pod, job.spec.roles.get? role = some definition ∧
        index < definition.desiredReplicas ∧
        podNamed? pods (replicaName identity.name role index) = none ∧
        job.replica role (Int32.ofNat index) images = .ok pod ∧ e = identity.entry .pod pod := by
  simp only [missingPods, missingReplicas, List.mem_flatMap, Prod.exists,
    ← SortedMap.get?_eq_some_iff, List.mem_range'_1, Nat.zero_le, true_and, Nat.zero_add]
  constructor
  · rintro ⟨role, definition, hrole, index, hindex, he⟩
    split at he
    · exact absurd he List.not_mem_nil
    · rename_i hseen
      rw [Option.not_isSome_iff_eq_none] at hseen
      obtain ⟨pod, hpod⟩ := replica_eq_ok hrole (Int32.ofNat index) images
      rw [replicaEntry, hpod, List.mem_singleton] at he
      exact ⟨role, definition, index, pod, hrole, hindex, hseen, hpod, he⟩
  · rintro ⟨role, definition, index, pod, hrole, hindex, hseen, hpod, rfl⟩
    refine ⟨role, definition, hrole, index, hindex, ?_⟩
    rw [hseen, Option.isSome_none, if_neg (by simp), replicaEntry, hpod]
    exact List.mem_singleton_self _

theorem name_of_replica (hid : Identity.ofJob job = .ok identity) {role : String} {index : Int32}
    {pod : Pod} (h : job.replica role index images = .ok pod) :
    pod.name = Names.pod identity.name role index := by
  obtain ⟨hname, -, -, -⟩ := of_replica h
  rw [Identity.name_of_ofJob hid] at hname
  rw [Pod.name, ObjectMeta.nameAny, hname]
  rfl

theorem key_of_replica (hid : Identity.ofJob job = .ok identity) {role : String} {index : Nat}
    {pod : Pod} (h : job.replica role (Int32.ofNat index) images = .ok pod) :
    (identity.entry .pod pod).1 =
      ⟨.pod, identity.namespace, replicaName identity.name role index⟩ :=
  congrArg (ObjectKey.mk .pod identity.namespace) (name_of_replica hid h)

theorem creations_subset_desired {pods : List Pod} {e : ObjectKey × Json}
    (h : e ∈ creations settings job identity pods) : e ∈ desired settings job identity := by
  rcases List.mem_append.1 h with h | h
  · exact List.mem_append_left _ h
  · obtain ⟨role, definition, index, pod, hrole, hindex, -, hpod, he⟩ := mem_missingPods.1 h
    exact List.mem_append_right _
      (mem_missingPods.2 ⟨role, definition, index, pod, hrole, hindex, rfl, hpod, he⟩)

theorem kind_of_mem_creations {pods : List Pod} {e : ObjectKey × Json}
    (h : e ∈ creations settings job identity pods) : e.1.kind ≠ .job := by
  rcases List.mem_append.1 h with h | h
  · exact (childKinds_ne (kind_of_mem_children h)).1
  · rw [kind_of_mem_missingPods h]
    decide

/-- Two objects that a job should have under one key are one object. -/
theorem desired_functional (hid : Identity.ofJob job = .ok identity) {e f : ObjectKey × Json}
    (he : e ∈ desired settings job identity) (hf : f ∈ desired settings job identity)
    (hkey : e.1 = f.1) : e = f := by
  have hkind : e.1.kind = f.1.kind := congrArg ObjectKey.kind hkey
  rcases List.mem_append.1 he with hchild | hwanted
  · rcases List.mem_append.1 hf with hchild' | hwanted'
    · rcases mem_children.1 hchild with rfl | rfl | ⟨-, rfl⟩ <;>
        rcases mem_children.1 hchild' with rfl | rfl | ⟨-, rfl⟩ <;>
        first
        | rfl
        | cases hkind
    · have hne := (childKinds_ne (kind_of_mem_children hchild)).2
      rw [hkind] at hne
      exact absurd (kind_of_mem_missingPods hwanted') hne
  · rcases List.mem_append.1 hf with hchild' | hwanted'
    · have hne := (childKinds_ne (kind_of_mem_children hchild')).2
      rw [← hkind] at hne
      exact absurd (kind_of_mem_missingPods hwanted) hne
    · obtain ⟨role, definition, index, pod, -, hindex, -, hpod, rfl⟩ := mem_missingPods.1 hwanted
      obtain ⟨role', definition', index', pod', -, hindex', -, hpod', rfl⟩ :=
        mem_missingPods.1 hwanted'
      rw [key_of_replica hid hpod, key_of_replica hid hpod'] at hkey
      have hname : replicaName identity.name role index =
          replicaName identity.name role' index' := congrArg ObjectKey.name hkey
      have hlt := definition.desiredReplicas_lt
      have hlt' := definition'.desiredReplicas_lt
      obtain ⟨rfl, rfl⟩ := Names.pod_injective (by omega) (by omega) hname
      rw [hpod] at hpod'
      cases hpod'
      rfl

end Pass

end JobOperator
