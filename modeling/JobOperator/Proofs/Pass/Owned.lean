import JobOperator.Proofs.Api.Shared
import JobOperator.Proofs.Pass.Homed

/-!
The list of a job's pods. It has the pods of the job's namespace whose label names the job and of which
the job is a controller, and no others. What is created for a replica is written so that these lists
have it, as it was made, for as long as it is kept, and so that no list of another job has it.
-/

namespace JobOperator

open Client

/-! ### Requests that leave an object -/

/-- Whether a request asks for an object to be deleted or changed. -/
def Request.Touches (key : ObjectKey) : Request → Prop
  | .delete k | .patchStatus k _ => k = key
  | .get _ | .list .. | .post .. => False

namespace Cluster

variable {cluster : Cluster} {key : ObjectKey} {doc : Json}

theorem get?_exchange_of_not_touches {request : Request} (h : cluster.get? key = some doc)
    (hrequest : ¬ request.Touches key) : (cluster.exchange request).2.get? key = some doc := by
  cases request with
  | get k =>
    simp only [exchange]
    split <;> exact h
  | list kind ns selector limit => exact h
  | post kind ns body =>
    simp only [exchange]
    split
    · exact h
    · rename_i hfree
      -- the name that is posted was not taken, so it is another one
      have hne : key ≠ ⟨kind, ns, Request.postedName body⟩ := by
        rintro rfl
        exact hfree (SortedMap.contains_iff.2 ⟨doc, h⟩)
      exact (SortedMap.get?_insert_ne _ hne _).trans h
  | delete k =>
    have hne : key ≠ k := fun heq => hrequest heq.symm
    simp only [exchange]
    split
    · exact (SortedMap.get?_erase_ne _ hne).trans h
    · exact h
  | patchStatus k patch =>
    have hne : key ≠ k := fun heq => hrequest heq.symm
    simp only [exchange]
    split
    · exact (SortedMap.get?_insert_ne _ hne _).trans h
    · exact h

theorem get?_serve_of_not_touches {requests : List Request} (h : cluster.get? key = some doc)
    (hrequests : ∀ request ∈ requests, ¬ request.Touches key) :
    (cluster.serve requests).get? key = some doc := by
  induction requests generalizing cluster with
  | nil => exact h
  | cons request rest ih =>
    obtain ⟨hfirst, hrest⟩ := List.forall_mem_cons.1 hrequests
    exact ih (get?_exchange_of_not_touches h hfirst) hrest

/-- Whether what is kept as a pod can be read as one, and has the name that it is kept under. -/
def KeepsPods (cluster : Cluster) : Prop :=
  ∀ ns name doc, cluster.get? ⟨.pod, ns, name⟩ = some doc →
    ∃ pod, Pod.codec.decode doc = .ok pod ∧ pod.name = name

theorem KeepsPods.namesPods (h : cluster.KeepsPods) : cluster.NamesPods := by
  intro ns name doc pod hdoc hreads
  obtain ⟨pod', hreads', hname⟩ := h ns name doc hdoc
  obtain rfl : pod = pod' := Except.ok.inj (hreads.symm.trans hreads')
  exact hname

theorem KeepsPods.listable (h : cluster.KeepsPods) (ns : String) (job : Job) :
    Pass.Listable cluster ns job := by
  rintro ⟨kind, ns', name⟩ doc hdoc hlisted
  obtain rfl : kind = .pod := Pass.kind_of_isListed hlisted
  obtain ⟨pod, hreads, -⟩ := h ns' name doc hdoc
  exact ⟨pod, hreads⟩

theorem KeepsPods.insert (h : cluster.KeepsPods) {ns name : String}
    (hpod : ∃ pod, Pod.codec.decode doc = .ok pod ∧ pod.name = name) :
    KeepsPods (SortedMap.insert cluster ⟨.pod, ns, name⟩ doc) := by
  intro ns' name' doc' hdoc'
  rw [SortedMap.get?_insert] at hdoc'
  split at hdoc'
  · rename_i heq
    cases heq
    cases hdoc'
    exact hpod
  · exact h ns' name' doc' hdoc'

end Cluster

/-! ### Which pods are listed -/

/-- Whether a pod is one of a job's: its label names the job, and one of the controllers that it names
is the job. -/
structure Identity.Owns (identity : Identity) (pod : Pod) : Prop where
  label : pod.metadata.label? appLabel = some identity.name
  controller : ∃ owner ∈ pod.metadata.ownerReferences.getD [], owner.controller = some true ∧
    owner.apiVersion = Job.apiVersion ∧ owner.kind = Job.kind ∧ owner.name = identity.name ∧
    owner.uid = identity.uid

namespace Pass

variable {job : Job} {identity : Identity} {cluster : Cluster} {pod : Pod}

theorem controls_iff (hid : Identity.ofJob job = .ok identity) (metadata : ObjectMeta) :
    job.controls metadata = true ↔ ∃ owner ∈ metadata.ownerReferences.getD [],
      owner.controller = some true ∧ owner.apiVersion = Job.apiVersion ∧ owner.kind = Job.kind ∧
        owner.name = identity.name ∧ owner.uid = identity.uid := by
  obtain ⟨-, -, huid⟩ := Identity.ofJob_eq_ok.1 hid
  simp only [Job.controls, List.any_eq_true, Job.isControllerIn, huid, Identity.name_of_ofJob hid,
    Option.all_some, Bool.and_eq_true, beq_iff_eq]
  constructor
  · rintro ⟨owner, howner, ⟨⟨⟨hcontroller, hkind⟩, hversion⟩, hname⟩, huid⟩
    exact ⟨owner, howner, hcontroller, hversion, hkind, hname, huid.symm⟩
  · rintro ⟨owner, howner, hcontroller, hversion, hkind, hname, huid⟩
    exact ⟨owner, howner, ⟨⟨⟨hcontroller, hkind⟩, hversion⟩, hname⟩, huid.symm⟩

/-- A pod is one of a job's if the server selects it for the job and the job controls it. -/
theorem ownedPod?_pod_iff (hid : Identity.ofJob job = .ok identity) {ns name : String} {doc : Json} :
    ownedPod? identity.namespace job (⟨.pod, ns, name⟩, doc) = some pod ↔
      ns = identity.namespace ∧ Pod.codec.decode doc = .ok pod ∧ identity.Owns pod := by
  rw [ownedPod?_eq_some, controls_iff hid]
  simp only [isListed, beq_self_eq_true, Bool.true_and, Bool.and_eq_true, beq_iff_eq,
    Cluster.selected, Identity.name_of_ofJob hid]
  constructor
  · rintro ⟨⟨rfl, hlabel⟩, hreads, hcontroller⟩
    rw [Pod.label?_of_decode hreads] at hlabel
    obtain ⟨text, htext, hname⟩ := Option.map_eq_some_iff.1 hlabel
    cases hname
    exact ⟨rfl, hreads, htext, hcontroller⟩
  · rintro ⟨rfl, hreads, hlabel, hcontroller⟩
    rw [Pod.label?_of_decode hreads, hlabel]
    exact ⟨⟨rfl, rfl⟩, hreads, hcontroller⟩

theorem owns_of_mem_ownedPods (hid : Identity.ofJob job = .ok identity)
    (h : pod ∈ ownedPods cluster identity.namespace job) : identity.Owns pod := by
  obtain ⟨⟨kind, ns, name⟩, doc, -, hfound⟩ := mem_ownedPods.1 h
  obtain rfl : kind = .pod := kind_of_isListed (ownedPod?_eq_some.1 hfound).1
  exact ((ownedPod?_pod_iff hid).1 hfound).2.2

/-- When pods are kept under their own names, a job's list has each of its pods once. -/
theorem mem_ownedPods_iff (hid : Identity.ofJob job = .ok identity) (hkeeps : cluster.KeepsPods) :
    pod ∈ ownedPods cluster identity.namespace job ↔ identity.Owns pod ∧
      ∃ doc, cluster.get? ⟨.pod, identity.namespace, pod.name⟩ = some doc ∧
        Pod.codec.decode doc = .ok pod := by
  constructor
  · intro h
    obtain ⟨doc, hdoc, hfound⟩ := get?_of_mem_ownedPods hkeeps.namesPods h
    obtain ⟨-, hreads, howns⟩ := (ownedPod?_pod_iff hid).1 hfound
    exact ⟨howns, doc, hdoc, hreads⟩
  · rintro ⟨howns, doc, hdoc, hreads⟩
    exact mem_ownedPods.2 ⟨_, doc, hdoc, (ownedPod?_pod_iff hid).2 ⟨rfl, hreads, howns⟩⟩

/-! ### What is created -/

/-- A pod names one controller when a job has taken it, so it is that job's alone. -/
theorem not_owns_owned {other : Identity} (hlabel : pod.metadata.label? appLabel = some identity.name)
    (hother : other.name ≠ identity.name ∨ other.uid ≠ identity.uid) :
    ¬ other.Owns (identity.owned .pod pod) := by
  rintro ⟨hlabel', owner, howner, -, -, -, -, huid⟩
  rcases hother with hname | hne
  · exact hname (Option.some.inj (hlabel'.symm.trans hlabel))
  · obtain rfl := List.mem_singleton.1 howner
    exact hne huid.symm

/-- Creating a replica succeeds for the roles of a job, and creates the pod where its name is free. -/
theorem run_createReplica_eq (hid : Identity.ofJob job = .ok identity)
    (hns : identity.namespace.toList.all mayStandInPath = true) {role : String} {index : Int32}
    {images : Images} (hpod : job.replica role index images = .ok pod) (cluster : Cluster) :
    (createReplica job identity images role index).run store cluster =
      (.ok (!cluster.contains ⟨.pod, identity.namespace, Names.pod identity.name role index⟩),
        cluster.addMissing ⟨.pod, identity.namespace, Names.pod identity.name role index⟩
          (Pod.codec.encode (identity.owned .pod pod))) := by
  rw [← name_of_replica hid hpod, createReplica, hpod]
  exact run_createOwned (show Kind.pod ≠ .job by decide) hns pod _ cluster

/-- A replica is created only where its name is free, and is then kept there. -/
theorem of_createReplica (hid : Identity.ofJob job = .ok identity)
    (hns : identity.namespace.toList.all mayStandInPath = true) {role : String} {index : Int32}
    {images : Images} {cluster' : Cluster}
    (h : (createReplica job identity images role index).run store cluster = (.ok true, cluster')) :
    ∃ pod, job.replica role index images = .ok pod ∧
      cluster.get? ⟨.pod, identity.namespace, Names.pod identity.name role index⟩ = none ∧
        cluster' = SortedMap.insert cluster
          ⟨.pod, identity.namespace, Names.pod identity.name role index⟩
          (Pod.codec.encode (identity.owned .pod pod)) := by
  cases hpod : job.replica role index images with
  | error e =>
    rw [createReplica, hpod] at h
    cases h
  | ok pod =>
    rw [run_createReplica_eq hid hns hpod, Prod.mk.injEq, Except.ok.injEq, Bool.not_eq_true'] at h
    obtain ⟨hfree, rfl⟩ := h
    refine ⟨pod, rfl, SortedMap.contains_eq_false_iff.1 hfree, ?_⟩
    rw [Cluster.addMissing, hfree]
    rfl

theorem createReplica_creates_iff (hid : Identity.ofJob job = .ok identity)
    (hns : identity.namespace.toList.all mayStandInPath = true) (images : Images) (role : String)
    (index : Int32) (cluster : Cluster) :
    ((createReplica job identity images role index).run store cluster).1 = .ok true ↔
      job.spec.roles.contains role = true ∧
        cluster.contains ⟨.pod, identity.namespace, Names.pod identity.name role index⟩ = false := by
  cases hrole : job.spec.roles.get? role with
  | none =>
    have hno : job.spec.roles.contains role = false := SortedMap.contains_eq_false_iff.2 hrole
    simp only [createReplica, Job.replica, hrole, hno, Bool.false_eq_true, false_and, iff_false]
    intro h
    cases h
  | some definition =>
    have hyes : job.spec.roles.contains role = true := SortedMap.contains_iff.2 ⟨definition, hrole⟩
    obtain ⟨pod, hpod⟩ := replica_eq_ok hrole index images
    simp only [run_createReplica_eq hid hns hpod, hyes, Except.ok.injEq, Bool.not_eq_true', true_and]

/-- Whether a job's lists have a pod for as long as a document is kept under a key, and no lists of
another job have it. -/
structure Listed (job : Job) (identity : Identity) (key : ObjectKey) (doc : Json) (pod : Pod) :
    Prop where
  shown : ∀ cluster pods, cluster.get? key = some doc →
    (store (.listPods job) cluster).1 = .ok pods → pod ∈ pods
  hidden : ∀ other otherIdentity, Identity.ofJob other = .ok otherIdentity →
    otherIdentity.name ≠ identity.name ∨ otherIdentity.uid ≠ identity.uid →
      ∀ cluster pods, (store (.listPods other) cluster).1 = .ok pods → pod ∉ pods

theorem eq_ownedPods_of_listed (hid : Identity.ofJob job = .ok identity) {pods : List Pod}
    (h : (store (.listPods job) cluster).1 = .ok pods) :
    pods = ownedPods cluster identity.namespace job := by
  obtain ⟨hns, -⟩ := Identity.ofJob_eq_ok.1 hid
  exact ((store_listPods_iff hns).1 (Prod.ext h rfl)).2.2.2

theorem listed_of_replica (hid : Identity.ofJob job = .ok identity) {role : String} {index : Int32}
    {images : Images} (hpod : job.replica role index images = .ok pod) :
    Listed job identity ⟨.pod, identity.namespace, Names.pod identity.name role index⟩
      (Pod.codec.encode (identity.owned .pod pod)) (identity.owned .pod pod) where
  shown cluster pods hdoc hlist := by
    rw [eq_ownedPods_of_listed hid hlist]
    rw [← name_of_replica hid hpod] at hdoc
    exact mem_ownedPods.2 ⟨_, _, hdoc, ownedPod?_entry hid hpod⟩
  hidden other otherIdentity hother hne cluster pods hlist hmem := by
    obtain ⟨-, -, hlabel, -⟩ := of_replica hpod
    rw [Identity.name_of_ofJob hid] at hlabel
    rw [eq_ownedPods_of_listed hother hlist] at hmem
    exact not_owns_owned hlabel hne (owns_of_mem_ownedPods hother hmem)

end Pass

namespace Sample

/-- The small job with its second replica, and a pod that has the job's label but is not the job's. -/
def crowded : Cluster :=
  let stray : Json := .obj
    [("metadata", .obj [("name", .str "stray"), ("labels", .obj [("app", .str "train")])])]
  (posted.insert ⟨.pod, "default", "train-worker-1"⟩
    (podOf "train-worker-1" (.obj [("phase", .str "Running")]))).insert
      ⟨.pod, "default", "stray"⟩ stray

theorem keepsPods_crowded : crowded.KeepsPods := by
  have hposted : posted.KeepsPods := by
    intro ns name doc hdoc
    rw [get?_posted_ne (by simp [key])] at hdoc
    cases hdoc
  refine (hposted.insert ?_).insert ?_
  · exact ⟨_, rfl, rfl⟩
  · exact ⟨_, rfl, rfl⟩

end Sample

namespace Pass

variable {job : Job} {identity : Identity}

/-- A job's list succeeds when pods are kept under their own names. It has, in the order of their
names, the pods of the job's namespace that are the job's. A replica can be created for each role of
the job where its name is free. It is then kept as it was made, and nothing else is changed; until it
is deleted or changed, each list of the job has it, and no list of a job of another name or uid ever
has it. -/
theorem owned_pods_listed (images : Images) (hid : Identity.ofJob job = .ok identity)
    (hns : identity.namespace.toList.all mayStandInPath = true) :
    (∀ cluster : Cluster, cluster.KeepsPods →
      ∃ pods, store (.listPods job) cluster = (.ok pods, cluster) ∧
        (pods.Pairwise fun a b => a.name < b.name) ∧
        ∀ pod, pod ∈ pods ↔ identity.Owns pod ∧
          ∃ doc, cluster.get? ⟨.pod, identity.namespace, pod.name⟩ = some doc ∧
            Pod.codec.decode doc = .ok pod) ∧
      ∀ role index, let key : ObjectKey :=
          ⟨.pod, identity.namespace, Names.pod identity.name role index⟩
        (∀ cluster, ((createReplica job identity images role index).run store cluster).1 = .ok true ↔
          job.spec.roles.contains role = true ∧ cluster.contains key = false) ∧
        ∀ cluster cluster' : Cluster,
          (createReplica job identity images role index).run store cluster = (.ok true, cluster') →
          ∃ pod doc, job.replica role index images = .ok pod ∧
            Pod.codec.decode doc = .ok (identity.owned .pod pod) ∧
            cluster' = SortedMap.insert cluster key doc ∧
            (cluster.KeepsPods → cluster'.KeepsPods) ∧
            (∀ requests : List Request, (∀ request ∈ requests, ¬ request.Touches key) →
              (cluster'.serve requests).get? key = some doc) ∧
            Listed job identity key doc (identity.owned .pod pod) := by
  refine ⟨fun cluster hkeeps => ?_, fun role index => ⟨?_, fun cluster cluster' hrun => ?_⟩⟩
  · obtain ⟨hnamespace, -⟩ := Identity.ofJob_eq_ok.1 hid
    exact ⟨ownedPods cluster identity.namespace job,
      (store_listPods_iff hnamespace).2 ⟨hns, rfl, hkeeps.listable _ job, rfl⟩,
      ownedPods_increasing hkeeps.namesPods _ job, fun pod => mem_ownedPods_iff hid hkeeps⟩
  · exact createReplica_creates_iff hid hns images role index
  · obtain ⟨pod, hpod, -, rfl⟩ := of_createReplica hid hns hrun
    have hreads : Pod.codec.decode (Pod.codec.encode (identity.owned .pod pod)) =
        .ok (identity.owned .pod pod) :=
      (Kind.codec_lawful (show Kind.pod ≠ .job by decide) _).roundTrips
    have hname : (identity.owned .pod pod).name = Names.pod identity.name role index :=
      (identity.nameAny_owned .pod pod).trans (name_of_replica hid hpod)
    exact ⟨pod, _, hpod, hreads, rfl, fun hkeeps => hkeeps.insert ⟨_, hreads, hname⟩,
      fun requests => Cluster.get?_serve_of_not_touches (SortedMap.get?_insert_self _ _ _),
      listed_of_replica hid hpod⟩

/-- The pod that is not the small job's is passed over. Once the first replica is created, the job's
list has it before the second, and the list of a later job of the same name does not. -/
theorem owned_pods_listed_crowded :
    let identity : Identity := ⟨"train", "default", "u1"⟩
    let renewed : Job := { Sample.job with metadata := { Sample.job.metadata with uid := some "u2" } }
    let create := createReplica Sample.job identity {} "worker" 0
    let after := (create.run store Sample.crowded).2
    Sample.crowded.KeepsPods ∧
      (∃ pods, store (.listPods Sample.job) Sample.crowded = (.ok pods, Sample.crowded) ∧
        pods.map Pod.name = ["train-worker-1"]) ∧
      create.run store Sample.crowded = (.ok true, after) ∧
      ∃ pod, pod.name = "train-worker-0" ∧
        (∃ pods, store (.listPods Sample.job) after = (.ok pods, after) ∧ pod ∈ pods ∧
          pods.map Pod.name = ["train-worker-0", "train-worker-1"]) ∧
        ∃ pods, store (.listPods renewed) after = (.ok pods, after) ∧ pod ∉ pods := by
  intro identity renewed create after
  have hid : Identity.ofJob Sample.job = .ok identity := rfl
  have hrenewed : Identity.ofJob renewed = .ok ⟨"train", "default", "u2"⟩ := rfl
  have hlist : (store (.listPods Sample.job) Sample.crowded).1.map (List.map Pod.name) =
      .ok ["train-worker-1"] := by decide +kernel
  have hlater : (store (.listPods Sample.job) after).1.map (List.map Pod.name) =
      .ok ["train-worker-0", "train-worker-1"] := by decide +kernel
  obtain ⟨hlists, hcreates⟩ := owned_pods_listed {} hid (by decide)
  obtain ⟨hiff, hkept⟩ := hcreates "worker" 0
  have hrun : create.run store Sample.crowded = (.ok true, after) :=
    Prod.ext ((hiff Sample.crowded).2 ⟨rfl, by decide +kernel⟩) rfl
  obtain ⟨pod, doc, hpod, -, hafter, hkeeps, -, hlisted⟩ := hkept _ _ hrun
  have hdoc : after.get? ⟨.pod, "default", Names.pod "train" "worker" 0⟩ = some doc := by
    rw [hafter]
    exact SortedMap.get?_insert_self _ _ _
  obtain ⟨pods, hpods, -, -⟩ := hlists _ Sample.keepsPods_crowded
  obtain ⟨pods', hpods', -, -⟩ := hlists _ (hkeeps Sample.keepsPods_crowded)
  obtain ⟨others, hothers, -, -⟩ := (owned_pods_listed {} hrenewed (by decide)).1 _
    (hkeeps Sample.keepsPods_crowded)
  rw [hpods] at hlist
  rw [hpods'] at hlater
  have hname : Names.pod "train" "worker" 0 = "train-worker-0" := by decide +kernel
  exact ⟨Sample.keepsPods_crowded, ⟨pods, hpods, Except.ok.inj hlist⟩, hrun,
    identity.owned .pod pod, (name_of_replica hid hpod).trans hname,
    ⟨pods', hpods', hlisted.shown _ _ hdoc (congrArg Prod.fst hpods'), Except.ok.inj hlater⟩,
    others, hothers, hlisted.hidden _ _ hrenewed (.inr (by decide)) _ _ (congrArg Prod.fst hothers)⟩

end Pass

end JobOperator
