import JobOperator.Proofs.Job.Renewal
import JobOperator.Proofs.Pass.Growth

/-!
A pass over a job that goes on, in a cluster that answers every request. It ends well exactly when
all that it reads can be read and no pod asks for the job to stop; the cluster then has what was
missing, and the job the status that follows from the pods.
-/

namespace JobOperator

open Client

/-- Whether the object under a key, if it can be read, has the namespace and the name of the key. -/
def Cluster.Homed (cluster : Cluster) (key : ObjectKey) : Prop :=
  ∀ doc object, cluster.get? key = some doc → key.kind.codec.decode doc = .ok object →
    (key.kind.metadata object).namespace = some key.namespace ∧
      (key.kind.metadata object).nameAny = key.name

/-- Where a cluster keeps the job of an identity. -/
def Identity.key (identity : Identity) : ObjectKey := ⟨.job, identity.namespace, identity.name⟩

namespace Pass

variable {settings : PassSettings} {now : Instant} {job : Job} {identity : Identity}
  {start cluster after : Cluster} {doc : Json}

/-- The status that follows from the pods of a cluster as long as the job goes on. -/
def nextStatus (now : Instant) (job : Job) (identity : Identity) (cluster : Cluster) : JobStatus :=
  { begin now job.statusOrEmpty with
    roleStatuses := countRoles (ownedPods cluster identity.namespace job) identity.name
      job.spec.roles.toList job.statusOrEmpty.roleStatuses }

/-- The number of pods that a pass creates in a cluster. -/
def createdIn (settings : PassSettings) (job : Job) (identity : Identity) (cluster : Cluster) :
    Nat :=
  (cluster.addAll (children job identity settings.servicePort)).missing
    (missingPods job identity settings.images (ownedPods cluster identity.namespace job)
      job.spec.roles.toList)

/-- The cluster that a pass over a job that goes on leaves, given the document of the job. -/
def progressed (settings : PassSettings) (now : Instant) (job : Job) (identity : Identity)
    (doc : Json) (cluster : Cluster) : Cluster :=
  (cluster.addAll (creationsIn settings job identity cluster)).insert identity.key
    (doc.mergePatch (statusPatch (job.withStatus (nextStatus now job identity cluster))))

/-- Whether a pass over the job of this document comes as far as the status, and the job goes on. -/
structure Ready (job : Job) (identity : Identity) (doc : Json) (cluster : Cluster) : Prop where
  path : hasPath identity.namespace identity.name = true
  stored : cluster.get? identity.key = some doc
  reads : Job.codec.decode doc = .ok job
  unfinished : job.state ≠ .complete
  identified : Identity.ofJob job = .ok identity
  children : ∀ kind ∈ childKinds job, Readable cluster kind identity.namespace identity.name
  listable : Listable cluster identity.namespace job
  quiet : ∀ pod ∈ ownedPods cluster identity.namespace job, pod.requestsStop = false

/-- Whether a pass goes through all its steps: the job can still be read with its new status. -/
structure Proceeds (now : Instant) (job : Job) (identity : Identity) (doc : Json)
    (cluster : Cluster) : Prop extends Ready job identity doc cluster where
  written : ∃ job', Job.codec.decode (doc.mergePatch
    (statusPatch (job.withStatus (nextStatus now job identity cluster)))) = .ok job'

/-! ### What does not depend on other objects -/

/-- The objects that a job has one of are no pods. -/
theorem get?_addAll_children {port : Int32} {key : ObjectKey} (hkey : key.kind = .pod) :
    cluster.get? key = (cluster.addAll (children job identity port)).get? key := by
  have hnone : Cluster.firstOf key (children job identity port) = none := by
    refine Cluster.firstOf_eq_none_iff.2 ?_
    rintro e he rfl
    exact (childKinds_ne (kind_of_mem_children he)).2 hkey
  rw [Cluster.get?_addAll, hnone, Option.or_none]

theorem get?_job_addAll {wanted : List (ObjectKey × Json)}
    (hwanted : ∀ e ∈ wanted, e.1.kind ≠ .job) {key : ObjectKey} (hkey : key.kind = .job) :
    (cluster.addAll wanted).get? key = cluster.get? key := by
  have hnone : Cluster.firstOf key wanted = none := by
    refine Cluster.firstOf_eq_none_iff.2 ?_
    rintro e he rfl
    exact hwanted e he hkey
  rw [Cluster.get?_addAll, hnone, Option.or_none]

theorem get?_progressed_ne {key : ObjectKey} (hkey : key ≠ identity.key) :
    (progressed settings now job identity doc cluster).get? key =
      (cluster.addAll (creationsIn settings job identity cluster)).get? key :=
  SortedMap.get?_insert_ne _ hkey _

theorem get?_progressed_key : (progressed settings now job identity doc cluster).get? identity.key =
    some (doc.mergePatch (statusPatch (job.withStatus (nextStatus now job identity cluster)))) :=
  SortedMap.get?_insert_self _ _ _

/-! ### The pods -/

theorem find?_requestsStop {pods : List Pod} :
    pods.find? Pod.requestsStop = none ↔ ∀ pod ∈ pods, pod.requestsStop = false := by
  rw [List.find?_eq_none]
  simp only [Bool.not_eq_true]

theorem get?_roles (job : Job) : ∀ r ∈ job.spec.roles.toList, job.spec.roles.get? r.1 = some r.2 :=
  fun _ hr => SortedMap.get?_eq_some_iff.2 hr

theorem run_syncPods (hid : Identity.ofJob job = .ok identity)
    (hns : identity.namespace.toList.all mayStandInPath = true)
    (hlistable : Listable cluster identity.namespace job)
    (hquiet : ∀ pod ∈ ownedPods cluster identity.namespace job, pod.requestsStop = false) :
    (syncPods job identity settings.images now (begin now job.statusOrEmpty)).run store cluster =
      (.ok (.progressing (cluster.missing (missingPods job identity settings.images
          (ownedPods cluster identity.namespace job) job.spec.roles.toList)),
        nextStatus now job identity cluster),
        cluster.addAll (missingPods job identity settings.images
          (ownedPods cluster identity.namespace job) job.spec.roles.toList)) := by
  obtain ⟨hjobns, -, -⟩ := Identity.ofJob_eq_ok.1 hid
  have hlist : store (.listPods job) cluster =
      (.ok (ownedPods cluster identity.namespace job), cluster) :=
    (store_listPods_iff hjobns).2 ⟨hns, rfl, hlistable, rfl⟩
  rw [syncPods, Program.run_bind_of_ok (Program.run_perform_eq_ok.2 hlist)]
  simp only [find?_requestsStop.2 hquiet]
  rw [Program.run_bind_of_ok (run_syncRoles hns (get?_roles job) _ _ _), Nat.zero_add]
  rfl

/-- Looking after the pods of a job that goes on shows that they can be read and are quiet. -/
theorem of_run_syncPods (hid : Identity.ofJob job = .ok identity) {created : Nat}
    {status : JobStatus}
    (h : (syncPods job identity settings.images now (begin now job.statusOrEmpty)).run store
      cluster = (.ok (.progressing created, status), after)) :
    Listable cluster identity.namespace job ∧
      ∀ pod ∈ ownedPods cluster identity.namespace job, pod.requestsStop = false := by
  obtain ⟨hjobns, -, -⟩ := Identity.ofJob_eq_ok.1 hid
  rw [syncPods] at h
  obtain ⟨pods, _, hlist, h⟩ := Program.run_bind_eq_ok.1 h
  obtain ⟨-, -, hlistable, rfl⟩ := (store_listPods_iff hjobns).1 (Program.run_perform_eq_ok.1 hlist)
  refine ⟨hlistable, ?_⟩
  cases hfind : (ownedPods cluster identity.namespace job).find? Pod.requestsStop with
  | none => exact find?_requestsStop.1 hfind
  | some pod =>
    rw [hfind] at h
    obtain ⟨statuses, _, -, h⟩ := Program.run_bind_eq_ok.1 h
    cases h

/-! ### The pass -/

theorem run_prepare (h : Ready job identity doc cluster) :
    (prepare settings now job).run store cluster =
      (.ok (.progressing (createdIn settings job identity cluster),
        nextStatus now job identity cluster),
        cluster.addAll (creationsIn settings job identity cluster)) := by
  let withChildren := cluster.addAll (children job identity settings.servicePort)
  have hpods : ownedPods withChildren identity.namespace job =
      ownedPods cluster identity.namespace job :=
    (ownedPods_congr fun _ hkey => get?_addAll_children hkey).symm
  have hlistable : Listable withChildren identity.namespace job :=
    (listable_congr fun _ hkey => get?_addAll_children hkey).1 h.listable
  have hquiet : ∀ pod ∈ ownedPods withChildren identity.namespace job,
      pod.requestsStop = false := by
    rw [hpods]
    exact h.quiet
  have hidentity : (Program.ofExcept (Identity.ofJob job)).run store cluster =
      (.ok identity, cluster) := Program.run_ofExcept_eq_ok.2 ⟨h.identified, rfl⟩
  rw [prepare, Program.run_bind_of_ok hidentity,
    Program.run_bind_of_ok (run_syncChildren h.path h.children),
    run_syncPods h.identified (hasPath_ns h.path) hlistable hquiet, hpods, nextStatus, hpods,
    ← Cluster.addAll_append]
  rfl

theorem get?_key_addAll_creations {pods : List Pod} :
    (cluster.addAll (creations settings job identity pods)).get? identity.key =
      cluster.get? identity.key :=
  get?_job_addAll (fun _ he => kind_of_mem_creations he) rfl

/-- The status is written over the job, which must still be one after that. -/
theorem store_writeStatus_of_ofJob (hid : Identity.ofJob job = .ok identity)
    (hpath : hasPath identity.namespace identity.name = true)
    (hstored : cluster.get? identity.key = some doc) (status : JobStatus) :
    (store (.writeStatus (job.withStatus status)) cluster).2 =
        cluster.insert identity.key (doc.mergePatch (statusPatch (job.withStatus status))) ∧
      ((store (.writeStatus (job.withStatus status)) cluster).1 = .ok () ↔
        ∃ job', Job.codec.decode (doc.mergePatch (statusPatch (job.withStatus status))) =
          .ok job') := by
  obtain ⟨hns, -, -⟩ := Identity.ofJob_eq_ok.1 hid
  have hname := Identity.name_of_ofJob hid
  have hkey : identity.key = ⟨.job, identity.namespace, job.name⟩ := by
    rw [hname]
    rfl
  rw [← hname] at hpath
  rw [hkey] at hstored ⊢
  have hstatusns : (job.withStatus status).metadata.namespace = some identity.namespace := hns
  exact store_writeStatus hstatusns hpath hstored

theorem store_writeStatus_of_ready (settings : PassSettings)
    (h : Ready job identity doc cluster) (status : JobStatus) :
    (store (.writeStatus (job.withStatus status))
        (cluster.addAll (creationsIn settings job identity cluster))).2 =
      (cluster.addAll (creationsIn settings job identity cluster)).insert identity.key
        (doc.mergePatch (statusPatch (job.withStatus status))) ∧
    ((store (.writeStatus (job.withStatus status))
        (cluster.addAll (creationsIn settings job identity cluster))).1 = .ok () ↔
      ∃ job', Job.codec.decode (doc.mergePatch (statusPatch (job.withStatus status))) =
        .ok job') :=
  store_writeStatus_of_ofJob h.identified h.path (get?_key_addAll_creations.trans h.stored) status

theorem Ready.store_get (h : Ready job identity doc cluster) :
    store (.get .job identity.namespace identity.name) cluster = (.ok (some job), cluster) :=
  Client.store_get.2 ⟨h.path, rfl, .inr ⟨doc, job, h.stored, h.reads, rfl⟩⟩

/-- A pass that can go through all its steps does, and the job goes on. -/
theorem run_program_of_proceeds (settings : PassSettings)
    (h : Proceeds now job identity doc cluster) :
    (program settings now identity.namespace identity.name).run store cluster =
      (.ok (.progressing (createdIn settings job identity cluster)),
        progressed settings now job identity doc cluster) := by
  obtain ⟨hcluster, hanswer⟩ := store_writeStatus_of_ready settings h.toReady
    (nextStatus now job identity cluster)
  have hwrite : store (.writeStatus (job.withStatus (nextStatus now job identity cluster)))
      (cluster.addAll (creationsIn settings job identity cluster)) =
        (.ok (), progressed settings now job identity doc cluster) :=
    Prod.ext (hanswer.2 h.written) hcluster
  rw [program, Program.run_bind_of_ok (Program.run_perform_eq_ok.2 h.store_get)]
  simp only [if_neg (Ne.symm h.unfinished)]
  rw [ofJob_eq, Program.run_bind_of_ok (run_prepare h.toReady), persist,
    Program.run_bind_of_ok (Program.run_perform_eq_ok.2 hwrite)]
  rfl

/-- A pass that finds that the job goes on was ready to. -/
theorem ready_of_run_prepare {ns name : String} {created : Nat} {status : JobStatus}
    (hpath : hasPath ns name = true) (hstored : cluster.get? ⟨.job, ns, name⟩ = some doc)
    (hreads : Job.codec.decode doc = .ok job) (hunfinished : job.state ≠ .complete)
    (hname : job.metadata.namespace = some ns ∧ job.name = name)
    (h : (prepare settings now job).run store cluster =
      (.ok (.progressing created, status), after)) :
    ∃ identity, identity.namespace = ns ∧ identity.name = name ∧ Ready job identity doc cluster := by
  obtain ⟨hns, hname⟩ := hname
  rw [prepare] at h
  obtain ⟨identity, _, hidentity, h⟩ := Program.run_bind_eq_ok.1 h
  obtain ⟨hid, rfl⟩ := Program.run_ofExcept_eq_ok.1 hidentity
  obtain rfl : identity.namespace = ns :=
    Option.some.inj ((Identity.ofJob_eq_ok.1 hid).1.symm.trans hns)
  obtain rfl : identity.name = name := (Identity.name_of_ofJob hid).symm.trans hname
  obtain ⟨_, _, hchildren, hpods⟩ := Program.run_bind_eq_ok.1 h
  have hread := readable_of_run_syncChildren hpath hchildren
  rw [run_syncChildren hpath hread] at hchildren
  cases hchildren
  obtain ⟨hlistable, hquiet⟩ := of_run_syncPods hid hpods
  rw [← listable_congr fun _ hkey => get?_addAll_children hkey] at hlistable
  rw [← ownedPods_congr fun _ hkey => get?_addAll_children hkey] at hquiet
  exact ⟨identity, rfl, rfl, hpath, hstored, hreads, hunfinished, hid, hread, hlistable, hquiet⟩

/-- A pass after which the job goes on has gone through all its steps. -/
theorem proceeds_of_run_program {ns name : String} {created : Nat}
    (hhomed : cluster.Homed ⟨.job, ns, name⟩)
    (h : (program settings now ns name).run store cluster = (.ok (.progressing created), after)) :
    ∃ job identity doc, identity.namespace = ns ∧ identity.name = name ∧
      Proceeds now job identity doc cluster := by
  rw [program] at h
  obtain ⟨found, _, hget, h⟩ := Program.run_bind_eq_ok.1 h
  obtain ⟨hpath, hsame, hfound⟩ := store_get.1 (Program.run_perform_eq_ok.1 hget)
  rw [hsame] at h
  rcases hfound with ⟨rfl, -⟩ | ⟨doc, job, hstored, hreads, rfl⟩
  · cases h
  · simp only at h
    split at h
    · cases h
    · rename_i hstate
      rw [ofJob_eq] at h
      obtain ⟨⟨pods, status⟩, prepared, hprepare, hpersist⟩ := Program.run_bind_eq_ok.1 h
      rw [persist] at hpersist
      obtain ⟨_, _, hwrite, hdone⟩ := Program.run_bind_eq_ok.1 hpersist
      have hpods : pods = .progressing created := by
        cases pods with
        | progressing n =>
          cases hdone
          rfl
        | stopped requestedBy => cases hdone
      subst hpods
      obtain ⟨identity, rfl, rfl, hready⟩ := ready_of_run_prepare hpath hstored hreads
        (Ne.symm hstate) (hhomed doc job hstored hreads) hprepare
      rw [run_prepare hready] at hprepare
      cases hprepare
      have hanswer := congrArg Prod.fst (Program.run_perform_eq_ok.1 hwrite)
      exact ⟨job, identity, doc, rfl, rfl, hready,
        (store_writeStatus_of_ready settings hready _).2.1 hanswer⟩

/-! ### In a cluster that passes have added to -/

theorem grown_progressed : Cluster.Grown (creationsIn settings job identity start) identity.key start
    (progressed settings now job identity doc start) :=
  ((Cluster.Grown.refl _ _ _).addAll fun _ he => he).of_get?_eq fun _ hkey =>
    get?_progressed_ne hkey

section

variable {later : Job} {doc' : Json} (hresumes : job.Resumes later)
  (hgrown : Cluster.Grown (creationsIn settings job identity start) identity.key start cluster)

include hresumes hgrown

/-- A pass comes as far in a cluster that passes have added to. -/
theorem Ready.of_grown (h : Ready job identity doc start)
    (hstored : cluster.get? identity.key = some doc') (hreads : Job.codec.decode doc' = .ok later) :
    Ready later identity doc' cluster := by
  have hid := h.identified
  have hunfinished := hresumes.unfinished
  obtain ⟨status, rfl⟩ := hresumes.exists_eq
  refine ⟨h.path, hstored, hreads, Job.state_ne_complete_iff.2 hunfinished, hid, ?_, ?_, ?_⟩
  · intro kind hkind
    exact (readable_of_grown rfl hgrown (childKinds_ne hkind).1).2 (h.children kind hkind)
  · exact (listable_of_grown hid rfl hgrown).2 h.listable
  · exact requestsStop_of_grown hid rfl hgrown h.quiet

/-- A pass would have come as far at the start, unless a pod asked for the job to stop then. -/
theorem Ready.of_later (h : Ready later identity doc' cluster)
    (hstored : start.get? identity.key = some doc) (hreads : Job.codec.decode doc = .ok job)
    (hunfinished : job.state ≠ .complete)
    (hquiet : ∀ pod ∈ ownedPods start identity.namespace job, pod.requestsStop = false) :
    Ready job identity doc start := by
  obtain ⟨status, rfl⟩ := hresumes.exists_eq
  have hid : Identity.ofJob job = .ok identity := h.identified
  refine ⟨h.path, hstored, hreads, hunfinished, hid, ?_, ?_, hquiet⟩
  · intro kind hkind
    exact (readable_of_grown rfl hgrown (childKinds_ne hkind).1).1 (h.children kind hkind)
  · exact (listable_of_grown hid rfl hgrown).1 h.listable

/-- The pods count as they did at the start. -/
theorem roleStatuses_nextStatus (hid : Identity.ofJob job = .ok identity) (now now' : Instant) :
    (nextStatus now later identity cluster).roleStatuses =
      (nextStatus now' job identity start).roleStatuses := by
  obtain ⟨status, rfl⟩ := hresumes.exists_eq
  exact countRoles_congr (fun name => counterOf_of_grown hid rfl hgrown name) hresumes.others

/-- A pass leaves all but the job as a pass at the start would have left it. -/
theorem get?_progressed_of_grown (hid : Identity.ofJob job = .ok identity) {key : ObjectKey}
    (hkey : key ≠ identity.key) (now now' : Instant) :
    (progressed settings now later identity doc' cluster).get? key =
      (progressed settings now' job identity doc start).get? key := by
  obtain ⟨status, rfl⟩ := hresumes.exists_eq
  rw [get?_progressed_ne hkey, get?_progressed_ne hkey]
  exact get?_addAll_creationsIn hid rfl hgrown hkey

end

end Pass

/-! ### A small job -/

namespace Sample

/-- A moment in November of 2023. -/
def now : Instant := ⟨1700000000, 0⟩

theorem valid_now : now.Valid := ⟨by decide, by decide, by decide⟩

/-- Ten minutes after. -/
def later : Instant := ⟨1700000600, 0⟩

theorem valid_later : later.Valid := ⟨by decide, by decide, by decide⟩

/-- Where the small job is kept. -/
def key : ObjectKey := ⟨.job, "default", "train"⟩

/-- A job with one role, as it is posted. -/
def documentOf (replicas : Int) : Json := .obj
  [("metadata", .obj [("name", .str "train"), ("namespace", .str "default"), ("uid", .str "u1")]),
    ("spec", .obj [("roles", .obj [("worker", .obj [("replicas", .int replicas)])])])]

/-- The small job: its role has two replicas. -/
def document : Json := documentOf 2

/-- The small job as it is read. -/
def job : Job :=
  { metadata := { name := some "train", «namespace» := some "default", uid := some "u1" }
    spec := { roles := SortedMap.ofList [("worker", { replicas := 2 })] } }

theorem decode_document : Job.codec.decode document = .ok job := rfl

/-- A cluster with nothing but the small job. -/
def posted : Cluster := SortedMap.insert ∅ key document

theorem get?_posted_ne {k : ObjectKey} (h : k ≠ key) : posted.get? k = none :=
  SortedMap.get?_insert_ne _ h _

theorem homed_posted : posted.Homed key := by
  intro doc first hdoc hreads
  obtain rfl : document = doc := Option.some.inj hdoc
  obtain rfl : job = first := Except.ok.inj (decode_document.symm.trans hreads)
  exact ⟨rfl, rfl⟩

theorem homed_posted_of_ne {k : ObjectKey} (h : k ≠ key) : posted.Homed k := by
  intro doc object hdoc
  rw [get?_posted_ne h] at hdoc
  cases hdoc

theorem all_homed_posted (k : ObjectKey) : posted.Homed k := by
  by_cases hk : k = key
  · rw [hk]
    exact homed_posted
  · exact homed_posted_of_ne hk

/-- A cluster in which a pod of the small job asks for it to stop. -/
def stopping : Cluster :=
  let owner : Json := .obj
    [("apiVersion", .str "realai.cn/v1alpha1"), ("kind", .str "LpJob"), ("name", .str "train"),
      ("uid", .str "u1"), ("controller", .bool true)]
  let ended : Json := .obj
    [("name", .str "main"), ("state", .obj [("terminated", .obj [("exitCode", .int 25)])])]
  SortedMap.insert ∅ ⟨.pod, "default", "train-worker-1"⟩ <| .obj
    [("metadata", .obj [("name", .str "train-worker-1"), ("labels", .obj [("app", .str "train")]),
        ("ownerReferences", .arr [owner])]),
      ("status", .obj [("phase", .str "Failed"), ("containerStatuses", .arr [ended])])]

/-- Requests of a kind have their effect, but no answer. -/
def lost (verb : Verb) (kind : Kind) : Fault := { verb, kind, response := .dropped, applies := true }

theorem failing_lost (verb : Verb) (kind : Kind) : Failing [lost verb kind] := by
  intro fault hfault
  rw [List.mem_singleton.1 hfault]
  trivial

end Sample

end JobOperator
