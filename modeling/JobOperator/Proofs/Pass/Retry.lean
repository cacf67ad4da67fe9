import JobOperator.Proofs.Pass.Step

/-!
Passes that are made again and again over one job while requests fail. Whatever they leave behind has
grown from the start by objects that the first pass would have created, so the pass that goes through
at last makes of it what a single pass would have made of the start.
-/

namespace JobOperator

open Client

namespace Pass

variable {settings : PassSettings} {now now' : Instant} {job later : Job} {identity : Identity}
  {start cluster : Cluster} {doc : Json}

/-- The cluster after passes over a job, each with the faults of the server and the time of the
pass. -/
def retried (settings : PassSettings) (ns name : String) :
    (passes : List (List Fault × Instant)) → (start : Cluster) → Cluster
  | [], cluster => cluster
  | (faults, now) :: rest, cluster =>
    retried settings ns name rest
      ((program settings now ns name).run (handler Server.exchange) { cluster, faults }).2.cluster

/-! ### One pass -/

/-- A cluster that has grown from the start, with the job's document as it is. -/
def GrownWith (settings : PassSettings) (job : Job) (identity : Identity) (start : Cluster)
    (found : Option Json) (cluster : Cluster) : Prop :=
  Cluster.Grown (creationsIn settings job identity start) identity.key start cluster ∧
    cluster.get? identity.key = found

theorem keeps_grownWith {ε α : Type} {program : Program ε α} {Q : α → Prop} {found : Option Json}
    (h : program.Within (Call.Provides (creationsIn settings job identity start)) Q) :
    Keeps (GrownWith settings job identity start found) program Q := by
  refine keeps_of_within h fun c cluster hc hgrown => ⟨?_, ?_⟩
  · rcases store_adds hc.adds cluster with hsame | ⟨e, he, hadded⟩
    · rw [hsame]
      exact hgrown.1
    · rw [hadded]
      exact hgrown.1.addMissing he
  · have hspares : c.SparesJobs := hc.adds.sparesJobs fun _ he => kind_of_mem_creations he
    rw [store_sparesJobs hspares cluster rfl]
    exact hgrown.2

theorem identified_of_resumes (hresumes : job.Resumes later) :
    Identity.ofJob later = Identity.ofJob job := by
  obtain ⟨status, rfl⟩ := hresumes.exists_eq
  rfl

/-- Looking after the pods of the job as it is read later, a pass creates only what the first one
would have created, and the job goes on. -/
theorem keeps_syncPods (hid : Identity.ofJob job = .ok identity) (hresumes : job.Resumes later)
    (hquiet : ∀ pod ∈ ownedPods start identity.namespace job, pod.requestsStop = false)
    (found : Option Json) :
    Keeps (GrownWith settings job identity start found)
      (syncPods later identity settings.images now (begin now later.statusOrEmpty))
      fun result => Updates now later result ∧ ∃ created, result.1 = .progressing created := by
  have hlater : Identity.ofJob later = .ok identity := (identified_of_resumes hresumes).trans hid
  obtain ⟨hns, -, -⟩ := Identity.ofJob_eq_ok.1 hlater
  refine keeps_listPods.bind ?_
  rintro pods ⟨cluster, ⟨hgrown, -⟩, hlist⟩
  obtain ⟨-, -, -, rfl⟩ := (store_listPods_iff hns).1 hlist
  have hnow : ∀ pod ∈ ownedPods cluster identity.namespace later, pod.requestsStop = false := by
    obtain ⟨status, rfl⟩ := hresumes.exists_eq
    exact requestsStop_of_grown hid rfl hgrown hquiet
  have hcreated : ∀ e ∈ missingPods later identity settings.images
      (ownedPods cluster identity.namespace later) later.spec.roles.toList,
        e ∈ creationsIn settings job identity start := by
    obtain ⟨status, rfl⟩ := hresumes.exists_eq
    exact fun e he => creationsIn_subset hid rfl hgrown (List.mem_append_right _ he)
  rw [find?_requestsStop.2 hnow]
  refine (keeps_grownWith (within_syncRoles hcreated)).bind ?_
  rintro ⟨roleStatuses, created⟩ hroles
  exact keeps_pure ⟨⟨rfl, rfl, fun _ _ => ⟨rfl, _, _, hroles⟩, nofun⟩, created, rfl⟩

theorem keeps_prepare_of_resumes (hid : Identity.ofJob job = .ok identity)
    (hresumes : job.Resumes later)
    (hquiet : ∀ pod ∈ ownedPods start identity.namespace job, pod.requestsStop = false)
    (found : Option Json) :
    Keeps (GrownWith settings job identity start found) (prepare settings now later)
      fun result => Updates now later result ∧ ∃ created, result.1 = .progressing created := by
  refine keeps_ofExcept.bind fun identity' hidentity' => ?_
  rw [identified_of_resumes hresumes, hid] at hidentity'
  cases hidentity'
  have hchildren : ∀ e ∈ children later identity settings.servicePort,
      e ∈ creationsIn settings job identity start := by
    obtain ⟨status, rfl⟩ := hresumes.exists_eq
    exact fun e he => List.mem_append_left _ he
  refine (keeps_grownWith (within_syncChildren hchildren)).bind fun _ _ => ?_
  exact keeps_syncPods hid hresumes hquiet found

/-- What passes over a job leave as long as requests fail: the start has grown, and the job has at
most a new status. -/
structure Retried (settings : PassSettings) (job : Job) (identity : Identity) (doc : Json)
    (start cluster : Cluster) : Prop where
  grown : Cluster.Grown (creationsIn settings job identity start) identity.key start cluster
  renewed : ∃ now, cluster.get? identity.key = some now ∧ job.Renewed doc now

/-- The job from which passes start: it can be read, goes on, and no pod asks for it to stop. -/
structure Started (job : Job) (identity : Identity) (doc : Json) (start : Cluster) : Prop where
  stored : start.get? identity.key = some doc
  reads : Job.codec.decode doc = .ok job
  unfinished : job.state ≠ .complete
  identified : Identity.ofJob job = .ok identity
  quiet : ∀ pod ∈ ownedPods start identity.namespace job, pod.requestsStop = false

theorem Retried.homed (hstarted : Started job identity doc start)
    (h : Retried settings job identity doc start cluster) : cluster.Homed identity.key := by
  intro doc' later hdoc' hlater
  obtain ⟨now, hnow, hrenewed⟩ := h.renewed
  obtain rfl : now = doc' := Option.some.inj (hnow.symm.trans hdoc')
  obtain ⟨status, rfl⟩ :=
    (hrenewed.resumes hstarted.reads hstarted.unfinished hlater).exists_eq
  exact ⟨(Identity.ofJob_eq_ok.1 hstarted.identified).1,
    Identity.name_of_ofJob hstarted.identified⟩

/-- One more pass leaves the cluster so again, whatever fails. -/
theorem Retried.step (hstarted : Started job identity doc start)
    (h : Retried settings job identity doc start cluster) {faults : List Fault}
    (hfaults : Failing faults) (hnow : now.Valid) :
    Retried settings job identity doc start
      ((program settings now identity.namespace identity.name).run serverStore
        { cluster, faults }).2.cluster := by
  obtain ⟨current, hcurrent, hrenewed⟩ := h.renewed
  have hresumes {doc' : Json} {later : Job} (hdoc' : cluster.get? identity.key = some doc')
      (hlater : Job.codec.decode doc' = .ok later) : job.Resumes later := by
    obtain rfl : current = doc' := Option.some.inj (hcurrent.symm.trans hdoc')
    exact hrenewed.resumes hstarted.reads hstarted.unfinished hlater
  let server : Server := { cluster, faults }
  have hgrown : GrownWith settings job identity start (some current) server.cluster :=
    ⟨h.grown, hcurrent⟩
  have hprepare : ∀ doc' later, server.cluster.get? identity.key = some doc' →
      Job.codec.decode doc' = .ok later → later.state ≠ .complete →
        Keeps (GrownWith settings job identity start (some current))
          (prepare settings now later) fun result =>
            Updates now later result ∧ ∃ created, result.1 = .progressing created :=
    fun doc' later hdoc' hlater _ => keeps_prepare_of_resumes hstarted.identified
      (hresumes hdoc' hlater) hstarted.quiet (some current)
  obtain ⟨-, ⟨hafter, -⟩ | ⟨doc', later, result, ⟨hupdates, created, hresult⟩, hwrote⟩⟩ :=
    run_program_step (I := GrownWith settings job identity start (some current))
      hfaults hgrown (fun c hc => hc.2.trans hcurrent.symm) (h.homed hstarted) hprepare
  · exact ⟨hafter.1, current, hafter.2, hrenewed⟩
  · obtain rfl : current = doc' := Option.some.inj (hcurrent.symm.trans hwrote.stored)
    obtain ⟨prepared, hprepared, hafter⟩ := hwrote.cluster
    have hrenews : job.Renews result.2 :=
      renews_of_updates hnow (hresumes hcurrent hwrote.reads) hupdates hresult
    refine ⟨?_, _, ?_, .inr ⟨result.2, hrenews, rfl⟩⟩
    · refine hprepared.1.of_get?_eq fun key hkey => ?_
      rw [hafter]
      exact SortedMap.get?_insert_ne _ hkey _
    · rw [hafter, ← hrenewed.mergePatch_statusPatch hrenews later]
      exact SortedMap.get?_insert_self _ _ _

/-- So does any number of passes. -/
theorem Retried.run (hstarted : Started job identity doc start)
    {passes : List (List Fault × Instant)}
    (hpasses : ∀ pass ∈ passes, Failing pass.1 ∧ pass.2.Valid)
    (h : Retried settings job identity doc start cluster) :
    Retried settings job identity doc start
      (retried settings identity.namespace identity.name passes cluster) := by
  induction passes generalizing cluster with
  | nil => exact h
  | cons pass rest ih =>
    obtain ⟨hfaults, hnow⟩ := hpasses pass List.mem_cons_self
    exact ih (fun pass hpass => hpasses pass (List.mem_cons_of_mem _ hpass))
      (h.step hstarted hfaults hnow)

/-! ### The pass that goes through -/

/-- A pass that goes through would have gone through at the start. -/
theorem Retried.proceeds (hstarted : Started job identity doc start)
    (h : Retried settings job identity doc start cluster) (hnow : now.Valid) (hnow' : now'.Valid)
    {doc' : Json} (hproceeds : Proceeds now later identity doc' cluster) :
    job.Resumes later ∧ doc'.mergePatch
        (statusPatch (later.withStatus (nextStatus now later identity cluster))) =
          doc.mergePatch (statusPatch (job.withStatus (nextStatus now later identity cluster))) ∧
      Proceeds now' job identity doc start := by
  obtain ⟨current, hcurrent, hrenewed⟩ := h.renewed
  obtain rfl : current = doc' := Option.some.inj (hcurrent.symm.trans hproceeds.stored)
  have hresumes : job.Resumes later :=
    hrenewed.resumes hstarted.reads hstarted.unfinished hproceeds.reads
  have hrenews := renews_nextStatus hnow hresumes identity cluster
  have hdoc := hrenewed.mergePatch_statusPatch hrenews later
  have hready : Ready job identity doc start :=
    Ready.of_later hresumes h.grown hproceeds.toReady hstarted.stored hstarted.reads
      hstarted.unfinished hstarted.quiet
  refine ⟨hresumes, hdoc, hready, ?_⟩
  obtain ⟨written, hwritten⟩ := hproceeds.written
  rw [hdoc] at hwritten
  obtain ⟨members, rfl⟩ := Job.eq_obj_of_decode hwritten
  have hrenews' := renews_nextStatus hnow' (.refl hstarted.reads hstarted.unfinished) identity start
  obtain ⟨status, hdecode, -⟩ := hrenews'.decode hstarted.reads hstarted.unfinished
  exact ⟨_, hdecode⟩

theorem Retried.identity_eq (hstarted : Started job identity doc start)
    (h : Retried settings job identity doc start cluster) {identity' : Identity} {doc' : Json}
    (hns : identity'.namespace = identity.namespace) (hname : identity'.name = identity.name)
    (hproceeds : Proceeds now later identity' doc' cluster) : identity' = identity := by
  have hkey : identity'.key = identity.key := by
    rw [Identity.key, Identity.key, hns, hname]
  obtain ⟨current, hcurrent, hrenewed⟩ := h.renewed
  obtain rfl : current = doc' :=
    Option.some.inj (hcurrent.symm.trans (hkey ▸ hproceeds.stored))
  have hresumes : job.Resumes later :=
    hrenewed.resumes hstarted.reads hstarted.unfinished hproceeds.reads
  have hidentified := hproceeds.identified
  rw [identified_of_resumes hresumes, hstarted.identified] at hidentified
  exact (Except.ok.inj hidentified).symm

/-- What two passes over a job leave is the same, but for the times at which the job was started and
last looked at. -/
structure Converge (key : ObjectKey) (last single : Cluster) : Prop where
  others : ∀ k, k ≠ key → last.get? k = single.get? k
  job : (last.get? key).map (Job.blankStatus ["startTime", "lastReconcileTime"]) =
    (single.get? key).map (Job.blankStatus ["startTime", "lastReconcileTime"])

theorem Retried.converge (hstarted : Started job identity doc start)
    (h : Retried settings job identity doc start cluster) (hnow : now.Valid) (hnow' : now'.Valid)
    {doc' : Json} (hproceeds : Proceeds now later identity doc' cluster) :
    Converge identity.key (progressed settings now later identity doc' cluster)
      (progressed settings now' job identity doc start) := by
  obtain ⟨hresumes, hdoc, -⟩ := h.proceeds hstarted hnow hnow' hproceeds
  have hid := hstarted.identified
  refine ⟨fun key hkey => get?_progressed_of_grown hresumes h.grown hid hkey now now', ?_⟩
  have hrenews := renews_nextStatus hnow hresumes identity cluster
  have hrenews' := renews_nextStatus hnow' (.refl hstarted.reads hstarted.unfinished) identity start
  rw [get?_progressed_key, get?_progressed_key, hdoc]
  exact congrArg some (Job.blankStatus_statusPatch hrenews.stamped hrenews'.stamped
    (hrenews.unfinished.trans hrenews'.unfinished.symm)
    (roleStatuses_nextStatus hresumes h.grown hid now now') (.inr (by decide)) (.inr (by decide))
    job job doc)

/-- Passes whose requests fail, and then one that goes through, leave what a single pass leaves, but
for the times at which the job was started and last looked at. -/
theorem retries_converge {settings : PassSettings} {ns name uid : String} {start : Cluster}
    {doc : Json} {job : Job} {passes : List (List Fault × Instant)} {now now' : Instant}
    {created : Nat} (hstored : start.get? ⟨.job, ns, name⟩ = some doc)
    (hreads : Job.codec.decode doc = .ok job) (hns : job.metadata.namespace = some ns)
    (hname : job.metadata.name = some name) (huid : job.metadata.uid = some uid)
    (hunfinished : job.statusOrEmpty.completionTime = none)
    (hquiet : ∀ pod ∈ ownedPods start ns job, pod.requestsStop = false)
    (hpasses : ∀ pass ∈ passes, Failing pass.1 ∧ pass.2.Valid) (hnow : now.Valid)
    (hnow' : now'.Valid)
    (h : ((program settings now ns name).run (handler Server.exchange)
      { cluster := retried settings ns name passes start }).1 = .ok (.progressing created)) :
    let last := (program settings now ns name).run (handler Server.exchange)
      { cluster := retried settings ns name passes start }
    let single := (program settings now' ns name).run (handler Server.exchange)
      { cluster := start }
    (∃ created', single.1 = .ok (.progressing created')) ∧
      Converge ⟨.job, ns, name⟩ last.2.cluster single.2.cluster := by
  intro last single
  let identity : Identity := { name, «namespace» := ns, uid }
  have hstarted : Started job identity doc start :=
    ⟨hstored, hreads, Job.state_ne_complete_iff.2 hunfinished,
      Identity.ofJob_eq_ok.2 ⟨hns, hname, huid⟩, hquiet⟩
  have hretried : Retried settings job identity doc start (retried settings ns name passes start) :=
    Retried.run hstarted hpasses ⟨.refl _ _ _, doc, hstored, .inl rfl⟩
  let server : Server := { cluster := retried settings ns name passes start }
  let fresh : Server := { cluster := start }
  have hfaults : server.faults = [] := rfl
  have hfaults' : fresh.faults = [] := rfl
  obtain ⟨-, hlast, hlastCluster, -⟩ := run_of_faultless (program settings now ns name) hfaults
  obtain ⟨-, hsingle, hsingleCluster, -⟩ :=
    run_of_faultless (program settings now' ns name) hfaults'
  have hrun : (program settings now ns name).run store (retried settings ns name passes start) =
      (.ok (.progressing created), last.2.cluster) :=
    Prod.ext (hlast.symm.trans h) hlastCluster.symm
  obtain ⟨later, identity', doc', hns', hname', hproceeds⟩ :=
    proceeds_of_run_program (hretried.homed hstarted) hrun
  obtain rfl : identity' = identity := hretried.identity_eq hstarted hns' hname' hproceeds
  obtain ⟨-, -, hfirst⟩ := hretried.proceeds hstarted hnow hnow' hproceeds
  have hconverge := hretried.converge hstarted hnow hnow' hproceeds
  have hsingleRun : (program settings now' ns name).run store start =
      (.ok (.progressing (createdIn settings job identity start)),
        progressed settings now' job identity doc start) :=
    run_program_of_proceeds settings hfirst
  have hlastRun : (program settings now ns name).run store (retried settings ns name passes start) =
      (.ok (.progressing _), progressed settings now later identity doc' _) :=
    run_program_of_proceeds settings hproceeds
  rw [hsingleRun] at hsingle hsingleCluster
  rw [hlastRun] at hlastCluster
  refine ⟨⟨_, hsingle⟩, ?_⟩
  rw [show last.2.cluster = _ from hlastCluster, show single.2.cluster = _ from hsingleCluster]
  exact hconverge

/-- A job with two replicas, over a pass that makes the first one without getting an answer, and one
that goes through. -/
theorem retries_converge_posted :
    let last := (program {} Sample.later "default" "train").run (handler Server.exchange)
      { cluster := retried {} "default" "train" [([Sample.lost .post .pod], Sample.now)] Sample.posted }
    let single := (program {} Sample.now "default" "train").run (handler Server.exchange)
      { cluster := Sample.posted }
    (∃ created, single.1 = .ok (.progressing created)) ∧
      Converge ⟨.job, "default", "train"⟩ last.2.cluster single.2.cluster := by
  have hnone : ownedPods Sample.posted "default" Sample.job = [] := rfl
  have hquiet : ∀ pod ∈ ownedPods Sample.posted "default" Sample.job, pod.requestsStop = false := by
    intro pod hpod
    rw [hnone] at hpod
    cases hpod
  have hpasses : ∀ pass ∈ [([Sample.lost .post .pod], Sample.now)],
      Failing pass.1 ∧ pass.2.Valid := by
    intro pass hpass
    rw [List.mem_singleton.1 hpass]
    exact ⟨Sample.failing_lost .post .pod, Sample.valid_now⟩
  have hlast : ((program {} Sample.later "default" "train").run (handler Server.exchange)
      { cluster := retried {} "default" "train" [([Sample.lost .post .pod], Sample.now)]
          Sample.posted }).1 = .ok (.progressing 1) := by
    decide +kernel
  have hstored : Sample.posted.get? ⟨.job, "default", "train"⟩ = some Sample.document := rfl
  exact retries_converge hstored Sample.decode_document rfl rfl rfl rfl hquiet hpasses
    Sample.valid_later Sample.valid_now hlast

/-- An answer with a status beyond those of errors is believed: a pass that is shown a job with three
replicas makes a pod that no later pass takes back. -/
theorem diverges_beyond_errors :
    let shown : Fault :=
      { verb := .get, kind := .job, response := .reply 600 (Sample.documentOf 3) }
    let last := (program {} Sample.later "default" "train").run (handler Server.exchange)
      { cluster := retried {} "default" "train" [([shown], Sample.now)] Sample.posted }
    let single := (program {} Sample.now "default" "train").run (handler Server.exchange)
      { cluster := Sample.posted }
    last.1 = .ok (.progressing 0) ∧
      ¬ Converge ⟨.job, "default", "train"⟩ last.2.cluster single.2.cluster := by
  intro shown last single
  have hlast : last.1 = .ok (.progressing 0) := by
    decide +kernel
  refine ⟨hlast, fun h => ?_⟩
  have hmade : (last.2.cluster.get? ⟨.pod, "default", "train-worker-2"⟩).isSome = true := by
    decide +kernel
  have hnot : (single.2.cluster.get? ⟨.pod, "default", "train-worker-2"⟩).isSome = false := by
    decide +kernel
  rw [h.others ⟨.pod, "default", "train-worker-2"⟩ (by decide), hnot] at hmade
  cases hmade

end Pass

end JobOperator
