import JobOperator.Proofs.Pass.Homed
import JobOperator.Proofs.Pass.Retry
import JobOperator.Proofs.Pass.Stopping

/-!
A request to stop, over passes whose requests may fail. No pass creates a pod or deletes one that asks
for its job to stop; so every pass that gets to see the pods sees the same one ask first, and the
first that also gets to write the status completes the job.
-/

namespace JobOperator

open Client

/-- Whether a pod is kept here that asks for its job to stop. -/
def Cluster.Asks (cluster : Cluster) (key : ObjectKey) : Prop :=
  key.kind = .pod ∧ ∃ doc pod, cluster.get? key = some doc ∧ Pod.codec.decode doc = .ok pod ∧
    pod.requestsStop = true

/-- Whether the pods of a cluster are those of the start, but for some that ask for nothing. -/
def Cluster.KeepsRequests (start cluster : Cluster) : Prop :=
  ∀ key : ObjectKey, key.kind = .pod →
    cluster.get? key = start.get? key ∨ cluster.get? key = none ∧ ¬ start.Asks key

/-- Whether a call creates no pod, and deletes none that asked for its job to stop at the start. -/
def Call.SparesRequests (start : Cluster) : Call → Prop
  | .create kind .. => kind ≠ .pod
  | .delete kind ns name => ¬ start.Asks ⟨kind, ns, name⟩
  | _ => True

theorem Call.Provides.sparesRequests {wanted : List (ObjectKey × Json)} {start : Cluster} {c : Call}
    (hwanted : ∀ e ∈ wanted, e.1.kind ≠ .pod) (h : c.Provides wanted) : c.SparesRequests start := by
  cases c with
  | create kind ns object => exact hwanted _ h
  | delete kind ns name => exact h.elim
  | _ => trivial

namespace Pass

variable {settings : PassSettings} {now : Instant} {ns name : String} {job later : Job}
  {identity : Identity} {pods : List Pod} {first : Pod} {start cluster : Cluster}
  {server s t u : Server}

/-! ### What asks -/

theorem keepsRequests_call {c : Call} (hc : c.SparesRequests start)
    (h : start.KeepsRequests server.cluster) :
    start.KeepsRequests (serverStore c server).2.cluster := by
  intro key hkey
  by_cases hcall : c.key? = some key
  · cases c with
    | get kind ns name =>
      rw [serverStore_get_cluster]
      exact h key hkey
    | create kind ns object =>
      cases hcall
      exact absurd hkey hc
    | delete kind ns name =>
      cases hcall
      rcases cluster_serverStore (.delete kind ns name) server with hsame | hserved
      · rw [hsame]
        exact h _ hkey
      · rcases store_delete_cluster kind ns name server.cluster with hplain | herased
        · rw [hserved, hplain]
          exact h _ hkey
        · rw [hserved, herased]
          exact .inr ⟨SortedMap.get?_erase_self _ _, hc⟩
    | listPods job => cases hcall
    | writeStatus job =>
      obtain ⟨_, -, rfl⟩ := Option.map_eq_some_iff.1 hcall
      cases hkey
  · rw [serverStore_frame hcall]
    exact h key hkey

theorem ownedPod?_of_kind_ne {key : ObjectKey} {doc : Json} (hkind : key.kind ≠ .pod) :
    ownedPod? ns job (key, doc) = none :=
  if_neg fun hlisted => hkind (kind_of_isListed hlisted)

theorem find?_of_keepsRequests (h : start.KeepsRequests cluster) (ns : String) (job : Job) :
    (ownedPods cluster ns job).find? Pod.requestsStop =
      (ownedPods start ns job).find? Pod.requestsStop := by
  rw [← List.head?_filter, ← List.head?_filter]
  congr 1
  refine filter_ownedPods_congr fun key => ?_
  by_cases hkind : key.kind = .pod
  · rcases h key hkind with hsame | ⟨hgone, hquiet⟩
    · rw [hsame]
    · -- what is gone did not ask, so it is not among those that are looked for
      rw [hgone]
      symm
      refine Option.bind_eq_none_iff.2 fun doc hdoc => Option.filter_eq_none_iff.2 fun pod hpod => ?_
      intro hasks
      obtain ⟨-, hreads, -⟩ := ownedPod?_eq_some.1 hpod
      exact hquiet ⟨hkind, doc, pod, hdoc, hreads, hasks⟩
  · have hother (found : Option Json) : (found.bind fun doc =>
        (ownedPod? ns job (key, doc)).filter Pod.requestsStop) = none := by
      cases found with
      | none => rfl
      | some doc => rw [Option.bind_some, ownedPod?_of_kind_ne hkind, Option.filter_none]
    rw [hother, hother]

theorem homed_of_keepsRequests (h : start.KeepsRequests cluster)
    (hhomed : ∀ key : ObjectKey, key.kind = .pod → start.Homed key) {key : ObjectKey}
    (hkey : key.kind = .pod) : cluster.Homed key := by
  intro doc object hdoc
  rcases h key hkey with hsame | ⟨hgone, -⟩
  · exact hhomed key hkey doc object (hsame.symm.trans hdoc)
  · rw [hgone] at hdoc
    cases hdoc

/-! ### One pass -/

/-- A cluster after passes over a job: the pods that ask are there, no pod is new, and what is read
of the job is the same but for the status. -/
structure Recalls (ns name : String) (job : Job) (start cluster : Cluster) : Prop where
  pods : start.KeepsRequests cluster
  job : ∀ later, cluster.job? ns name = some later → ∃ status, later = { job with status }

theorem Begins.job?_eq (hfaults : Failing server.faults)
    (h : Begins serverStore ns name job server t) : server.cluster.job? ns name = some job :=
  Cluster.job?_of_get hfaults h.found

theorem failing_spend (f : Fault) (h : f.response.IsFailure) : f.spend.response.IsFailure := h

theorem Surveys.pods_eq (hfaults : Failing server.faults)
    (hbegins : Begins serverStore ns name job server s)
    (h : Surveys serverStore settings job identity pods s t u) :
    pods = ownedPods server.cluster identity.namespace job := by
  obtain ⟨hsame, -⟩ := h.podsOf failing_spend hfaults hbegins
  obtain ⟨-, -, ⟨hanswer, -⟩ | ⟨-, hrefused, -⟩⟩ := follows_store hsame.faults (.listPods job)
  · rw [h.lists] at hanswer
    obtain ⟨-, -, -, rfl⟩ := (store_listPods_iff (Identity.ofJob_eq_ok.1 h.identified).1).1
      (Prod.ext hanswer.symm rfl)
    exact ownedPods_congr hsame.pods
  · rw [h.lists] at hrefused
    exact absurd rfl (hrefused pods)

section

variable (hfaults : Failing server.faults) (hrecalls : Recalls ns name job start server.cluster)
  (hasks : (ownedPods start ns job).find? Pod.requestsStop = some first)
  (hns : job.metadata.namespace = some ns)

include hfaults hrecalls hasks hns

theorem Surveys.finds (hbegins : Begins serverStore ns name later server s)
    (h : Surveys serverStore settings later identity pods s t u) :
    identity.namespace = ns ∧ pods = ownedPods server.cluster ns later ∧
      pods.find? Pod.requestsStop = some first := by
  have hpods := h.pods_eq hfaults hbegins
  obtain ⟨status, rfl⟩ := hrecalls.job later (hbegins.job?_eq hfaults)
  obtain rfl : ns = identity.namespace :=
    Option.some.inj (hns.symm.trans (Identity.ofJob_eq_ok.1 h.identified).1)
  refine ⟨rfl, hpods, ?_⟩
  rw [hpods, find?_of_keepsRequests hrecalls.pods]
  exact hasks

theorem sparesRequests_of_mem_history
    (hhomed : ∀ key : ObjectKey, key.kind = .pod → start.Homed key) {a : Answered}
    (ha : a ∈ (program settings now ns name).history serverStore server) :
    a.call.SparesRequests start := by
  cases stage_of_mem_history ha with
  | load => trivial
  | child hbegins hid hchild =>
    exact ((within_syncChildren fun _ he => he).history hchild).sparesRequests fun e he =>
      (childKinds_ne (kind_of_mem_children he)).2
  | list => trivial
  | creation hbegins hsurveys hquiet =>
    obtain ⟨-, -, hfinds⟩ := hsurveys.finds hfaults hrecalls hasks hns hbegins
    rw [hquiet] at hfinds
    cases hfinds
  | deletion hbegins hsurveys _ hdeletion =>
    obtain ⟨hspace, hpods, -⟩ := hsurveys.finds hfaults hrecalls hasks hns hbegins
    obtain ⟨pod, hpod, houtlives, hdelete⟩ := sweeps_finalize.history hdeletion
    rw [hdelete, hspace]
    rintro ⟨-, doc, asking, hdoc, hreads, hstop⟩
    -- the pod is listed as it is kept, and one that outlives the job does not ask
    rw [hpods] at hpod
    obtain ⟨doc', hdoc', howned⟩ := get?_of_mem_ownedPods
      (Cluster.namesPods_of_homed fun _ => homed_of_keepsRequests hrecalls.pods hhomed) hpod
    rcases hrecalls.pods ⟨.pod, ns, pod.name⟩ rfl with hsame | ⟨hgone, -⟩
    · obtain rfl : doc' = doc := Option.some.inj (hdoc'.symm.trans (hsame.trans hdoc))
      obtain ⟨-, hreads', -⟩ := ownedPod?_eq_some.1 howned
      obtain rfl : asking = pod := Except.ok.inj (hreads.symm.trans hreads')
      rw [outlives_of_requestsStop hstop] at houtlives
      cases houtlives
    · rw [hgone] at hdoc'
      cases hdoc'
  | status => trivial

/-- After a pass that gets to see the pods, all that is left is to write that the job is complete. -/
theorem of_mem_history_list
    (hlist : ⟨.listPods later, .ok pods⟩ ∈
      (program settings now ns name).history serverStore server) :
    pods.find? Pod.requestsStop = some first ∧ ∃ (written : Job) (answer : Except StoreError Unit),
      ⟨.writeStatus written, answer⟩ ∈ (program settings now ns name).history serverStore server ∧
        written.statusOrEmpty.completionTime = some now ∧
        ((program settings now ns name).run serverStore server).1 =
          (answer.mapError PassError.persistStatus).map fun _ => .completed first.name := by
  obtain ⟨identity, s, t, hbegins, hid, hchildren, hanswer⟩ := of_mem_history_listPods hlist
  have hsurveys : Surveys serverStore settings later identity pods s t
      (serverStore (.listPods later) t).2 := ⟨hid, hchildren, Prod.ext hanswer rfl⟩
  obtain ⟨-, -, hfinds⟩ := hsurveys.finds hfaults hrecalls hasks hns hbegins
  obtain ⟨deletions, verdicts, u, -, hfinalize, -⟩ := run_finalize serverStore identity pods
    (noNumbers later) (serverStore (.listPods later) t).2
  obtain ⟨status, hstatus, hprepare⟩ : ∃ status : JobStatus, status.completionTime = some now ∧
      (prepare settings now later).run serverStore s = (.ok (.stopped first.name, status), u) :=
    ⟨_, rfl, run_prepare_of_asks now hsurveys hfinds hfinalize⟩
  refine ⟨hfinds, later.withStatus status, (serverStore (.writeStatus (later.withStatus status)) u).1,
    ?_, hstatus, ?_⟩
  · rw [history_program settings now hbegins, history_ofJob hprepare]
    exact List.mem_cons_of_mem _ (List.mem_append_right _ (List.mem_singleton.2 rfl))
  · rw [run_program_of_begins settings now hbegins, ofJob_eq, Program.run_bind_of_ok hprepare,
      run_persist]
    rfl

/-- A pass that gets its status written has completed the job, as the pod asked. -/
theorem completed_of_mem_history {written : Job} (hwrite : ⟨.writeStatus written, .ok ()⟩ ∈
      (program settings now ns name).history serverStore server) :
    ((program settings now ns name).run serverStore server).1 = .ok (.completed first.name) := by
  obtain ⟨later, result, s, u, hbegins, hprepare, rfl, hanswer⟩ := of_mem_history_writeStatus hwrite
  obtain ⟨identity, pods, t, v, hsurveys, ⟨hquiet, -⟩ | ⟨asking, hasking, hresult, -⟩⟩ :=
    run_prepare_cases hprepare
  · obtain ⟨-, -, hfinds⟩ := hsurveys.finds hfaults hrecalls hasks hns hbegins
    rw [hquiet] at hfinds
    cases hfinds
  · obtain ⟨-, -, hfinds⟩ := hsurveys.finds hfaults hrecalls hasks hns hbegins
    obtain rfl : first = asking := Option.some.inj (hfinds.symm.trans hasking)
    rw [run_program_of_begins settings now hbegins, ofJob_eq, Program.run_bind_of_ok hprepare,
      run_persist, hanswer, hresult]
    rfl

end

theorem completionTime_of_completed (hfaults : Failing server.faults)
    (hhomed : server.cluster.Homed ⟨.job, ns, name⟩) (hnow : now.Valid) {requestedBy : String}
    (h : ((program settings now ns name).run serverStore server).1 =
      .ok (.completed requestedBy)) :
    ∃ later, ((program settings now ns name).run serverStore server).2.cluster.job? ns name =
      some later ∧ later.statusOrEmpty.completionTime = some now := by
  rcases document_step settings now hfaults hhomed with
    ⟨-, hends⟩ | ⟨doc, job, result, hupdates, hwrote⟩
  · rcases hends _ h with hmissing | hcomplete
    · cases hmissing
    · cases hcomplete
  · obtain ⟨houtcome, job', hreads'⟩ := hwrote.answered _ h
    have hstops : result.2.completionTime = some now := by
      cases hresult : result.1 with
      | progressing created =>
        rw [hresult] at houtcome
        cases houtcome
      | stopped asked => exact hupdates.stopped asked hresult
    obtain ⟨members, rfl⟩ := Job.eq_obj_of_decode hreads'
    obtain ⟨status, hdecode, hfollows⟩ :=
      decode_of_updates hnow hwrote.reads hwrote.unfinished hupdates
    exact ⟨_, Cluster.job?_eq_some.2 ⟨_, hwrote.get?_after, hdecode⟩, hfollows.completion.trans hstops⟩

/-! ### Any number of passes -/

/-- Where passes over a job start of which a pod asks for it to stop: everything is kept under its
own name, the job can be read, and this is the first of the pods that ask. -/
structure Asked (ns name : String) (job : Job) (first : Pod) (start : Cluster) : Prop where
  homed : ∀ key, start.Homed key
  reads : start.job? ns name = some job
  asks : (ownedPods start ns job).find? Pod.requestsStop = some first

theorem Asked.home (h : Asked ns name job first start) :
    job.metadata.namespace = some ns ∧ job.name = name :=
  (h.homed _).of_job? h.reads

theorem Asked.recalls (h : Asked ns name job first start) : Recalls ns name job start start := by
  refine ⟨fun key _ => .inl rfl, fun later hlater => ⟨job.status, ?_⟩⟩
  exact Option.some.inj (hlater.symm.trans h.reads)

theorem Recalls.homed (hasked : Asked ns name job first start)
    (h : Recalls ns name job start cluster) : cluster.Homed ⟨.job, ns, name⟩ := by
  intro doc later hdoc hlater
  obtain ⟨status, rfl⟩ := h.job later (Cluster.job?_eq_some.2 ⟨doc, hdoc, hlater⟩)
  exact hasked.home

theorem Recalls.pass (hasked : Asked ns name job first start)
    (h : Recalls ns name job start cluster) {faults : List Fault} (hfaults : Failing faults)
    (hnow : now.Valid) :
    Recalls ns name job start
      ((program settings now ns name).run serverStore { cluster, faults }).2.cluster := by
  let server : Server := { cluster, faults }
  have hserver : Failing server.faults := hfaults
  have hrecalls : Recalls ns name job start server.cluster := h
  refine ⟨?_, fun later hlater => ?_⟩
  · exact Program.run_of_history (I := fun s : Server => start.KeepsRequests s.cluster)
      (fun a ha => sparesRequests_of_mem_history hserver hrecalls hasked.asks hasked.home.1
        (fun key _ => hasked.homed key) ha)
      (fun c s hc hs => keepsRequests_call hc hs) hrecalls.pods
  · obtain ⟨before, hbefore, hsucceeds⟩ := succeeds_of_pass (h.homed hasked) hfaults hnow hlater
    obtain ⟨status, rfl⟩ := h.job before hbefore
    cases hsucceeds with
    | same => exact ⟨status, rfl⟩
    | written result status' => exact ⟨some status', rfl⟩

theorem Recalls.run (hasked : Asked ns name job first start)
    {passes : List (List Fault × Instant)}
    (hpasses : ∀ pass ∈ passes, Failing pass.1 ∧ pass.2.Valid)
    (h : Recalls ns name job start cluster) :
    Recalls ns name job start (retried settings ns name passes cluster) := by
  induction passes generalizing cluster with
  | nil => exact h
  | cons pass rest ih =>
    obtain ⟨hfaults, hnow⟩ := hpasses pass List.mem_cons_self
    exact ih (fun pass hpass => hpasses pass (List.mem_cons_of_mem _ hpass))
      (h.pass hasked hfaults hnow)

/-- What a pass does about a pod that asks for the job to stop. -/
structure Heeds (settings : PassSettings) (now : Instant) (ns name : String) (start : Cluster)
    (first : Pod) (server : Server) : Prop where
  /-- It creates no pod, and deletes none that asks. -/
  spares : ∀ a ∈ (program settings now ns name).history serverStore server,
    a.call.SparesRequests start
  /-- Every pod that asks is still there. -/
  keeps : ∀ key, start.Asks key →
    ((program settings now ns name).run serverStore server).2.cluster.get? key = start.get? key
  /-- Once it has listed the pods, it stops the job as this pod asked, and writes that the job is
  complete. -/
  finalizes : ∀ job pods, ⟨.listPods job, .ok pods⟩ ∈
      (program settings now ns name).history serverStore server →
    pods.find? Pod.requestsStop = some first ∧ ∃ (written : Job) (answer : Except StoreError Unit),
      ⟨.writeStatus written, answer⟩ ∈ (program settings now ns name).history serverStore server ∧
        written.statusOrEmpty.completionTime = some now ∧
        ((program settings now ns name).run serverStore server).1 =
          (answer.mapError PassError.persistStatus).map fun _ => .completed first.name
  /-- It has completed the job once that was written. -/
  completes : ∀ written, ⟨.writeStatus written, .ok ()⟩ ∈
      (program settings now ns name).history serverStore server →
    ((program settings now ns name).run serverStore server).1 = .ok (.completed first.name)
  /-- A job that it has completed is stored so. -/
  stores : ∀ requestedBy, ((program settings now ns name).run serverStore server).1 =
      .ok (.completed requestedBy) →
    ∃ later, ((program settings now ns name).run serverStore server).2.cluster.job? ns name =
      some later ∧ later.statusOrEmpty.completionTime = some now

theorem Recalls.heeds (settings : PassSettings) (hasked : Asked ns name job first start)
    (hfaults : Failing server.faults) (hnow : now.Valid)
    (h : Recalls ns name job start server.cluster) :
    Heeds settings now ns name start first server := by
  have hspares : ∀ a ∈ (program settings now ns name).history serverStore server,
      a.call.SparesRequests start := fun a ha => sparesRequests_of_mem_history hfaults h hasked.asks
    hasked.home.1 (fun key _ => hasked.homed key) ha
  have hkeeps := Program.run_of_history (I := fun s : Server => start.KeepsRequests s.cluster)
    hspares (fun c s hc hs => keepsRequests_call hc hs) h.pods
  refine ⟨hspares, fun key hkey => ?_, fun job pods hlist => ?_, fun written hwrite => ?_,
    fun requestedBy hrun => ?_⟩
  · rcases hkeeps key hkey.1 with hsame | ⟨-, hquiet⟩
    · exact hsame
    · exact absurd hkey hquiet
  · exact of_mem_history_list hfaults h hasked.asks hasked.home.1 hlist
  · exact completed_of_mem_history hfaults h hasked.asks hasked.home.1 hwrite
  · exact completionTime_of_completed hfaults (h.homed hasked) hnow hrun

/-- When a pod of a job asks for it to stop, then each of any passes whose requests may fail heeds
the same pod, the first by name of those that ask. -/
theorem stop_request_kept (settings : PassSettings) {start : Cluster} {job : Job}
    (hhomed : ∀ key, start.Homed key) (hjob : start.job? ns name = some job)
    (hasks : ∃ pod ∈ ownedPods start ns job, pod.requestsStop = true) :
    ∃ first ∈ ownedPods start ns job, first.requestsStop = true ∧
      (∀ pod ∈ ownedPods start ns job, pod.requestsStop = true → first.name ≤ pod.name) ∧
      ∀ (passes : List (List Fault × Instant)) (server : Server) (now : Instant),
        (∀ pass ∈ passes, Failing pass.1 ∧ pass.2.Valid) →
        server.cluster = retried settings ns name passes start → Failing server.faults → now.Valid →
          Heeds settings now ns name start first server := by
  obtain ⟨first, hfirst⟩ := Option.isSome_iff_exists.1 (List.find?_isSome.2 hasks)
  have hasked : Asked ns name job first start := ⟨hhomed, hjob, hfirst⟩
  refine ⟨first, List.mem_of_find?_eq_some hfirst, List.find?_some hfirst, fun pod hpod hstop => ?_,
    fun passes server now hpasses hserver hfaults hnow => ?_⟩
  · exact name_le_of_find? (fun key _ => hhomed key) hfirst hpod hstop
  · have hrecalls : Recalls ns name job start (retried settings ns name passes start) :=
      hasked.recalls.run hasked hpasses
    rw [← hserver] at hrecalls
    exact hrecalls.heeds settings hasked hfaults hnow

end Pass

namespace Sample

/-- The small job with a pod that asks for it to stop, after a pass that could not write its status. -/
def stoppedOnce : Server :=
  { cluster := Pass.retried {} "default" "train" [(unwritten.faults, now)] halting }

/-- The small job with nothing but a pod that asks for it to stop. -/
def askingAlone : Cluster := halting.erase ⟨.pod, "default", "train-worker-0"⟩

theorem homed_askingAlone (k : ObjectKey) : askingAlone.Homed k := by
  intro doc object hdoc
  by_cases hk : k = ⟨.pod, "default", "train-worker-0"⟩
  · rw [hk, askingAlone, SortedMap.get?_erase_self] at hdoc
    cases hdoc
  · rw [askingAlone, SortedMap.get?_erase_ne _ hk] at hdoc
    exact homed_halting k doc object hdoc

end Sample

namespace Pass

/-- The pass after one that could not write the status completes the job, as the pod asked. -/
theorem stop_request_kept_halting :
    ((program {} Sample.later "default" "train").run serverStore Sample.stoppedOnce).1 =
        .ok (.completed "train-worker-1") ∧
      (∃ first, Heeds {} Sample.later "default" "train" Sample.halting first Sample.stoppedOnce ∧
        first.name = "train-worker-1") ∧
      ∃ later, ((program {} Sample.later "default" "train").run serverStore
        Sample.stoppedOnce).2.cluster.job? "default" "train" = some later ∧
          later.statusOrEmpty.completionTime = some Sample.later := by
  have hjob : Sample.halting.job? "default" "train" = some Sample.job := by rfl
  have hasks : ∃ pod ∈ ownedPods Sample.halting "default" Sample.job, pod.requestsStop = true := by
    decide +kernel
  have hnames : ((ownedPods Sample.halting "default" Sample.job).filter Pod.requestsStop).map
      Pod.name = ["train-worker-1"] := by
    decide +kernel
  have hrun : ((program {} Sample.later "default" "train").run serverStore Sample.stoppedOnce).1 =
      .ok (.completed "train-worker-1") := by
    decide +kernel
  have hpasses : ∀ pass ∈ [(Sample.unwritten.faults, Sample.now)],
      Failing pass.1 ∧ pass.2.Valid := by
    intro pass hpass
    rw [List.mem_singleton.1 hpass]
    refine ⟨fun fault hfault => ?_, Sample.valid_now⟩
    rw [List.mem_singleton.1 hfault]
    trivial
  obtain ⟨first, hfirst, hstop, -, hpass⟩ :=
    stop_request_kept {} Sample.homed_halting hjob hasks
  have hheeds := hpass _ Sample.stoppedOnce Sample.later hpasses rfl
    (fun _ hfault => absurd hfault List.not_mem_nil) Sample.valid_later
  have hname : first.name ∈ ["train-worker-1"] := by
    rw [← hnames]
    exact List.mem_map_of_mem (List.mem_filter.2 ⟨hfirst, hstop⟩)
  exact ⟨hrun, ⟨first, hheeds, List.mem_singleton.1 hname⟩, hheeds.stores _ hrun⟩

/-- An answer with a status beyond those of errors is believed: a pass that is shown an empty list
does not heed the pod that asks, and creates another one. -/
theorem overlooks_beyond_errors :
    let shown : Fault :=
      { verb := .list, kind := .pod, response := .reply 600 (.obj [("items", .arr [])]) }
    let pass := (program {} Sample.now "default" "train").run serverStore
      { cluster := Sample.askingAlone, faults := [shown] }
    (∀ key, Sample.askingAlone.Homed key) ∧
      (∃ pod ∈ ownedPods Sample.askingAlone "default" Sample.job, pod.requestsStop = true) ∧
      pass.1 = .ok (.progressing 1) ∧
      (pass.2.cluster.get? ⟨.pod, "default", "train-worker-0"⟩).isSome = true :=
  ⟨Sample.homed_askingAlone, by decide +kernel⟩

end Pass

end JobOperator
