import JobOperator.Proofs.Job.Renewal
import JobOperator.Proofs.Pass.Progress

/-!
One pass in a server that may fail. It leaves the document of the job as it is, or has come as far as
the status and has written it; and a job that is complete is only looked at.
-/

namespace JobOperator

open Client

namespace Pass

variable {settings : PassSettings} {now : Instant} {ns name : String} {server : Server}

/-- What is known of a pass that has written a status: the document that it found, the job in it, and
what it had made of the cluster before, which satisfies an invariant. -/
structure Wrote (I : Cluster → Prop) (key : ObjectKey) (before after : Cluster)
    (answer : Except PassError Outcome) (doc : Json) (job : Job)
    (result : PodsOutcome × JobStatus) : Prop where
  stored : before.get? key = some doc
  reads : Job.codec.decode doc = .ok job
  unfinished : job.state ≠ .complete
  cluster : ∃ prepared, I prepared ∧
    after = prepared.insert key (doc.mergePatch (statusPatch (job.withStatus result.2)))
  answered : ∀ o, answer = .ok o → o = outcome result.1 ∧
    ∃ job', Job.codec.decode (doc.mergePatch (statusPatch (job.withStatus result.2))) = .ok job'

/-- Up to the status, a pass leaves every job as it is. -/
theorem keeps_prepare {job : Job} {key : ObjectKey} (hkey : key.kind = .job) (found : Option Json) :
    Keeps (fun c => c.get? key = found) (prepare settings now job) (Updates now job) :=
  keeps_of_within within_prepare fun c cluster hc hfound => by
    rw [store_sparesJobs hc cluster hkey, hfound]

theorem run_persist {σ : Type} (handler : Handler σ) (job : Job)
    (result : PodsOutcome × JobStatus) (s : σ) :
    let call : Call := .writeStatus (job.withStatus result.2)
    (persist job result).run handler s =
      (((handler call s).1.mapError .persistStatus).map fun _ => outcome result.1,
        (handler call s).2) := by
  intro call
  rw [persist, Program.run_bind, Program.run_perform]
  cases (handler call s).1 <;> rfl

/-- In a server that may fail, the status of a stored job is written or it is not. -/
theorem writeStatus_cases (hfaults : Failing server.faults) {job : Job}
    (hname : job.metadata.namespace = some ns ∧ job.name = name) {doc : Json}
    (hstored : server.cluster.get? ⟨.job, ns, name⟩ = some doc) (status : JobStatus) :
    let after := (serverStore (.writeStatus (job.withStatus status)) server).2.cluster
    after = server.cluster ∨ after = server.cluster.insert ⟨.job, ns, name⟩
      (doc.mergePatch (statusPatch (job.withStatus status))) := by
  intro after
  obtain ⟨hns, rfl⟩ := hname
  let plain := (store (.writeStatus (job.withStatus status)) server.cluster).2
  have hafter : after = server.cluster ∨ after = plain := by
    obtain ⟨-, -, ⟨-, h⟩ | ⟨-, -, h⟩⟩ := follows_store hfaults (.writeStatus (job.withStatus status))
    · exact .inr h
    · exact h
  rcases hafter with hsame | hsame
  · exact .inl hsame
  · rcases store_writeStatus_cluster (job.withStatus status) server.cluster with
      hplain | ⟨ns', doc', hns', hdoc', hwritten⟩
    · exact .inl (hsame.trans hplain)
    · obtain rfl : ns = ns' := Option.some.inj (hns.symm.trans hns')
      obtain rfl : doc = doc' := Option.some.inj (hstored.symm.trans hdoc')
      exact .inr (hsame.trans hwritten)

/-- The end of a pass: the status is written or it is not, and a pass that ends well has written
it. -/
theorem persist_cases (hfaults : Failing server.faults) {job : Job}
    (hname : job.metadata.namespace = some ns ∧ job.name = name) {doc : Json}
    (hstored : server.cluster.get? ⟨.job, ns, name⟩ = some doc)
    (result : PodsOutcome × JobStatus) :
    Failing ((persist job result).run serverStore server).2.faults ∧
      (((persist job result).run serverStore server).2.cluster = server.cluster ∧
          (∀ o, ((persist job result).run serverStore server).1 ≠ .ok o) ∨
        ((persist job result).run serverStore server).2.cluster =
            server.cluster.insert ⟨.job, ns, name⟩
              (doc.mergePatch (statusPatch (job.withStatus result.2))) ∧
          ∀ o, ((persist job result).run serverStore server).1 = .ok o → o = outcome result.1 ∧
            ∃ job', Job.codec.decode
              (doc.mergePatch (statusPatch (job.withStatus result.2))) = .ok job') := by
  let call : Call := .writeStatus (job.withStatus result.2)
  obtain ⟨hafter, -, hcases⟩ := follows_store hfaults call
  rw [run_persist]
  refine ⟨hafter, ?_⟩
  cases hanswer : (serverStore call server).1 with
  | error e =>
    have hno : ∀ o, ((Except.error e : Except StoreError Unit).mapError PassError.persistStatus).map
        (fun _ => outcome result.1) ≠ .ok o := by
      intro o ho
      cases ho
    rcases writeStatus_cases hfaults hname hstored result.2 with hsame | hwritten
    · exact .inl ⟨hsame, hno⟩
    · exact .inr ⟨hwritten, fun o ho => absurd ho (hno o)⟩
  | ok u =>
    rcases hcases with ⟨hsame, hcluster⟩ | ⟨-, hrefused, -⟩
    · obtain ⟨ns', doc', job', hns', hdoc', hreads, hwritten⟩ :=
        of_store_writeStatus (hsame.symm.trans hanswer)
      obtain ⟨hns, rfl⟩ := hname
      obtain rfl : ns = ns' := Option.some.inj (hns.symm.trans hns')
      obtain rfl : doc = doc' := Option.some.inj (hstored.symm.trans hdoc')
      refine .inr ⟨hcluster.trans hwritten, fun o ho => ?_⟩
      cases ho
      exact ⟨rfl, job', hreads⟩
    · exact absurd hanswer (hrefused u)

/-- Looking after a job leaves all as it was prepared, and then ends in an error; or it has written a
status. -/
theorem run_ofJob_step {I : Cluster → Prop} {Q : PodsOutcome × JobStatus → Prop} {job : Job}
    {doc : Json} (hfaults : Failing server.faults) (hI : I server.cluster)
    (hstored : ∀ c, I c → c.get? ⟨.job, ns, name⟩ = some doc)
    (hname : job.metadata.namespace = some ns ∧ job.name = name)
    (hprepare : Keeps I (prepare settings now job) Q) :
    Failing ((ofJob settings now job).run serverStore server).2.faults ∧
      (I ((ofJob settings now job).run serverStore server).2.cluster ∧
          (∀ o, ((ofJob settings now job).run serverStore server).1 ≠ .ok o) ∨
        ∃ result, Q result ∧
          (∃ prepared, I prepared ∧
            ((ofJob settings now job).run serverStore server).2.cluster =
              prepared.insert ⟨.job, ns, name⟩
                (doc.mergePatch (statusPatch (job.withStatus result.2)))) ∧
          ∀ o, ((ofJob settings now job).run serverStore server).1 = .ok o →
            o = outcome result.1 ∧ ∃ job', Job.codec.decode
              (doc.mergePatch (statusPatch (job.withStatus result.2))) = .ok job') := by
  obtain ⟨hfaults', hI', hvalue⟩ := hprepare server hfaults hI
  rw [ofJob_eq, Program.run_bind]
  cases hrun : (prepare settings now job).run serverStore server with
  | mk answer server' =>
    rw [hrun] at hfaults' hI' hvalue
    cases answer with
    | error e =>
      refine ⟨hfaults', .inl ⟨hI', fun o ho => ?_⟩⟩
      cases ho
    | ok result =>
      obtain ⟨hfaults'', hcases⟩ := persist_cases hfaults' hname (hstored _ hI') result
      refine ⟨hfaults'', ?_⟩
      rcases hcases with ⟨hsame, hno⟩ | ⟨hwritten, hanswer⟩
      · refine .inl ⟨?_, hno⟩
        simp only [hsame]
        exact hI'
      · exact .inr ⟨result, hvalue result rfl, ⟨server'.cluster, hI', hwritten⟩, hanswer⟩

/-- A pass leaves all as it was prepared, and then ends well only without having come to the pods;
or it has written a status. -/
theorem run_program_step {I : Cluster → Prop} {Q : Job → PodsOutcome × JobStatus → Prop}
    (hfaults : Failing server.faults) (hI : I server.cluster)
    (hfixed : ∀ c, I c → c.get? ⟨.job, ns, name⟩ = server.cluster.get? ⟨.job, ns, name⟩)
    (hhomed : server.cluster.Homed ⟨.job, ns, name⟩)
    (hprepare : ∀ doc job, server.cluster.get? ⟨.job, ns, name⟩ = some doc →
      Job.codec.decode doc = .ok job → job.state ≠ .complete →
        Keeps I (prepare settings now job) (Q job)) :
    Failing ((program settings now ns name).run serverStore server).2.faults ∧
      (I ((program settings now ns name).run serverStore server).2.cluster ∧
          (∀ o, ((program settings now ns name).run serverStore server).1 = .ok o →
            o = .missing ∨ o = .alreadyComplete) ∨
        ∃ doc job result, Q job result ∧
          Wrote I ⟨.job, ns, name⟩ server.cluster
            ((program settings now ns name).run serverStore server).2.cluster
            ((program settings now ns name).run serverStore server).1 doc job result) := by
  have hload : Keeps I (Program.perform (.get .job ns name) PassError.loadJob) _ := keeps_get_job
  obtain ⟨hfaults', hI', hfound⟩ := hload server hfaults hI
  rw [program, Program.run_bind]
  cases hget : (Program.perform (.get .job ns name) PassError.loadJob).run serverStore server with
  | mk found server' =>
    rw [hget] at hfaults' hI' hfound
    cases found with
    | error e =>
      refine ⟨hfaults', .inl ⟨hI', fun o ho => ?_⟩⟩
      cases ho
    | ok found =>
      cases found with
      | none =>
        refine ⟨hfaults', .inl ⟨hI', fun o ho => .inl ?_⟩⟩
        cases ho
        rfl
      | some job =>
        obtain ⟨c, doc, hc, hdoc, hreads⟩ := hfound (some job) rfl job rfl
        rw [hfixed c hc] at hdoc
        simp only
        split
        · refine ⟨hfaults', .inl ⟨hI', fun o ho => .inr ?_⟩⟩
          cases ho
          rfl
        · rename_i hstate
          have hunfinished : job.state ≠ .complete := Ne.symm hstate
          obtain ⟨hfaults'', ⟨hI'', hno⟩ | ⟨result, hresult, hcluster, hanswer⟩⟩ :=
            run_ofJob_step hfaults' hI' (fun c hc => (hfixed c hc).trans hdoc)
              (hhomed doc job hdoc hreads) (hprepare doc job hdoc hreads hunfinished)
          · exact ⟨hfaults'', .inl ⟨hI'', fun o ho => absurd ho (hno o)⟩⟩
          · exact ⟨hfaults'', .inr ⟨doc, job, result, hresult, hdoc, hreads, hunfinished, hcluster,
              hanswer⟩⟩

/-- A pass leaves the document of the job as it is, or it has written a status over it. -/
theorem document_step (settings : PassSettings) (now : Instant) (hfaults : Failing server.faults)
    (hhomed : server.cluster.Homed ⟨.job, ns, name⟩) :
    (((program settings now ns name).run serverStore server).2.cluster.get? ⟨.job, ns, name⟩ =
        server.cluster.get? ⟨.job, ns, name⟩ ∧
      ∀ o, ((program settings now ns name).run serverStore server).1 = .ok o →
        o = .missing ∨ o = .alreadyComplete) ∨
      ∃ doc job result, Updates now job result ∧
        Wrote (fun c => c.get? ⟨.job, ns, name⟩ = server.cluster.get? ⟨.job, ns, name⟩)
          ⟨.job, ns, name⟩ server.cluster
          ((program settings now ns name).run serverStore server).2.cluster
          ((program settings now ns name).run serverStore server).1 doc job result := by
  have hprepare : ∀ doc job, server.cluster.get? ⟨.job, ns, name⟩ = some doc →
      Job.codec.decode doc = .ok job → job.state ≠ .complete →
        Keeps (fun c => c.get? ⟨.job, ns, name⟩ = server.cluster.get? ⟨.job, ns, name⟩)
          (prepare settings now job) (Updates now job) :=
    fun _ _ _ _ _ => keeps_prepare rfl _
  exact (run_program_step
    (I := fun c => c.get? ⟨.job, ns, name⟩ = server.cluster.get? ⟨.job, ns, name⟩)
    hfaults rfl (fun _ hc => hc) hhomed hprepare).2

theorem Wrote.get?_after {I : Cluster → Prop} {key : ObjectKey} {before after : Cluster}
    {answer : Except PassError Outcome} {doc : Json} {job : Job} {result : PodsOutcome × JobStatus}
    (h : Wrote I key before after answer doc job result) :
    after.get? key = some (doc.mergePatch (statusPatch (job.withStatus result.2))) := by
  obtain ⟨prepared, -, hafter⟩ := h.cluster
  rw [hafter]
  exact SortedMap.get?_insert_self _ _ _

/-! ### A job that goes on -/

/-- What a pass writes has times that can be written, whatever became of the pods. -/
theorem stamped_of_updates (hnow : now.Valid) {job : Job} (htimed : job.statusOrEmpty.Timed)
    (hunfinished : job.statusOrEmpty.completionTime = none) {result : PodsOutcome × JobStatus}
    (h : Updates now job result) : result.2.Stamped := by
  refine ⟨?_, ⟨now, h.last, hnow⟩, fun t ht => ?_⟩
  · cases hstart : job.statusOrEmpty.startTime with
    | none => exact ⟨now, by rw [h.start, hstart]; rfl, hnow⟩
    | some start => exact ⟨start, by rw [h.start, hstart]; rfl, htimed.start start hstart⟩
  · cases hresult : result.1 with
    | progressing created =>
      rw [(h.progressing created hresult).1, hunfinished] at ht
      cases ht
    | stopped requestedBy =>
      rw [h.stopped requestedBy hresult] at ht
      cases ht
      exact hnow

/-- A job in object form is read again with the times that a pass has written. -/
theorem decode_of_updates (hnow : now.Valid) {members : List (String × Json)} {job : Job}
    (hreads : Job.codec.decode (.obj members) = .ok job) (hunfinished : job.state ≠ .complete)
    {result : PodsOutcome × JobStatus} (h : Updates now job result) :
    ∃ status, Job.codec.decode ((Json.obj members).mergePatch
        (statusPatch (job.withStatus result.2))) = .ok (job.withStatus status) ∧
      JobStatus.Follows job.statusOrEmpty result.2 status := by
  have hopen := Job.state_ne_complete_iff.1 hunfinished
  exact Job.decode_statusPatch hreads hopen
    (stamped_of_updates hnow (Job.timed_of_decode hreads) hopen h)

/-- A pass after which the job goes on has written a status that renews the job's. -/
theorem renews_of_updates (hnow : now.Valid) {job later : Job} {result : PodsOutcome × JobStatus}
    {created : Nat} (hresumes : job.Resumes later) (h : Updates now later result)
    (hresult : result.1 = .progressing created) : job.Renews result.2 := by
  obtain ⟨hcompletion, pods, podJob, hroles⟩ := h.progressing created hresult
  rw [hresumes.spec] at hroles
  refine ⟨stamped_of_updates hnow hresumes.timed hresumes.unfinished h,
    hcompletion.trans hresumes.unfinished, fun k hk => ?_, fun k hk => ?_⟩
  · rw [hroles]
    exact isSome_countRoles hk
  · have hother : k ∉ job.spec.roles.toList.map (·.1) := hk
    rw [hroles, get?_countRoles_of_notMem hother]
    exact hresumes.others k hk

theorem updates_nextStatus (now : Instant) (job : Job) (identity : Identity) (cluster : Cluster)
    (created : Nat) : Updates now job (.progressing created, nextStatus now job identity cluster) :=
  ⟨rfl, rfl, fun _ _ => ⟨rfl, _, _, rfl⟩, nofun⟩

theorem renews_nextStatus (hnow : now.Valid) {job later : Job} (hresumes : job.Resumes later)
    (identity : Identity) (cluster : Cluster) :
    job.Renews (nextStatus now later identity cluster) :=
  renews_of_updates hnow hresumes (updates_nextStatus now later identity cluster 0) rfl

/-! ### A job that is complete -/

/-- A request for the job changes nothing, and its answer shows the job or is a failure. -/
theorem exchange_get_job (hfaults : Failing server.faults) {doc : Json}
    (hstored : server.cluster.get? ⟨.job, ns, name⟩ = some doc) :
    (server.exchange (.get ⟨.job, ns, name⟩)).2.cluster = server.cluster ∧
      ((server.exchange (.get ⟨.job, ns, name⟩)).1 = .reply 200 doc ∨
        (server.exchange (.get ⟨.job, ns, name⟩)).1.IsFailure) := by
  have hplain : server.cluster.exchange (.get ⟨.job, ns, name⟩) =
      (.reply 200 doc, server.cluster) := by
    simp only [Cluster.exchange, hstored]
  obtain ⟨-, -, hcases⟩ := Server.exchange_cases hfaults (.get ⟨.job, ns, name⟩)
  rw [hplain] at hcases
  rcases hcases with ⟨hanswer, hsame⟩ | ⟨-, hfailure, hsame | hsame⟩
  · exact ⟨hsame, .inl hanswer⟩
  · exact ⟨hsame, .inr hfailure⟩
  · exact ⟨hsame, .inr hfailure⟩

theorem serverStore_get (hpath : hasPath ns name = true) (kind : Kind) (server : Server) :
    serverStore (.get kind ns name) server =
      ((objectOf? kind (server.exchange (.get ⟨kind, ns, name⟩)).1).mapError (storeError kind name),
        (server.exchange (.get ⟨kind, ns, name⟩)).2) := by
  simp only [serverStore, handler, perform, hpath, if_true]

/-- A pass over a job that is complete makes one request, for the job. -/
theorem run_program_of_complete (settings : PassSettings) (now : Instant)
    (hfaults : Failing server.faults) (hpath : hasPath ns name = true)
    {doc : Json} {job : Job} (hstored : server.cluster.get? ⟨.job, ns, name⟩ = some doc)
    (hreads : Job.codec.decode doc = .ok job) (hstate : job.state = .complete) :
    ((program settings now ns name).run serverStore server).2 =
        (server.exchange (.get ⟨.job, ns, name⟩)).2 ∧
      (server.exchange (.get ⟨.job, ns, name⟩)).2.cluster = server.cluster ∧
      (¬ (server.exchange (.get ⟨.job, ns, name⟩)).1.IsFailure →
        ((program settings now ns name).run serverStore server).1 = .ok .alreadyComplete) := by
  let response := (server.exchange (.get ⟨.job, ns, name⟩)).1
  have hperform : (Program.perform (.get .job ns name) PassError.loadJob).run serverStore server =
      (((objectOf? .job response).mapError (storeError .job name)).mapError .loadJob,
        (server.exchange (.get ⟨.job, ns, name⟩)).2) := by
    rw [Program.run_perform, serverStore_get hpath]
  obtain ⟨hcluster, hresponse | hfailure⟩ := exchange_get_job hfaults hstored
  · have hfound : objectOf? .job response = .ok (some job) := by
      rw [show response = .reply 200 doc from hresponse]
      exact objectOf?_reply_eq_ok.2 ⟨job, hreads, rfl⟩
    have hget : (Program.perform (.get .job ns name) PassError.loadJob).run serverStore server =
        (.ok (some job), (server.exchange (.get ⟨.job, ns, name⟩)).2) := by
      rw [hperform, hfound]
      rfl
    rw [program, Program.run_bind_of_ok hget]
    simp only [hstate, if_true]
    exact ⟨rfl, hcluster, fun _ => rfl⟩
  · -- the look at the job fails, or finds none
    have hnone : ∀ job', objectOf? .job response ≠ .ok (some job') := objectOf?_failure hfailure .job
    rw [program, Program.run_bind, hperform]
    cases hanswer : objectOf? .job response with
    | error e => exact ⟨rfl, hcluster, fun h => absurd hfailure h⟩
    | ok found =>
      cases found with
      | none => exact ⟨rfl, hcluster, fun h => absurd hfailure h⟩
      | some job' => exact absurd hanswer (hnone job')

end Pass

end JobOperator
