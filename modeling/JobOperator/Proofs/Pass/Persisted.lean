import JobOperator.Proofs.Json.Unrepeated
import JobOperator.Proofs.Pass.Finalization
import JobOperator.Proofs.Pass.Timeline

/-!
What a pass computes and what the job has after it. The status is merged into the job, and a patch
takes nothing away: the times, and the numbers of each role that the pass counted, are those that it
computed, but the numbers of any other role stay as they were. As long as the job goes on there are
no others; a job that stops counts its roles anew and may keep numbers that it no longer has.
-/

namespace JobOperator

open Client Json

namespace JobStatus

/-- The numbers that are written for a role are read back. -/
theorem get?_of_mergePatch {doc : Json} {old new s : JobStatus} (hold : ReadFrom doc old)
    (hdoc : doc.unrepeated = doc) (hnew : new.Stamped)
    (hread : codec.decode (doc.mergePatch (codec.encode new)) = .ok s) {r : String}
    {numbers : RoleStatus} (hr : new.roleStatuses.get? r = some numbers) :
    s.roleStatuses.get? r = some numbers := by
  obtain ⟨⟨start, hstart, -⟩, ⟨last, hlast, -⟩, -⟩ := hnew
  have hnull : ∀ n, RoleStatus.codec.encode n ≠ .null := fun n h => by cases h
  have hshows := shows_of_decode hread
  rw [encode_eq hstart hlast, mergePatch_obj] at hshows
  have hroles : base "roleStatuses" (mergeMembers doc.membersOrNone
      (stampedMembers start last new.completionTime new.roleStatuses)) =
        (base "roleStatuses" doc.membersOrNone).mergePatch
          (.obj (Codec.entriesOf RoleStatus.codec new.roleStatuses)) := by
    refine base_mergeMembers_self (sets_stampedMembers _ _ _ _) (nodup_keys_of_unrepeated hdoc) ?_
    simp only [stampedMembers, List.mem_cons, List.mem_append]
    exact .inr (.inr (.inr (.inl rfl)))
  have hmem : (r, RoleStatus.codec.encode numbers) ∈
      Codec.entriesOf RoleStatus.codec new.roleStatuses :=
    Codec.mem_entriesOf.2 ⟨numbers, hr, rfl⟩
  have hnodup := nodup_keys_of_unrepeated (unrepeated_base hdoc "roleStatuses")
  refine hshows.roles r _ numbers ?_
    (RoleStatus.codec_merges _ numbers (Codec.base_null_or_decodes hold.shows.entries r))
  rw [membersOrNone, hroles, mergePatch_obj]
  exact lastMember?_mergeMembers_self (Codec.sets_entriesOf hnull _) hnodup hmem

end JobStatus

namespace Job

/-- The numbers that are written for a role of a job are read back. -/
theorem get?_of_statusPatch {members : List (String × Json)} {job : Job} {new s : JobStatus}
    (h : codec.decode (.obj members) = .ok job)
    (hdoc : (Json.obj members).unrepeated = .obj members) (hnew : new.Stamped)
    (hread : codec.decode ((Json.obj members).mergePatch (statusPatch (job.withStatus new))) =
      .ok (job.withStatus s)) {r : String} {numbers : RoleStatus}
    (hr : new.roleStatuses.get? r = some numbers) : s.roleStatuses.get? r = some numbers := by
  have hstatus {ms : List (String × Json)} {j : Job} (hj : codec.decode (.obj ms) = .ok j) :
      JobStatus.ReadFrom (base "status" ms) j.statusOrEmpty := by
    obtain ⟨-, hfields⟩ := Fields.readObject_eq_ok.1 (decode_obj.1 hj)
    obtain ⟨-, hfields⟩ := Fields.readMembers_cons.1 hfields
    obtain ⟨-, hfields⟩ := Fields.readMembers_cons.1 hfields
    exact readFrom_status (Fields.readMembers_cons.1 hfields).1
  rw [statusPatch_withStatus, mergePatch_obj] at hread
  have hbase : base "status" (mergeMembers members (statusMembers new)) =
      (base "status" members).mergePatch (JobStatus.codec.encode new) :=
    base_mergeMembers_self (sets_statusMembers new) (nodup_keys_of_unrepeated hdoc)
      (by simp [statusMembers])
  have hafter := hstatus hread
  rw [membersOrNone, hbase] at hafter
  rcases hafter with ⟨hnull, -⟩ | hafter
  · cases hnull
  · exact JobStatus.get?_of_mergePatch (hstatus h) (unrepeated_base hdoc "status") hnew hafter hr

end Job

/-- The status that a call writes. -/
def Call.written? : Call → Option JobStatus
  | .writeStatus job => job.status
  | _ => none

namespace Sample

/-- The small job after its role was renamed: its status has the old name, and one of its pods asks
for it to stop. -/
def renamed : Cluster :=
  let numbers : Json := .obj [("running", .int 1), ("completed", .int 0), ("failed", .int 0)]
  let status : Json := .obj
    [("startTime", .str "2023-11-14T22:13:20Z"), ("roleStatuses", .obj [("old", numbers)])]
  stopping.insert key (document.mergePatch (.obj [("status", status)]))

end Sample

namespace Pass

variable {settings : PassSettings} {now : Instant} {ns name : String} {job : Job}
  {identity : Identity} {images : Images} {status : JobStatus}

/-! ### What a pass computes -/

/-- A pass after which the job goes on or is completed has read the job, prepared a status for it and
written that, in its last call. -/
theorem run_program_eq_outcome {σ : Type} {handler : Handler σ} {s s' : σ} {o : PodsOutcome}
    (h : (program settings now ns name).run handler s = (.ok (outcome o), s')) :
    ∃ job status t t', handler (.get .job ns name) s = (.ok (some job), t) ∧
      job.state ≠ .complete ∧
      (prepare settings now job).run handler t = (.ok (o, status), t') ∧
      handler (.writeStatus (job.withStatus status)) t' = (.ok (), s') ∧
      ((program settings now ns name).calls handler s).getLast? =
        some (.writeStatus (job.withStatus status)) := by
  rw [program] at h ⊢
  obtain ⟨found, t, hget, h⟩ := Program.run_bind_eq_ok.1 h
  rw [Program.calls_bind_of_ok hget]
  cases found with
  | none => cases o <;> cases h
  | some job =>
    simp only at h ⊢
    split at h
    · cases o <;> cases h
    · rename_i hstate
      rw [if_neg hstate]
      rw [ofJob_eq] at h ⊢
      obtain ⟨⟨pods, status⟩, t', hprepare, hpersist⟩ := Program.run_bind_eq_ok.1 h
      rw [Program.calls_bind_of_ok hprepare]
      rw [persist] at hpersist ⊢
      obtain ⟨u, t'', hwrite, hdone⟩ := Program.run_bind_eq_ok.1 hpersist
      have hcall : (Program.perform (.writeStatus (job.withStatus status))
          PassError.persistStatus).calls handler t' = [.writeStatus (job.withStatus status)] :=
        Program.calls_perform _ _
      rw [Program.calls_bind_of_ok hwrite, hcall]
      have hpods : pods = o := by
        cases pods <;> cases o <;> cases hdone <;> rfl
      subst hpods
      cases hdone
      refine ⟨job, status, t, t', Program.run_perform_eq_ok.1 hget, Ne.symm hstate, hprepare,
        Program.run_perform_eq_ok.1 hwrite, ?_⟩
      simp

/-- A job that stops counts no pod as running. -/
theorem running_of_run_prepare {σ : Type} {handler : Handler σ} {s s' : σ} {requestedBy : String}
    (h : (prepare settings now job).run handler s = (.ok (.stopped requestedBy, status), s'))
    {r : String} {numbers : RoleStatus} (hr : status.roleStatuses.get? r = some numbers) :
    numbers.running = 0 := by
  rw [prepare] at h
  obtain ⟨identity, _, -, h⟩ := Program.run_bind_eq_ok.1 h
  obtain ⟨_, _, -, h⟩ := Program.run_bind_eq_ok.1 h
  rw [syncPods] at h
  obtain ⟨pods, t, -, h⟩ := Program.run_bind_eq_ok.1 h
  split at h
  · obtain ⟨deletions, verdicts, t', hpods, hrun, -⟩ :=
      run_finalize handler identity pods (noNumbers job) t
    rw [Program.run_bind_of_ok hrun] at h
    cases h
    exact hpods.running_eq hr
  · obtain ⟨_, _, -, h⟩ := Program.run_bind_eq_ok.1 h
    cases h

/-- The numbers that a job had for a role are left out of a status only when it stops. -/
theorem get?_of_updates {created : Nat} (h : Updates now job (.progressing created, status))
    {r : String} (hr : status.roleStatuses.get? r = none) :
    job.statusOrEmpty.roleStatuses.get? r = none := by
  obtain ⟨-, pods, podJob, hroles⟩ := h.progressing created rfl
  rw [show status.roleStatuses = _ from hroles] at hr
  by_cases hmem : r ∈ job.spec.roles.toList.map (·.1)
  · have hsome : ((countRoles pods podJob job.spec.roles.toList
        job.statusOrEmpty.roleStatuses).get? r).isSome = true := isSome_countRoles hmem
    rw [hr] at hsome
    cases hsome
  · rwa [get?_countRoles_of_notMem hmem] at hr

/-! ### What the job has after it -/

/-- What a job has of the status that a pass computed, given what it had before. -/
structure Persists (result : Outcome) (previous computed stored : JobStatus) : Prop where
  start : stored.startTime = computed.startTime
  last : stored.lastReconcileTime = computed.lastReconcileTime
  completion : stored.completionTime = computed.completionTime
  numbers : ∀ r, stored.roleStatuses.get? r = computed.roleStatuses.get? r ∨
    computed.roleStatuses.get? r = none ∧ ∃ numbers,
      previous.roleStatuses.get? r = some numbers ∧ stored.roleStatuses.get? r = some numbers
  progressing : ∀ created, result = .progressing created → stored = computed
  completed : ∀ requestedBy, result = .completed requestedBy → ∀ r numbers,
    computed.roleStatuses.get? r = some numbers → numbers.running = 0

/-- What a pass over a stored job writes, the job has after it. -/
theorem persists_of_follows (hnow : now.Valid) {doc : Json} {o : PodsOutcome}
    (hreads : Job.codec.decode doc = .ok job) (hdoc : doc.unrepeated = doc)
    (hunfinished : job.state ≠ .complete) (hupdates : Updates now job (o, status))
    (hrunning : ∀ requestedBy, o = .stopped requestedBy → ∀ r numbers,
      status.roleStatuses.get? r = some numbers → numbers.running = 0)
    (hwritten : ∃ job', Job.codec.decode (doc.mergePatch (statusPatch (job.withStatus status))) =
      .ok job') :
    ∃ stored, Job.codec.decode (doc.mergePatch (statusPatch (job.withStatus status))) =
        .ok (job.withStatus stored) ∧
      Persists (outcome o) job.statusOrEmpty status stored := by
  obtain ⟨job', hjob'⟩ := hwritten
  obtain ⟨members, rfl⟩ := Job.eq_obj_of_decode hjob'
  obtain ⟨stored, hstored, hfollows⟩ := decode_of_updates hnow hreads hunfinished hupdates
  have hstamped := stamped_of_updates hnow (Job.timed_of_decode hreads)
    (Job.state_ne_complete_iff.1 hunfinished) hupdates
  have hnumbers (r : String) : stored.roleStatuses.get? r = status.roleStatuses.get? r ∨
      status.roleStatuses.get? r = none ∧ ∃ numbers,
        job.statusOrEmpty.roleStatuses.get? r = some numbers ∧
          stored.roleStatuses.get? r = some numbers := by
    cases hr : status.roleStatuses.get? r with
    | some numbers => exact .inl (Job.get?_of_statusPatch hreads hdoc hstamped hstored hr)
    | none =>
      rcases hfollows.roles r with hsame | hkept
      · exact .inl (hsame.trans hr)
      · exact .inr ⟨rfl, hkept⟩
  refine ⟨stored, hstored, hfollows.start, hfollows.last, hfollows.completion, hnumbers,
    fun created hcreated => ?_, fun requestedBy hstopped => ?_⟩
  · have ho : o = .progressing created := by
      cases o <;> cases hcreated
      rfl
    subst ho
    have hroles : stored.roleStatuses = status.roleStatuses := by
      refine SortedMap.ext_get? fun r => ?_
      rcases hnumbers r with hsame | ⟨hnone, numbers, hold, -⟩
      · exact hsame
      · rw [get?_of_updates hupdates hnone] at hold
        cases hold
    obtain ⟨start, completion, last, roles⟩ := stored
    obtain ⟨start', completion', last', roles'⟩ := status
    cases hfollows.start
    cases hfollows.last
    cases hfollows.completion
    cases hroles
    rfl
  · have ho : o = .stopped requestedBy := by
      cases o <;> cases hstopped
      rfl
    exact hrunning requestedBy ho

/-- After a pass without faults the job has what the pass computed: the times, and the numbers of
each role that it counted. Other numbers stay as they were, and there are none as long as the job
goes on. -/
theorem persisted_status {server : Server} (hfaults : server.faults = [])
    (hhomed : server.cluster.Homed ⟨.job, ns, name⟩)
    (hdoc : ∀ doc, server.cluster.get? ⟨.job, ns, name⟩ = some doc → doc.unrepeated = doc)
    (hnow : now.Valid) {o : PodsOutcome}
    (hrun : ((program settings now ns name).run serverStore server).1 = .ok (outcome o)) :
    ∃ job computed stored, server.cluster.job? ns name = some job ∧
      ((program settings now ns name).calls serverStore server).getLast? =
        some (.writeStatus (job.withStatus computed)) ∧
      ((program settings now ns name).run serverStore server).2.cluster.job? ns name =
        some (job.withStatus stored) ∧
      Persists (outcome o) job.statusOrEmpty computed stored := by
  obtain ⟨-, hresult, hcluster, hcalls⟩ := run_of_faultless (program settings now ns name) hfaults
  rw [hresult] at hrun
  obtain ⟨job, computed, t, t', hget, hunfinished, hprepare, hwrite, hlast⟩ :=
    run_program_eq_outcome (Prod.ext hrun rfl)
  obtain ⟨-, hsame, ⟨hnone, -⟩ | ⟨doc, job', hstored, hreads, hfound⟩⟩ := store_get.1 hget
  · cases hnone
  cases hfound
  subst hsame
  -- nothing before the last call touches the job, and that call writes to it
  obtain ⟨hkept, hupdates⟩ := within_prepare.run
    (fun c (s : Cluster) hc (hs : s.get? ⟨.job, ns, name⟩ = some doc) =>
      (store_sparesJobs hc s rfl).trans hs) hstored
  rw [hprepare] at hkept hupdates
  obtain ⟨ns', doc', job'', hns', hdoc', hreads', hwritten⟩ :=
    of_store_writeStatus (congrArg Prod.fst hwrite)
  obtain ⟨hns, hname⟩ := hhomed doc job hstored hreads
  obtain rfl : ns = ns' := Option.some.inj (hns.symm.trans hns')
  obtain rfl : name = job.name := hname.symm
  obtain rfl : doc = doc' := Option.some.inj (hkept.symm.trans hdoc')
  obtain ⟨stored, hdecode, hpersists⟩ := persists_of_follows hnow hreads (hdoc doc hstored)
    hunfinished (hupdates _ rfl) (fun _ hstopped _ _ hr => by
      subst hstopped
      exact running_of_run_prepare hprepare hr) ⟨job'', hreads'⟩
  refine ⟨job, computed, stored, Cluster.job?_eq_some.2 ⟨doc, hstored, hreads⟩, ?_, ?_, hpersists⟩
  · rw [hcalls]
    exact hlast
  · rw [hcluster]
    refine Cluster.job?_eq_some.2 ⟨_, ?_, hdecode⟩
    rw [← show (store _ t').2 = _ from congrArg Prod.snd hwrite, hwritten]
    exact SortedMap.get?_insert_self _ _ _

/-- The first pass over the small job writes the status that the job then has. -/
theorem persisted_status_posted :
    let run := (program {} Sample.now "default" "train").run serverStore
      { cluster := Sample.posted }
    ∃ (job : Job) (computed stored : JobStatus),
      run.2.cluster.job? "default" "train" = some (job.withStatus stored) ∧
      Persists (.progressing 2) job.statusOrEmpty computed stored := by
  let server : Server := { cluster := Sample.posted }
  have hdoc : ∀ doc, server.cluster.get? ⟨.job, "default", "train"⟩ = some doc →
      doc.unrepeated = doc := by
    intro doc hdoc
    obtain rfl : Sample.document = doc := Option.some.inj hdoc
    decide +kernel
  have hfaults : server.faults = [] := rfl
  have hrun : ((program {} Sample.now "default" "train").run serverStore server).1 =
      .ok (outcome (.progressing 2)) := rfl
  obtain ⟨job, computed, stored, -, -, hjob, hpersists⟩ :=
    persisted_status hfaults Sample.homed_posted hdoc Sample.valid_now hrun
  exact ⟨job, computed, stored, hjob, hpersists⟩

/-- A job whose role was renamed keeps the numbers of the old name when it stops, as of a pod that
runs, though the status that the pass computed has none for it. -/
theorem keeps_old_numbers :
    let pass := program {} Sample.later "default" "train"
    let server : Server := { cluster := Sample.renamed }
    let old (status : JobStatus) : Option RoleStatus := status.roleStatuses.get? "old"
    (pass.run serverStore server).1 = .ok (.completed "train-worker-1") ∧
      ((pass.calls serverStore server).getLast?.bind Call.written?).map old = some none ∧
      ((pass.run serverStore server).2.cluster.job? "default" "train").map
        (fun job => old job.statusOrEmpty) = some (some { running := 1 }) := by
  decide +kernel

end Pass

end JobOperator
