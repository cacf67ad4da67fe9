import JobOperator.Proofs.Pass.Step

/-!
The course of a job over passes whose requests may fail, while others change everything but the job.
What is read of the job at any time was written by a pass that had read it before, so its times are
set once, and a job that is complete stays as it is.
-/

namespace JobOperator

open Client

/-- What happens in a cluster: a pass over the job, with the faults of the server and the time of the
pass, or a change of any objects but the job. -/
inductive Event where
  | pass (faults : List Fault) (now : Instant)
  | change (others : Cluster)

namespace Event

/-- The cluster after an event. -/
def next (settings : PassSettings) (ns name : String) : Event → Cluster → Cluster
  | pass faults now, cluster =>
    ((Pass.program settings now ns name).run (handler Server.exchange) { cluster, faults }).2.cluster
  | change others, cluster =>
    match cluster.get? ⟨.job, ns, name⟩ with
    | some doc => others.insert ⟨.job, ns, name⟩ doc
    | none => others.erase ⟨.job, ns, name⟩

/-- The time of a pass. -/
def time? : Event → Option Instant
  | pass _ now => some now
  | change _ => none

/-- Whether all faults of a pass are failures, and its time is one that can be written. -/
def Allowed : Event → Prop
  | pass faults now => Failing faults ∧ now.Valid
  | change _ => True

end Event

namespace Cluster

/-- The cluster after events. -/
def after (settings : PassSettings) (ns name : String) (events : List Event) (cluster : Cluster) :
    Cluster :=
  events.foldl (fun cluster event => event.next settings ns name cluster) cluster

/-- The job that is read from a cluster. -/
def job? (cluster : Cluster) (ns name : String) : Option Job :=
  (cluster.get? ⟨.job, ns, name⟩).bind fun doc => (Job.codec.decode doc).toOption

theorem job?_eq_some {cluster : Cluster} {ns name : String} {job : Job} :
    cluster.job? ns name = some job ↔
      ∃ doc, cluster.get? ⟨.job, ns, name⟩ = some doc ∧ Job.codec.decode doc = .ok job := by
  rw [job?, Option.bind_eq_some_iff]
  refine exists_congr fun doc => and_congr_right fun _ => ?_
  cases Job.codec.decode doc <;> simp [Except.toOption]

theorem Homed.of_job? {cluster : Cluster} {ns name : String} {job : Job}
    (h : cluster.Homed ⟨.job, ns, name⟩) (hjob : cluster.job? ns name = some job) :
    job.metadata.namespace = some ns ∧ job.name = name := by
  obtain ⟨doc, hdoc, hreads⟩ := job?_eq_some.1 hjob
  exact h doc job hdoc hreads

/-- A job that is found in a server which may fail is the one that it has. -/
theorem job?_of_get {server s : Server} {ns name : String} {job : Job}
    (hfaults : Failing server.faults)
    (h : serverStore (.get .job ns name) server = (.ok (some job), s)) :
    server.cluster.job? ns name = some job := by
  obtain ⟨-, -, ⟨hanswer, -⟩ | ⟨-, hrefused, -⟩⟩ := follows_store hfaults (.get .job ns name)
  · rw [h] at hanswer
    obtain ⟨-, -, ⟨hnone, -⟩ | ⟨doc, found, hdoc, hreads, hfound⟩⟩ :=
      store_get.1 (Prod.ext hanswer.symm rfl)
    · cases hnone
    · cases hfound
      exact job?_eq_some.2 ⟨doc, hdoc, hreads⟩
  · rw [h] at hrefused
    exact absurd rfl (hrefused job)

end Cluster

/-- The place of a state in the course of a job. -/
def JobState.rank : JobState → Nat
  | .pending => 0
  | .running => 1
  | .complete => 2

namespace Job

variable {job later last : Job}

/-- A job and the same job read later: it has not gone back, and the times at which it was started
and completed stay as they were set. -/
structure Precedes (job later : Job) : Prop where
  forward : job.state.rank ≤ later.state.rank
  start : ∀ t, job.statusOrEmpty.startTime = some t → later.statusOrEmpty.startTime = some t
  completion : ∀ t, job.statusOrEmpty.completionTime = some t →
    later.statusOrEmpty.completionTime = some t

theorem Precedes.refl (job : Job) : job.Precedes job :=
  ⟨Nat.le_refl _, fun _ h => h, fun _ h => h⟩

theorem Precedes.trans (h : job.Precedes later) (h' : later.Precedes last) : job.Precedes last :=
  ⟨Nat.le_trans h.forward h'.forward, fun t ht => h'.start t (h.start t ht),
    fun t ht => h'.completion t (h.completion t ht)⟩

/-- The times of a job after passes that were made at the times of a clock: it was started by one of
the passes, and completed at its last look, which was not before the start unless the clock went
back. -/
structure Dated (clock : List Instant) (job : Job) : Prop where
  start : ∀ t, job.statusOrEmpty.startTime = some t → t ∈ clock
  completion : ∀ t, job.statusOrEmpty.completionTime = some t →
    job.statusOrEmpty.lastReconcileTime = some t ∧
      ∃ start, job.statusOrEmpty.startTime = some start ∧ (clock.Pairwise (· ≤ ·) → start ≤ t)

theorem Dated.of_status_none (h : job.status = none) : job.Dated [] := by
  have hempty : job.statusOrEmpty = {} := by
    rw [statusOrEmpty, h]
    rfl
  refine ⟨fun t ht => ?_, fun t ht => ?_⟩
  · rw [hempty] at ht
    cases ht
  · rw [hempty] at ht
    cases ht

theorem Dated.append {clock : List Instant} (h : job.Dated clock) (now : Instant) :
    job.Dated (clock ++ [now]) := by
  refine ⟨fun t ht => List.mem_append_left _ (h.start t ht), fun t ht => ?_⟩
  obtain ⟨hlast, start, hstart, hle⟩ := h.completion t ht
  exact ⟨hlast, start, hstart, fun hclock => hle (List.pairwise_append.1 hclock).1⟩

end Job

namespace Pass

variable {settings : PassSettings} {ns name : String} {now : Instant} {cluster : Cluster}
  {job later : Job} {event : Event} {events : List Event} {clock : List Instant}

/-! ### One event -/

/-- What is read of a job after a pass: what was read before, or that with the times that the pass
has written. -/
inductive Succeeds (now : Instant) (job : Job) : Job → Prop
  | same : Succeeds now job job
  | written (result : PodsOutcome × JobStatus) (status : JobStatus)
      (unfinished : job.statusOrEmpty.completionTime = none) (updates : Updates now job result)
      (follows : JobStatus.Follows job.statusOrEmpty result.2 status) :
      Succeeds now job (job.withStatus status)

theorem Succeeds.precedes (h : Succeeds now job later) : job.Precedes later := by
  cases h with
  | same => exact .refl job
  | written result status unfinished updates follows =>
    have hstart : status.startTime = job.statusOrEmpty.startTime.or (some now) :=
      follows.start.trans updates.start
    refine ⟨?_, fun t ht => ?_, fun t ht => ?_⟩
    · rw [Job.state_eq, Job.state_eq]
      change job.statusOrEmpty.state.rank ≤ status.state.rank
      unfold JobStatus.state
      rw [hstart, unfinished]
      cases job.statusOrEmpty.startTime <;> cases status.completionTime <;> simp [JobState.rank]
    · change status.startTime = some t
      rw [hstart, ht]
      rfl
    · rw [unfinished] at ht
      cases ht

theorem Succeeds.dated (h : Succeeds now job later) (hdated : job.Dated clock) :
    later.Dated (clock ++ [now]) := by
  cases h with
  | same => exact hdated.append now
  | written result status unfinished updates follows =>
    have hstart : status.startTime = job.statusOrEmpty.startTime.or (some now) :=
      follows.start.trans updates.start
    refine ⟨fun t ht => ?_, fun t ht => ?_⟩
    · change status.startTime = some t at ht
      rw [hstart] at ht
      cases hold : job.statusOrEmpty.startTime with
      | none =>
        rw [hold] at ht
        cases ht
        exact List.mem_append_right _ (List.mem_singleton.2 rfl)
      | some start =>
        rw [hold] at ht
        obtain rfl : start = t := Option.some.inj ht
        exact List.mem_append_left _ (hdated.start start hold)
    · change status.completionTime = some t at ht
      have hcompleted : result.2.completionTime = some t := follows.completion.symm.trans ht
      obtain rfl : now = t := by
        cases hpods : result.1 with
        | progressing created =>
          rw [(updates.progressing created hpods).1, unfinished] at hcompleted
          cases hcompleted
        | stopped requestedBy =>
          exact Option.some.inj ((updates.stopped requestedBy hpods).symm.trans hcompleted)
      refine ⟨follows.last.trans updates.last, ?_⟩
      cases hold : job.statusOrEmpty.startTime with
      | none =>
        refine ⟨now, hstart.trans (by rw [hold]; rfl), fun _ => ?_⟩
        exact .inr ⟨rfl, Nat.le_refl _⟩
      | some start =>
        refine ⟨start, hstart.trans (by rw [hold]; rfl), fun hclock => ?_⟩
        exact (List.pairwise_append.1 hclock).2.2 start (hdated.start start hold) now
          (List.mem_singleton.2 rfl)

theorem get?_change (others : Cluster) :
    ((Event.change others).next settings ns name cluster).get? ⟨.job, ns, name⟩ =
      cluster.get? ⟨.job, ns, name⟩ := by
  cases hfound : cluster.get? ⟨.job, ns, name⟩ with
  | some doc =>
    simp only [Event.next, hfound]
    exact SortedMap.get?_insert_self others _ doc
  | none =>
    simp only [Event.next, hfound]
    exact SortedMap.get?_erase_self others _

/-- A pass leaves the document of the job as it is, or has written a status over it. -/
theorem document_of_pass (settings : PassSettings) (now : Instant)
    (hhomed : cluster.Homed ⟨.job, ns, name⟩) {faults : List Fault} (hfaults : Failing faults) :
    ((Event.pass faults now).next settings ns name cluster).get? ⟨.job, ns, name⟩ =
        cluster.get? ⟨.job, ns, name⟩ ∨
      ∃ doc job result, cluster.get? ⟨.job, ns, name⟩ = some doc ∧
        Job.codec.decode doc = .ok job ∧ job.state ≠ .complete ∧ Updates now job result ∧
        ((Event.pass faults now).next settings ns name cluster).get? ⟨.job, ns, name⟩ =
          some (doc.mergePatch (statusPatch (job.withStatus result.2))) := by
  let server : Server := { cluster, faults }
  have hserver : Failing server.faults := hfaults
  rcases document_step settings now hserver hhomed with
    ⟨hsame, -⟩ | ⟨doc, job, result, hupdates, hwrote⟩
  · exact .inl hsame
  · exact .inr ⟨doc, job, result, hwrote.stored, hwrote.reads, hwrote.unfinished, hupdates,
      hwrote.get?_after⟩

/-- What is read after a pass succeeds what was read before. -/
theorem succeeds_of_pass (hhomed : cluster.Homed ⟨.job, ns, name⟩) {faults : List Fault}
    (hfaults : Failing faults) (hnow : now.Valid)
    (h : ((Event.pass faults now).next settings ns name cluster).job? ns name = some later) :
    ∃ job, cluster.job? ns name = some job ∧ Succeeds now job later := by
  obtain ⟨doc', hdoc', hlater⟩ := Cluster.job?_eq_some.1 h
  rcases document_of_pass settings now hhomed hfaults with hsame | ⟨doc, job, result, hdoc, hreads,
    hunfinished, hupdates, hwritten⟩
  · rw [hsame] at hdoc'
    exact ⟨later, Cluster.job?_eq_some.2 ⟨doc', hdoc', hlater⟩, .same⟩
  · rw [hwritten] at hdoc'
    cases hdoc'
    obtain ⟨members, rfl⟩ := Job.eq_obj_of_decode hlater
    obtain ⟨status, hdecode, hfollows⟩ := decode_of_updates hnow hreads hunfinished hupdates
    rw [hdecode] at hlater
    cases hlater
    exact ⟨job, Cluster.job?_eq_some.2 ⟨_, hdoc, hreads⟩,
      .written result status (Job.state_ne_complete_iff.1 hunfinished) hupdates hfollows⟩

theorem Succeeds.metadata (h : Succeeds now job later) : later.metadata = job.metadata := by
  cases h <;> rfl

theorem Succeeds.exists_eq (h : Succeeds now job later) : ∃ status, later = { job with status } := by
  cases h with
  | same => exact ⟨job.status, rfl⟩
  | written result status => exact ⟨some status, rfl⟩

/-- What is read after an event was read before, from where the event may have brought it
forward. -/
theorem job?_of_next (hhomed : cluster.Homed ⟨.job, ns, name⟩) (hallowed : event.Allowed)
    (h : (event.next settings ns name cluster).job? ns name = some later) :
    ∃ job, cluster.job? ns name = some job ∧ later.metadata = job.metadata ∧ job.Precedes later ∧
      ∀ clock, job.Dated clock → later.Dated (clock ++ event.time?.toList) := by
  cases event with
  | pass faults now =>
    obtain ⟨hfaults, hnow⟩ := hallowed
    obtain ⟨job, hjob, hsucceeds⟩ := succeeds_of_pass hhomed hfaults hnow h
    exact ⟨job, hjob, hsucceeds.metadata, hsucceeds.precedes, fun _ => hsucceeds.dated⟩
  | change others =>
    rw [Cluster.job?, get?_change] at h
    refine ⟨later, h, rfl, .refl later, fun clock hdated => ?_⟩
    rw [Event.time?, Option.toList_none, List.append_nil]
    exact hdated

/-! ### Any number of events -/

/-- A cluster at some time of a run: what is read of the job is kept under its own name, and was
dated by the clock. -/
structure Tracked (ns name : String) (clock : List Instant) (cluster : Cluster) : Prop where
  homed : cluster.Homed ⟨.job, ns, name⟩
  dated : ∀ job, cluster.job? ns name = some job → job.Dated clock

theorem Tracked.next (settings : PassSettings) (h : Tracked ns name clock cluster)
    (hallowed : event.Allowed) :
    Tracked ns name (clock ++ event.time?.toList) (event.next settings ns name cluster) := by
  refine ⟨fun doc later hdoc hlater => ?_, fun later hlater => ?_⟩
  · obtain ⟨job, hjob, hmetadata, -, -⟩ :=
      job?_of_next h.homed hallowed (Cluster.job?_eq_some.2 ⟨doc, hdoc, hlater⟩)
    obtain ⟨doc', hdoc', hreads⟩ := Cluster.job?_eq_some.1 hjob
    have hhome : job.metadata.namespace = some ns ∧ job.metadata.nameAny = name :=
      h.homed doc' job hdoc' hreads
    rw [← hmetadata] at hhome
    exact hhome
  · obtain ⟨job, hjob, -, -, hdated⟩ := job?_of_next h.homed hallowed hlater
    exact hdated clock (h.dated job hjob)

theorem Tracked.after (h : Tracked ns name clock cluster)
    (hallowed : ∀ event ∈ events, event.Allowed) :
    Tracked ns name (clock ++ events.filterMap Event.time?)
      (cluster.after settings ns name events) := by
  induction events generalizing clock cluster with
  | nil =>
    rw [List.filterMap_nil, List.append_nil]
    exact h
  | cons event events ih =>
    have hnext := h.next settings (hallowed event List.mem_cons_self)
    have hrest := ih hnext fun event hevent => hallowed event (List.mem_cons_of_mem _ hevent)
    have htimes : event.time?.toList ++ events.filterMap Event.time? =
        (event :: events).filterMap Event.time? := by
      rw [List.filterMap_cons]
      cases event.time? <;> rfl
    rw [List.append_assoc, htimes] at hrest
    exact hrest

theorem job?_of_after (h : Tracked ns name clock cluster)
    (hallowed : ∀ event ∈ events, event.Allowed)
    (hlater : (cluster.after settings ns name events).job? ns name = some later) :
    ∃ job, cluster.job? ns name = some job ∧ job.Precedes later := by
  induction events generalizing clock cluster with
  | nil => exact ⟨later, hlater, .refl later⟩
  | cons event events ih =>
    have hevent := hallowed event List.mem_cons_self
    obtain ⟨middle, hmiddle, hprecedes⟩ := ih (h.next settings hevent)
      (fun event hevent => hallowed event (List.mem_cons_of_mem _ hevent)) hlater
    obtain ⟨job, hjob, -, hfirst, -⟩ := job?_of_next h.homed hevent hmiddle
    exact ⟨job, hjob, hfirst.trans hprecedes⟩

/-! ### Documents in object form -/

/-- Whether the job is stored as an object from which it can be read. -/
def Legible (ns name : String) (cluster : Cluster) : Prop :=
  ∃ members job, cluster.get? ⟨.job, ns, name⟩ = some (.obj members) ∧
    Job.codec.decode (.obj members) = .ok job

theorem Legible.job? (h : Legible ns name cluster) : ∃ job, cluster.job? ns name = some job := by
  obtain ⟨members, job, hstored, hreads⟩ := h
  exact ⟨job, Cluster.job?_eq_some.2 ⟨_, hstored, hreads⟩⟩

theorem Legible.next (h : Legible ns name cluster) (hhomed : cluster.Homed ⟨.job, ns, name⟩)
    (hallowed : event.Allowed) : Legible ns name (event.next settings ns name cluster) := by
  obtain ⟨members, job, hstored, hreads⟩ := h
  cases event with
  | change others => exact ⟨members, job, (get?_change others).trans hstored, hreads⟩
  | pass faults now =>
    obtain ⟨hfaults, hnow⟩ := hallowed
    rcases document_of_pass settings now hhomed hfaults with
      hsame | ⟨doc, job', result, hdoc, hreads', hunfinished, hupdates, hwritten⟩
    · exact ⟨members, job, hsame.trans hstored, hreads⟩
    · obtain rfl : Json.obj members = doc := Option.some.inj (hstored.symm.trans hdoc)
      obtain ⟨status, hdecode, -⟩ := decode_of_updates hnow hreads' hunfinished hupdates
      obtain ⟨members', hmembers⟩ : ∃ members', (Json.obj members).mergePatch
          (statusPatch (job'.withStatus result.2)) = .obj members' := ⟨_, rfl⟩
      rw [hmembers] at hwritten hdecode
      exact ⟨members', _, hwritten, hdecode⟩

theorem Legible.after (h : Legible ns name cluster) (htracked : Tracked ns name clock cluster)
    (hallowed : ∀ event ∈ events, event.Allowed) :
    Legible ns name (cluster.after settings ns name events) := by
  induction events generalizing clock cluster with
  | nil => exact h
  | cons event events ih =>
    have hevent := hallowed event List.mem_cons_self
    exact ih (h.next htracked.homed hevent) (htracked.next settings hevent) fun event hevent =>
      hallowed event (List.mem_cons_of_mem _ hevent)

/-! ### A job that is complete -/

/-- What a pass does that only looks at a job: it asks for the job once, changes nothing, and if it
has an answer, says that the job was complete already. -/
structure OnlyLooks (ns name : String) (before : Cluster)
    (run : Except PassError Outcome × Server) : Prop where
  request : ∃ response, run.2.log = [{ request := .get ⟨.job, ns, name⟩, response }] ∧
    (¬ response.IsFailure → run.1 = .ok .alreadyComplete)
  cluster : run.2.cluster = before

theorem onlyLooks_of_complete (settings : PassSettings) (now : Instant)
    (hpath : hasPath ns name = true) (hjob : cluster.job? ns name = some job)
    (hstate : job.state = .complete) {faults : List Fault} (hfaults : Failing faults) :
    OnlyLooks ns name cluster
      ((program settings now ns name).run (handler Server.exchange) { cluster, faults }) := by
  let server : Server := { cluster, faults }
  obtain ⟨doc, hstored, hreads⟩ := Cluster.job?_eq_some.1 hjob
  have hserver : Failing server.faults := hfaults
  obtain ⟨hrun, hsame, hanswer⟩ :=
    run_program_of_complete settings now hserver hpath hstored hreads hstate
  have hlog := Server.log_exchange (.get ⟨.job, ns, name⟩) server
  rw [← hrun] at hsame hlog
  exact ⟨⟨_, hlog, hanswer⟩, hsame⟩

theorem get?_after_of_complete (hpath : hasPath ns name = true)
    (hallowed : ∀ event ∈ events, event.Allowed) (hjob : cluster.job? ns name = some job)
    (hstate : job.state = .complete) :
    (cluster.after settings ns name events).get? ⟨.job, ns, name⟩ =
      cluster.get? ⟨.job, ns, name⟩ := by
  induction events generalizing cluster with
  | nil => rfl
  | cons event events ih =>
    have hnext : (event.next settings ns name cluster).get? ⟨.job, ns, name⟩ =
        cluster.get? ⟨.job, ns, name⟩ := by
      cases event with
      | change others => exact get?_change others
      | pass faults now =>
        obtain ⟨hfaults, -⟩ := hallowed _ List.mem_cons_self
        have hlooks := onlyLooks_of_complete settings now hpath hjob hstate hfaults
        rw [Event.next, hlooks.cluster]
    have hsame : (event.next settings ns name cluster).job? ns name = cluster.job? ns name := by
      rw [Cluster.job?, hnext, Cluster.job?]
    have hrest := ih (fun event hevent => hallowed event (List.mem_cons_of_mem _ hevent))
      (hsame.trans hjob)
    exact hrest.trans hnext

/-- A job that starts without a status, over any passes whose failing requests may have their effect
or not, and any changes of other objects: it goes forward only, its times are set once and in order,
and when it is complete, it stays as it is and each pass only looks at it. -/
theorem job_timeline (settings : PassSettings) {start : Cluster} {doc : Json}
    {earlier later : List Event}
    (hstored : start.get? ⟨.job, ns, name⟩ = some doc) (hreads : Job.codec.decode doc = .ok job)
    (hhomed : start.Homed ⟨.job, ns, name⟩) (hpath : hasPath ns name = true)
    (hstatus : job.status = none) (hallowed : ∀ event ∈ earlier ++ later, event.Allowed) :
    let middle := start.after settings ns name earlier
    let last := middle.after settings ns name later
    ((∃ members, doc = .obj members) → ∃ job, middle.job? ns name = some job) ∧
      ∀ job, middle.job? ns name = some job →
        job.Dated (earlier.filterMap Event.time?) ∧
          (∀ job', last.job? ns name = some job' → job.Precedes job') ∧
          (job.state = .complete →
            last.get? ⟨.job, ns, name⟩ = middle.get? ⟨.job, ns, name⟩ ∧
              ∀ faults now, Failing faults → OnlyLooks ns name middle
                ((program settings now ns name).run (handler Server.exchange)
                  { cluster := middle, faults })) := by
  intro middle last
  have hearlier : ∀ event ∈ earlier, event.Allowed := fun event hevent =>
    hallowed event (List.mem_append_left _ hevent)
  have hlater : ∀ event ∈ later, event.Allowed := fun event hevent =>
    hallowed event (List.mem_append_right _ hevent)
  have hstart : Tracked ns name [] start := by
    refine ⟨hhomed, fun first hfirst => ?_⟩
    obtain ⟨doc', hdoc', hreads'⟩ := Cluster.job?_eq_some.1 hfirst
    obtain rfl : doc = doc' := Option.some.inj (hstored.symm.trans hdoc')
    obtain rfl : job = first := Except.ok.inj (hreads.symm.trans hreads')
    exact .of_status_none hstatus
  have hmiddle : Tracked ns name (earlier.filterMap Event.time?) middle := hstart.after hearlier
  refine ⟨?_, fun job' hjob' => ⟨hmiddle.dated job' hjob', fun job'' hjob'' => ?_, fun hstate => ?_⟩⟩
  · rintro ⟨members, rfl⟩
    have hlegible : Legible ns name start := ⟨members, job, hstored, hreads⟩
    exact (hlegible.after hstart hearlier).job?
  · obtain ⟨before, hbefore, hprecedes⟩ := job?_of_after hmiddle hlater hjob''
    obtain rfl : job' = before := Option.some.inj (hjob'.symm.trans hbefore)
    exact hprecedes
  · refine ⟨get?_after_of_complete hpath hlater hjob' hstate, fun faults now hfaults => ?_⟩
    exact onlyLooks_of_complete settings now hpath hjob' hstate hfaults

/-- A job is started, one of its pods asks for it to stop, and the pass that completes it has no
answer when it writes that: the job is complete all the same. -/
theorem job_timeline_stopped :
    let middle := Sample.posted.after {} "default" "train" [.pass [] Sample.now,
      .change Sample.stopping, .pass [Sample.lost .patch .job] Sample.later]
    ∃ job, middle.job? "default" "train" = some job ∧ job.state = .complete ∧
      job.Dated [Sample.now, Sample.later] ∧
        ∀ faults now, Failing faults → OnlyLooks "default" "train" middle
          ((program {} now "default" "train").run (handler Server.exchange)
            { cluster := middle, faults }) := by
  let events : List Event := [.pass [] Sample.now, .change Sample.stopping,
    .pass [Sample.lost .patch .job] Sample.later]
  have hallowed : ∀ event ∈ events ++ [], event.Allowed := by
    intro event hevent
    rw [List.append_nil] at hevent
    rcases List.mem_cons.1 hevent with rfl | hevent
    · exact ⟨fun _ hfault => absurd hfault List.not_mem_nil, Sample.valid_now⟩
    · rcases List.mem_cons.1 hevent with rfl | hevent
      · trivial
      · rw [List.mem_singleton.1 hevent]
        exact ⟨Sample.failing_lost .patch .job, Sample.valid_later⟩
  have hstate : ((Sample.posted.after {} "default" "train" [.pass [] Sample.now,
      .change Sample.stopping, .pass [Sample.lost .patch .job] Sample.later]).job?
        "default" "train").map Job.state = some .complete := by
    decide +kernel
  obtain ⟨job, hjob, hcomplete⟩ := Option.map_eq_some_iff.1 hstate
  have hstored : Sample.posted.get? ⟨.job, "default", "train"⟩ = some Sample.document := rfl
  have hpath : hasPath "default" "train" = true := by
    decide +kernel
  obtain ⟨-, hcourse⟩ := job_timeline {} hstored Sample.decode_document Sample.homed_posted
    hpath rfl hallowed
  obtain ⟨hdated, -, hlooks⟩ := hcourse job hjob
  exact ⟨job, hjob, hcomplete, hdated, (hlooks hcomplete).2⟩

/-- An answer with a status beyond those of errors is believed: a pass that is shown the job as it
was posted starts it once more. -/
theorem restarts_beyond_errors :
    let shown : Fault :=
      { verb := .get, kind := .job, response := .reply 600 Sample.document }
    let start (events : List Event) : Option Instant :=
      ((Sample.posted.after {} "default" "train" events).job? "default" "train").bind
        fun job => job.statusOrEmpty.startTime
    start [.pass [] Sample.now] = some Sample.now ∧
      start [.pass [] Sample.now, .pass [shown] Sample.later] = some Sample.later := by
  decide +kernel

end Pass

end JobOperator
