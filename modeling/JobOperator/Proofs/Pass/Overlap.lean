import JobOperator.Proofs.Pass.StopRequest
import JobOperator.Proofs.Pass.Untouched

/-!
Passes over one job that overlap, while others change everything but the job. A pass goes on from the
job that it has loaded, however many others have written a status since; but what it writes takes no
time away from a status, so a job that was started or completed stays so.
-/

namespace JobOperator

open Client Json

/-- What happens while passes over a job overlap: one begins, with its settings and at its time; one
that has begun makes its next call, with the faults of the server at that moment; or others change
any objects but the job. -/
inductive Move where
  | begin (settings : PassSettings) (now : Instant)
  | call (pass : Nat) (faults : List Fault)
  | change (others : Cluster)

/-- Whether the time of a pass is one that can be written, and all faults are failures. -/
def Move.Allowed : Move → Prop
  | .begin _ now => now.Valid
  | .call _ faults => Failing faults
  | .change _ => True

/-- A cluster and the passes that have begun in it, as far as they have not been made yet. -/
structure Overlap where
  cluster : Cluster
  passes : List (Program PassError Outcome) := []

namespace Overlap

/-- The cluster and the passes after a move. -/
def next (ns name : String) (overlap : Overlap) : Move → Overlap
  | .begin settings now =>
    { overlap with passes := overlap.passes ++ [Pass.program settings now ns name] }
  | .call pass faults =>
    match overlap.passes[pass]? with
    | some (.call c rest) =>
      let (answer, server) := handler Server.exchange c { cluster := overlap.cluster, faults }
      { cluster := server.cluster, passes := overlap.passes.set pass (rest answer) }
    | _ => overlap
  | .change others =>
    { overlap with cluster := (Event.change others).next {} ns name overlap.cluster }

theorem next_call (ns name : String) (overlap : Overlap) (i : Nat) (faults : List Fault) :
    overlap.next ns name (.call i faults) = overlap ∨
      ∃ c rest, .call c rest ∈ overlap.passes ∧
        let served := serverStore c { cluster := overlap.cluster, faults }
        overlap.next ns name (.call i faults) =
          { cluster := served.2.cluster, passes := overlap.passes.set i (rest served.1) } := by
  simp only [next]
  split
  · rename_i c rest hi
    exact .inr ⟨c, rest, List.mem_of_getElem? hi, rfl⟩
  · exact .inl rfl

/-- The cluster and the passes after moves. -/
def after (ns name : String) (moves : List Move) (overlap : Overlap) : Overlap :=
  moves.foldl (next ns name) overlap

end Overlap

namespace Job

/-- Whether a job that was started or completed has stayed so. -/
structure Endures (job later : Job) : Prop where
  start : job.statusOrEmpty.startTime.isSome = true → later.statusOrEmpty.startTime.isSome = true
  completion : job.statusOrEmpty.completionTime.isSome = true →
    later.statusOrEmpty.completionTime.isSome = true

theorem Endures.refl (job : Job) : job.Endures job := ⟨id, id⟩

theorem Endures.trans {job later last : Job} (h : job.Endures later) (h' : later.Endures last) :
    job.Endures last :=
  ⟨fun hstart => h'.start (h.start hstart), fun hcomplete => h'.completion (h.completion hcomplete)⟩

theorem Endures.state {job later : Job} (h : job.Endures later) (hjob : job.state = .complete) :
    later.state = .complete := by
  rw [state_eq_complete_iff, ← Option.isSome_iff_exists] at hjob ⊢
  exact h.completion hjob

/-- Whether a status can be merged into a document so that what is read of it endures: the job in it has
no time of completion or has it as a member of its status, or there is no job in it for good. -/
def Writable (doc : Json) : Prop :=
  (∃ job, codec.decode doc = .ok job ∧ ∀ members, doc = .obj members →
    JobStatus.Mergeable (base "status" members) job.statusOrEmpty) ∨ Headless doc

theorem Writable.of_unfinished {doc : Json} {job : Job} (hreads : codec.decode doc = .ok job)
    (hunfinished : job.statusOrEmpty.completionTime = none) : Writable doc :=
  .inl ⟨job, hreads, fun _ _ => .inl hunfinished⟩

/-- What is read from a document into which a status was merged endures from what was read before. -/
theorem Writable.statusPatch {doc : Json} (h : Writable doc) (written : Job) {new : JobStatus}
    (hnew : new.Stamped) :
    let patched := doc.mergePatch (Client.statusPatch (written.withStatus new))
    Writable patched ∧
      (∀ later, codec.decode patched = .ok later →
        ∃ job, codec.decode doc = .ok job ∧ job.Endures later) ∧
      ((∃ members job, doc = .obj members ∧ codec.decode doc = .ok job) →
        ∃ members later, patched = .obj members ∧ codec.decode patched = .ok later) := by
  intro patched
  by_cases hobject : ∃ members, doc = .obj members
  · obtain ⟨members, rfl⟩ := hobject
    rcases h with ⟨job, hreads, hmergeable⟩ | hheadless
    · obtain ⟨after, s, hpatched, hlater, hstatus, hoverwrites⟩ :=
        decode_statusPatch_of_mergeable written hreads (hmergeable members rfl) hnew
      have hafter : patched = .obj after := hpatched
      rw [hafter]
      refine ⟨.inl ⟨_, hlater, ?_⟩, fun later hread => ?_, fun _ => ⟨after, _, rfl, hlater⟩⟩
      · intro ms hms
        cases hms
        exact .inr hstatus
      · obtain rfl : job.withStatus s = later := Except.ok.inj (hlater.symm.trans hread)
        refine ⟨job, hreads, fun _ => ?_, fun hcompletion => ?_⟩
        · obtain ⟨t, ht, -⟩ := hnew.start
          change s.startTime.isSome = true
          rw [hoverwrites.start, ht]
          rfl
        · change s.completionTime.isSome = true
          rw [hoverwrites.completion, Option.isSome_or, hcompletion, Bool.or_true]
    · have hafter : Headless patched := headless_statusPatch (.inl hheadless) written new
      refine ⟨.inr hafter, fun later hread => absurd hread (hafter.unreadable later), ?_⟩
      rintro ⟨_, job, -, hreads⟩
      exact absurd hreads (hheadless.unreadable job)
  · have hother : ∀ members, doc ≠ .obj members := fun members heq => hobject ⟨members, heq⟩
    have hafter : Headless patched := headless_statusPatch (.inr hother) written new
    refine ⟨.inr hafter, fun later hread => absurd hread (hafter.unreadable later), ?_⟩
    rintro ⟨members, -, heq, -⟩
    exact absurd heq (hother members)

end Job

/-- Whether a call changes no object but the job, whose status it may write with a start, and deletes
nothing but pods. -/
def Call.OfPass : Call → Prop
  | .create kind .. => kind ≠ .job
  | .delete kind .. => kind = .pod
  | .writeStatus written => ∃ job status, written = Job.withStatus job status ∧ status.Stamped
  | _ => True

namespace Pass

variable {settings : PassSettings} {now : Instant} {ns name : String} {job : Job}
  {identity : Identity} {pods : List Pod} {server : Server}

/-! ### What a pass may still do -/

theorem ofPass_of_provides {wanted : List (ObjectKey × Json)} (hwanted : ∀ e ∈ wanted, e.1.kind ≠ .job)
    {c : Call} (h : c.Provides wanted) : c.OfPass := by
  cases c with
  | get kind ns name => trivial
  | create kind ns object => exact hwanted _ h
  | _ => exact h.elim

theorem ofPass_finalize {statuses : StringMap RoleStatus} :
    (finalize identity pods statuses).Within Call.OfPass fun _ => True := by
  refine sweeps_finalize.mono ?_ fun _ h => h
  rintro c ⟨pod, -, -, rfl⟩
  exact rfl

theorem ofPass_prepare :
    (prepare settings now job).Within Call.OfPass (Updates now job) :=
  within_prepare_of trivial (fun _ _ _ => ofPass_finalize)
    fun _ _ hwanted hc => ofPass_of_provides hwanted hc

/-- After it has loaded a job that is not complete, a pass keeps to what it may do. -/
theorem ofPass_ofJob (hnow : now.Valid) (htimed : job.statusOrEmpty.Timed)
    (hunfinished : job.statusOrEmpty.completionTime = none) :
    (ofJob settings now job).Within Call.OfPass fun _ => True := by
  rw [ofJob_eq]
  refine ofPass_prepare.bind fun result hupdates => ?_
  have hwrite : (Call.writeStatus (job.withStatus result.2)).OfPass :=
    ⟨job, result.2, rfl, stamped_of_updates hnow htimed hunfinished hupdates⟩
  exact (Program.within_perform hwrite).bind fun _ _ => trivial

/-- What a pass goes on with after it has looked for the job. -/
def loaded (settings : PassSettings) (now : Instant) :
    Except StoreError (Option Job) → Program PassError Outcome
  | .error e => .fail (.loadJob e)
  | .ok none => .done .missing
  | .ok (some job) =>
    if JobState.complete = job.state then .done .alreadyComplete else ofJob settings now job

theorem program_eq_call (settings : PassSettings) (now : Instant) (ns name : String) :
    program settings now ns name = .call (.get .job ns name) (loaded settings now) := by
  refine congrArg (Program.call (.get .job ns name)) (funext fun answer => ?_)
  rcases answer with e | _ | job
  · rfl
  · rfl
  · rfl

/-! ### One call -/

/-- Whether a pass makes no call any more. -/
def Ended (pass : Program PassError Outcome) : Prop := pass.Within (fun _ => False) fun _ => True

/-- Whether a pass has not made a call yet. -/
def Fresh (ns name : String) (pass : Program PassError Outcome) : Prop :=
  ∃ settings now, now.Valid ∧ pass = program settings now ns name

/-- A pass that has looked for the job has ended, or has loaded one that is not complete. -/
theorem ended_or_loaded (hfaults : Failing server.faults) (settings : PassSettings) (now : Instant) :
    Ended (loaded settings now (serverStore (.get .job ns name) server).1) ∨
      ∃ job, server.cluster.job? ns name = some job ∧ job.statusOrEmpty.completionTime = none ∧
        loaded settings now (serverStore (.get .job ns name) server).1 = ofJob settings now job := by
  rcases hanswer : (serverStore (.get .job ns name) server).1 with e | _ | job
  · exact .inl trivial
  · exact .inl trivial
  · by_cases hstate : JobState.complete = job.state
    · left
      rw [loaded, if_pos hstate]
      trivial
    · right
      have hbegins : Begins serverStore ns name job server (serverStore (.get .job ns name) server).2 :=
        ⟨Prod.ext hanswer rfl, Ne.symm hstate⟩
      refine ⟨job, hbegins.job?_eq hfaults, Job.state_ne_complete_iff.1 (Ne.symm hstate), ?_⟩
      rw [loaded, if_neg hstate]

/-- A call of a pass leaves the document of a job, or merges a status into it that has a start. -/
theorem document_of_call {c : Call} (hc : c.OfPass) {doc : Json}
    (hdoc : server.cluster.get? ⟨.job, ns, name⟩ = some doc) :
    (serverStore c server).2.cluster.get? ⟨.job, ns, name⟩ = some doc ∨
      ∃ (written : Job) (status : JobStatus), status.Stamped ∧
        (serverStore c server).2.cluster.get? ⟨.job, ns, name⟩ =
          some (doc.mergePatch (statusPatch (written.withStatus status))) := by
  have hupdates : c.SparesJobs ∨ ∃ job, c = .writeStatus job := by
    cases c with
    | create kind ns object => exact .inl hc
    | delete kind ns name =>
      obtain rfl : kind = .pod := hc
      exact .inl nofun
    | writeStatus job => exact .inr ⟨job, rfl⟩
    | _ => exact .inl trivial
  rcases document_of_update hupdates rfl hdoc with hsame | ⟨_, rfl, hpatched⟩
  · exact .inl hsame
  · obtain ⟨written, status, rfl, hstamped⟩ := hc
    exact .inr ⟨written, status, hstamped, hpatched⟩

/-! ### Any number of moves -/

/-- What is read of a job endures from what was read before, and a job that was stored as an object can
still be read. -/
structure Enduring (ns name : String) (before after : Cluster) : Prop where
  endures : ∀ later, after.job? ns name = some later →
    ∃ job, before.job? ns name = some job ∧ job.Endures later
  legible : Legible ns name before → Legible ns name after

theorem Enduring.of_get?_eq {before after : Cluster}
    (h : after.get? ⟨.job, ns, name⟩ = before.get? ⟨.job, ns, name⟩) :
    Enduring ns name before after := by
  refine ⟨fun later hlater => ⟨later, ?_, .refl later⟩, ?_⟩
  · rw [Cluster.job?, h] at hlater
    exact hlater
  · rintro ⟨members, job, hstored, hreads⟩
    exact ⟨members, job, h.trans hstored, hreads⟩

theorem Enduring.trans {before middle after : Cluster} (h : Enduring ns name before middle)
    (h' : Enduring ns name middle after) : Enduring ns name before after := by
  refine ⟨fun last hlast => ?_, fun hlegible => h'.legible (h.legible hlegible)⟩
  obtain ⟨later, hlater, hlast⟩ := h'.endures last hlast
  obtain ⟨job, hjob, hlater⟩ := h.endures later hlater
  exact ⟨job, hjob, hlater.trans hlast⟩

/-- Passes that overlap: as long as none has loaded a job that is not complete, none that has begun
makes another call; after that, statuses can be merged into the document of the job. -/
inductive Sound (ns name : String) (overlap : Overlap) : Prop
  | idle (passes : ∀ pass ∈ overlap.passes, Fresh ns name pass ∨ Ended pass) :
      Sound ns name overlap
  | busy {doc : Json} (stored : overlap.cluster.get? ⟨.job, ns, name⟩ = some doc)
      (writable : Job.Writable doc)
      (passes : ∀ pass ∈ overlap.passes,
        Fresh ns name pass ∨ pass.Within Call.OfPass fun _ => True) :
      Sound ns name overlap

variable {overlap : Overlap}

theorem ofPass_of_ended {pass : Program PassError Outcome} (h : Ended pass) :
    pass.Within Call.OfPass fun _ => True :=
  h.mono (fun _ hc => hc.elim) fun _ ha => ha

theorem Sound.ofPass (h : Sound ns name overlap) {pass : Program PassError Outcome}
    (hpass : pass ∈ overlap.passes) : Fresh ns name pass ∨ pass.Within Call.OfPass fun _ => True := by
  cases h with
  | idle passes => exact (passes pass hpass).imp_right ofPass_of_ended
  | busy _ _ passes => exact passes pass hpass

theorem forall_mem_set {α : Type} {P : α → Prop} {as : List α} (h : ∀ a ∈ as, P a) {b : α} (hb : P b)
    (i : Nat) : ∀ a ∈ as.set i b, P a := by
  intro a ha
  rcases List.mem_or_eq_of_mem_set ha with hmem | rfl
  · exact h a hmem
  · exact hb

section

variable (h : Sound ns name overlap) {faults : List Fault} {i : Nat} {c : Call}
  {rest : Except StoreError c.Answer → Program PassError Outcome}

include h

theorem Sound.load (hfaults : Failing faults) {settings : PassSettings} {now : Instant}
    (hnow : now.Valid) :
    let served := serverStore (.get .job ns name) { cluster := overlap.cluster, faults }
    served.2.cluster = overlap.cluster ∧ Sound ns name { overlap with
      passes := overlap.passes.set i (loaded settings now served.1) } := by
  intro served
  let server : Server := { cluster := overlap.cluster, faults }
  refine ⟨?_, ?_⟩
  · exact serverStore_get_cluster .job ns name server
  · have hserver : Failing server.faults := hfaults
    rcases ended_or_loaded hserver settings now with hended | ⟨job, hjob, hunfinished, hloaded⟩
    · have hended : Ended (loaded settings now served.1) := hended
      cases h with
      | idle passes => exact .idle (forall_mem_set passes (.inr hended) i)
      | busy stored writable passes =>
        exact .busy stored writable (forall_mem_set passes (.inr (ofPass_of_ended hended)) i)
    · obtain ⟨doc, hdoc, hreads⟩ := Cluster.job?_eq_some.1 hjob
      have hrest : (loaded settings now served.1).Within Call.OfPass fun _ => True := by
        rw [show loaded settings now served.1 = ofJob settings now job from hloaded]
        exact ofPass_ofJob hnow (Job.timed_of_decode hreads) hunfinished
      exact .busy hdoc (.of_unfinished hreads hunfinished)
        (forall_mem_set (fun _ hmem => h.ofPass hmem) (.inr hrest) i)

theorem Sound.proceed (hpass : .call c rest ∈ overlap.passes)
    (hbegun : ¬ Fresh ns name (.call c rest)) (faults : List Fault) :
    let served := serverStore c { cluster := overlap.cluster, faults }
    Sound ns name
        { cluster := served.2.cluster, passes := overlap.passes.set i (rest served.1) } ∧
      Enduring ns name overlap.cluster served.2.cluster := by
  intro served
  let server : Server := { cluster := overlap.cluster, faults }
  cases h with
  | idle passes => exact ((passes _ hpass).resolve_left hbegun).1.elim
  | busy stored writable passes =>
    have hcalls := (passes _ hpass).resolve_left hbegun
    have hpasses := forall_mem_set passes (.inr (hcalls.2 served.1)) i
    have hstored : server.cluster.get? ⟨.job, ns, name⟩ = some _ := stored
    rcases document_of_call hcalls.1 hstored with hsame | ⟨written, status, hstamped, hafter⟩
    · exact ⟨.busy hsame writable hpasses, .of_get?_eq (hsame.trans stored.symm)⟩
    · obtain ⟨hwritable, hendures, hlegible⟩ := writable.statusPatch written hstamped
      refine ⟨.busy hafter hwritable hpasses, fun later hlater => ?_, ?_⟩
      · obtain ⟨doc', hdoc', hreads'⟩ := Cluster.job?_eq_some.1 hlater
        obtain rfl := Option.some.inj (hafter.symm.trans hdoc')
        obtain ⟨job, hreads, hjob⟩ := hendures later hreads'
        exact ⟨job, Cluster.job?_eq_some.2 ⟨_, stored, hreads⟩, hjob⟩
      · rintro ⟨members, job, hmembers, hreads⟩
        obtain rfl := Option.some.inj (stored.symm.trans hmembers)
        obtain ⟨members', later, hobject, hlater⟩ := hlegible ⟨members, job, rfl, hreads⟩
        rw [hobject] at hafter hlater
        exact ⟨members', later, hafter, hlater⟩

theorem Sound.next {move : Move} (hallowed : move.Allowed) :
    Sound ns name (overlap.next ns name move) ∧
      Enduring ns name overlap.cluster (overlap.next ns name move).cluster := by
  cases move with
  | begin settings now =>
    have hfresh : Fresh ns name (program settings now ns name) := ⟨settings, now, hallowed, rfl⟩
    refine ⟨?_, .of_get?_eq rfl⟩
    cases h with
    | idle passes =>
      refine .idle fun pass hpass => ?_
      rcases List.mem_append.1 hpass with hpass | hpass
      · exact passes pass hpass
      · exact .inl (List.mem_singleton.1 hpass ▸ hfresh)
    | busy stored writable passes =>
      refine .busy stored writable fun pass hpass => ?_
      rcases List.mem_append.1 hpass with hpass | hpass
      · exact passes pass hpass
      · exact .inl (List.mem_singleton.1 hpass ▸ hfresh)
  | call i faults =>
    rcases overlap.next_call ns name i faults with hsame | ⟨c, rest, hpass, hnext⟩
    · rw [hsame]
      exact ⟨h, .of_get?_eq rfl⟩
    · rw [hnext]
      by_cases hfresh : Fresh ns name (.call c rest)
      · obtain ⟨settings, now, hnow, heq⟩ := hfresh
        rw [program_eq_call] at heq
        cases heq
        obtain ⟨hsame, hsound⟩ := h.load (i := i) hallowed hnow
        refine ⟨?_, .of_get?_eq (congrArg (SortedMap.get? · _) hsame)⟩
        simp only [hsame]
        exact hsound
      · exact h.proceed hpass hfresh faults
  | change others =>
    have hsame : (overlap.next ns name (.change others)).cluster.get? ⟨.job, ns, name⟩ =
        overlap.cluster.get? ⟨.job, ns, name⟩ := @get?_change {} ns name overlap.cluster others
    refine ⟨?_, .of_get?_eq hsame⟩
    cases h with
    | idle passes => exact .idle passes
    | busy stored writable passes => exact .busy (hsame.trans stored) writable passes

theorem Sound.after {moves : List Move} (hallowed : ∀ move ∈ moves, move.Allowed) :
    Sound ns name (overlap.after ns name moves) ∧
      Enduring ns name overlap.cluster (overlap.after ns name moves).cluster := by
  induction moves generalizing overlap with
  | nil => exact ⟨h, .of_get?_eq rfl⟩
  | cons move moves ih =>
    obtain ⟨hnext, hfirst⟩ := h.next (hallowed move List.mem_cons_self)
    obtain ⟨hlast, hrest⟩ := ih hnext fun move hmove => hallowed move (List.mem_cons_of_mem _ hmove)
    exact ⟨hlast, hfirst.trans hrest⟩

/-- A call of a pass leaves every object that is no job as it is, but a pod may be deleted. -/
theorem Sound.spares (i : Nat) (faults : List Fault) {key : ObjectKey} (hkey : key.kind ≠ .job)
    {doc : Json} (hdoc : overlap.cluster.get? key = some doc) :
    let after := (overlap.next ns name (.call i faults)).cluster
    after.get? key = some doc ∨ key.kind = .pod ∧ after.get? key = none := by
  intro after
  rcases overlap.next_call ns name i faults with hsame | ⟨c, rest, hpass, hnext⟩
  · exact .inl ((congrArg (·.cluster.get? key) hsame).trans hdoc)
  · have hafter : after = (serverStore c { cluster := overlap.cluster, faults }).2.cluster :=
      congrArg Overlap.cluster hnext
    have hserver : ({ cluster := overlap.cluster, faults } : Server).cluster.get? key = some doc :=
      hdoc
    rw [hafter]
    rcases kept_or_deleted c hkey hserver with hkept | ⟨hdelete, hgone⟩
    · exact .inl hkept
    · refine .inr ⟨?_, hgone⟩
      rcases h.ofPass hpass with ⟨settings, now, -, heq⟩ | hcalls
      · rw [program_eq_call] at heq
        obtain ⟨hget, -⟩ := Program.call.inj heq
        rw [hget] at hdelete
        cases hdelete
      · have hcall := hcalls.1
        rw [hdelete] at hcall
        exact hcall

end

/-- Passes over a job that overlap in any way take neither a start nor a completion away from it, and
change no object besides it, but that they delete pods. -/
theorem completion_survives_overlap {ns name : String} (start : Cluster) {moves rest : List Move}
    (hmoves : ∀ move ∈ moves, move.Allowed) (hrest : ∀ move ∈ rest, move.Allowed) :
    let middle := Overlap.after ns name moves { cluster := start }
    let last := middle.after ns name rest
    (∀ job later, middle.cluster.job? ns name = some job → last.cluster.job? ns name = some later →
        job.Endures later ∧ (job.state = .complete → later.state = .complete)) ∧
      (Legible ns name middle.cluster → Legible ns name last.cluster) ∧
      ∀ pass faults key doc, key.kind ≠ .job → middle.cluster.get? key = some doc →
        let after := (middle.next ns name (.call pass faults)).cluster
        after.get? key = some doc ∨ key.kind = .pod ∧ after.get? key = none := by
  intro middle last
  have hstart : Sound ns name { cluster := start } :=
    .idle fun _ hpass => absurd hpass List.not_mem_nil
  have hmiddle : Sound ns name middle := (hstart.after hmoves).1
  obtain ⟨-, hendures, hlegible⟩ := hmiddle.after hrest
  refine ⟨fun job later hjob hlater => ?_, hlegible, fun pass faults key doc hkey hdoc => ?_⟩
  · obtain ⟨before, hbefore, hlasts⟩ := hendures later hlater
    obtain rfl : job = before := Option.some.inj (hjob.symm.trans hbefore)
    exact ⟨hlasts, hlasts.state⟩
  · exact hmiddle.spares pass faults hkey hdoc

/-- A pass that loaded the small job before it was completed writes its status last: the job stays
complete. -/
theorem completion_survives_overlap_late :
    let moves : List Move := .begin {} Sample.now :: List.replicate 8 (.call 0 []) ++
      [.change Sample.halting, .begin {} Sample.later] ++ List.replicate 8 (.call 1 [])
    let middle := Overlap.after "default" "train" moves { cluster := Sample.posted }
    let last := middle.after "default" "train" [.call 0 []]
    ∃ job later, middle.cluster.job? "default" "train" = some job ∧
      last.cluster.job? "default" "train" = some later ∧
      job.state = .complete ∧ job.statusOrEmpty.lastReconcileTime = some Sample.later ∧
      later.state = .complete ∧ later.statusOrEmpty.lastReconcileTime = some Sample.now := by
  intro moves middle last
  have hmoves : ∀ move ∈ moves, move.Allowed := by
    intro move hmove
    simp only [moves, List.mem_append, List.mem_cons, List.mem_replicate, List.not_mem_nil,
      or_false] at hmove
    rcases hmove with ((rfl | ⟨-, rfl⟩) | rfl | rfl) | ⟨-, rfl⟩
    · exact Sample.valid_now
    · exact failing_nil
    · trivial
    · exact Sample.valid_later
    · exact failing_nil
  have hrest : ∀ move ∈ [Move.call 0 []], move.Allowed := by
    intro move hmove
    rw [List.mem_singleton.1 hmove]
    exact failing_nil
  have hmiddle : (middle.cluster.job? "default" "train").map (fun job =>
      (job.state, job.statusOrEmpty.lastReconcileTime)) = some (.complete, some Sample.later) := by
    decide +kernel
  have hlast : (last.cluster.job? "default" "train").map
      (·.statusOrEmpty.lastReconcileTime) = some (some Sample.now) := by
    decide +kernel
  obtain ⟨job, hjob, hmiddle⟩ := Option.map_eq_some_iff.1 hmiddle
  obtain ⟨later, hlater, hlast⟩ := Option.map_eq_some_iff.1 hlast
  obtain ⟨hstate, hlook⟩ := Prod.mk.inj hmiddle
  obtain ⟨hendures, -, -⟩ := completion_survives_overlap Sample.posted hmoves hrest
  exact ⟨job, later, hjob, hlater, hstate, hlook, (hendures job later hjob hlater).2 hstate, hlast⟩

end Pass

end JobOperator
