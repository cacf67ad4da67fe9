import JobOperator.Controller.Basic
import JobOperator.Proofs.Pass.Idempotence
import JobOperator.Proofs.Pass.StopRequest

/-!
What a controller does after a pass over a job. It stops looking after the job only when nothing is
left to do about it, as the job is stored by then; after any other pass it looks again, after the
delay that is set for how the pass ended.
-/

namespace JobOperator

open Client

/-- Whether nothing is left to do about a job: there is none, or it has a time of completion. -/
def Cluster.AtRest (cluster : Cluster) (ns name : String) : Prop :=
  cluster.get? ⟨.job, ns, name⟩ = none ∨
    ∃ job, cluster.job? ns name = some job ∧ job.statusOrEmpty.completionTime.isSome = true

/-- Whether a server does not deny a job that it has: what it answers to a look at the job does not
read as if there were none. -/
def Server.Admits (server : Server) (ns name : String) : Prop :=
  server.cluster.contains ⟨.job, ns, name⟩ = true →
    objectOf? .job (server.exchange (.get ⟨.job, ns, name⟩)).1 ≠ .ok none

namespace Pass

variable {settings : PassSettings} {now : Instant} {ns name : String} {server s : Server}

/-- What is not found in a server that admits what it has is not there. -/
theorem get?_of_get_none (hadmits : server.Admits ns name)
    (h : serverStore (.get .job ns name) server = (.ok none, s)) :
    server.cluster.get? ⟨.job, ns, name⟩ = none := by
  cases hpath : hasPath ns name with
  | false =>
    simp only [serverStore, handler, perform, hpath] at h
    cases h
  | true =>
    rw [serverStore_get hpath] at h
    have hread := mapError_eq_ok.1 (congrArg Prod.fst h)
    rw [← SortedMap.contains_eq_false_iff]
    exact Bool.eq_false_iff.2 fun hcontains => hadmits hcontains hread

/-- A pass that needs no other after it leaves nothing to do. -/
theorem atRest_of_terminal (hfaults : Failing server.faults)
    (hhomed : server.cluster.Homed ⟨.job, ns, name⟩) (hadmits : server.Admits ns name)
    (hnow : now.Valid) {o : Outcome}
    (h : ((program settings now ns name).run serverStore server).1 = .ok o)
    (hterminal : o.isTerminal = true) :
    ((program settings now ns name).run serverStore server).2.cluster.AtRest ns name := by
  have hrun : (program settings now ns name).run serverStore server =
      (.ok o, ((program settings now ns name).run serverStore server).2) := Prod.ext h rfl
  obtain ⟨found, t, hget, hends⟩ := run_program_ends hrun
  have hcluster : t.cluster = server.cluster := by
    rw [← serverStore_get_cluster .job ns name server, hget]
  rcases hends with ⟨hsettled, -, hafter⟩ | ⟨pods, rfl⟩
  · rw [hafter, hcluster]
    cases found with
    | none => exact .inl (get?_of_get_none hadmits hget)
    | some job =>
      refine .inr ⟨job, Cluster.job?_of_get hfaults hget, ?_⟩
      exact Option.isSome_iff_exists.2 (Job.state_eq_complete_iff.1 (hsettled job rfl))
  · cases pods with
    | progressing created => cases hterminal
    | stopped requestedBy =>
      obtain ⟨later, hlater, hcompleted⟩ := completionTime_of_completed hfaults hhomed hnow h
      exact .inr ⟨later, hlater, Option.isSome_iff_exists.2 ⟨now, hcompleted⟩⟩

end Pass

namespace Sample

/-- The small job with a time of completion. -/
def completed : Json :=
  document.mergePatch (.obj [("status", .obj [("completionTime", .str now.text)])])

/-- A server in which a pod of the small job asks for it to stop, and the first deletion has no answer. -/
def slowHalting : Server := { cluster := halting, faults := [lost .delete .pod] }

end Sample

namespace Controller

/-- A controller waits for a job to change only after a pass that leaves nothing to do about it. After
a pass that goes on, or that fails, it makes another one, after the delay set for that. -/
theorem never_abandons (config : Config) {now : Instant} (hnow : now.Valid) {job : Job}
    {server : Server} (hfaults : Failing server.faults)
    (hhomed : ∀ ns, job.metadata.namespace = some ns →
      server.cluster.Homed ⟨.job, ns, job.name⟩)
    (hadmits : ∀ ns, job.metadata.namespace = some ns → server.Admits ns job.name) :
    let pass := (Controller.pass config now job).run serverStore server
    let decision := Decision.ofPass config.requeue pass.1
    (∃ o ns, pass.1 = .ok o ∧ o.isTerminal = true ∧ decision = .awaitChange ∧
        job.metadata.namespace = some ns ∧ pass.2.cluster.AtRest ns job.name) ∨
      (∃ created, pass.1 = .ok (.progressing created) ∧
        decision = .requeue config.requeue.running) ∨
      ∃ e, pass.1 = .error e ∧ decision = .requeue config.requeue.error := by
  intro pass decision
  cases hresult : pass.1 with
  | error e => exact .inr (.inr ⟨e, rfl, by simp only [decision, hresult, Decision.ofPass]⟩)
  | ok o =>
    have hdecision : decision =
        if o.isTerminal then .awaitChange else .requeue config.requeue.running := by
      simp only [decision, hresult, Decision.ofPass]
    cases hterminal : o.isTerminal with
    | false =>
      cases o with
      | progressing created => exact .inr (.inl ⟨created, rfl, hdecision⟩)
      | missing | alreadyComplete | completed => cases hterminal
    | true =>
      rw [hterminal] at hdecision
      left
      cases hns : job.metadata.namespace with
      | none =>
        simp only [pass, Controller.pass, hns] at hresult
        cases hresult
      | some ns =>
        have hpass : pass =
            (Pass.program config.passSettings now ns job.name).run serverStore server := by
          simp only [pass, Controller.pass, hns]
        rw [hpass] at hresult ⊢
        exact ⟨o, ns, rfl, hterminal, hdecision, rfl, Pass.atRest_of_terminal hfaults
          (hhomed ns hns) (hadmits ns hns) hnow hresult hterminal⟩

/-- A job is completed although the deletion of its other pod has no answer, and then the controller
waits. -/
theorem never_abandons_halting :
    let config : Config := {}
    let pass := (Controller.pass config Sample.later Sample.job).run serverStore Sample.slowHalting
    Decision.ofPass config.requeue pass.1 = .awaitChange ∧
      pass.2.cluster.AtRest "default" "train" := by
  intro config pass
  have hns {ns : String} (h : Sample.job.metadata.namespace = some ns) : "default" = ns :=
    Option.some.inj h
  have hfaults : Failing Sample.slowHalting.faults := Sample.failing_lost .delete .pod
  have hhomed : ∀ ns, Sample.job.metadata.namespace = some ns →
      Sample.slowHalting.cluster.Homed ⟨.job, ns, Sample.job.name⟩ :=
    fun _ _ => Sample.homed_halting _
  have hadmits : ∀ ns, Sample.job.metadata.namespace = some ns →
      Sample.slowHalting.Admits ns Sample.job.name := by
    intro ns h _
    rw [← hns h]
    decide +kernel
  have hends : pass.1 = .ok (.completed "train-worker-1") := by
    decide +kernel
  rcases never_abandons config Sample.valid_later hfaults hhomed hadmits with
    ⟨o, ns, -, -, hdecision, h, hrest⟩ | ⟨created, hgoes, -⟩ | ⟨e, hfails, -⟩
  · obtain rfl := hns h
    exact ⟨hdecision, hrest⟩
  · cases hends.symm.trans hgoes
  · cases hends.symm.trans hfails

/-- An answer with a status beyond those of errors is believed: a pass that is shown a complete job
makes the controller wait, while the job that is stored is not complete. -/
theorem abandons_beyond_errors :
    let shown : Fault := { verb := .get, kind := .job, response := .reply 600 Sample.completed }
    let server : Server := { cluster := Sample.posted, faults := [shown] }
    let pass := (Controller.pass {} Sample.now Sample.job).run serverStore server
    server.Admits "default" "train" ∧ Decision.ofPass {} pass.1 = .awaitChange ∧
      ¬ pass.2.cluster.AtRest "default" "train" := by
  intro shown server pass
  refine ⟨fun _ => ?_, ?_, ?_⟩
  · decide +kernel
  · decide +kernel
  · have hstored : pass.2.cluster.get? ⟨.job, "default", "train"⟩ = some Sample.document := by
      decide +kernel
    rintro (hnone | ⟨job, hjob, hcomplete⟩)
    · rw [hstored] at hnone
      cases hnone
    · obtain ⟨doc, hdoc, hreads⟩ := Cluster.job?_eq_some.1 hjob
      rw [hstored] at hdoc
      obtain rfl : Sample.document = doc := Option.some.inj hdoc
      obtain rfl : Sample.job = job := Except.ok.inj (Sample.decode_document.symm.trans hreads)
      cases hcomplete

end Controller

end JobOperator
