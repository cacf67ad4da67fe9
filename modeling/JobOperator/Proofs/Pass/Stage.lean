import JobOperator.Proofs.Api.Frame
import JobOperator.Proofs.Pass.Finalization

/-!
The stages of a pass. Whatever store it runs in: each call that it makes belongs to one stage, and
what the stages before it found tells what the call is about.
-/

namespace JobOperator

open Client

namespace Pass

variable {σ : Type} {handler : Handler σ} {settings : PassSettings} {now : Instant}
  {ns name : String} {job written : Job} {identity : Identity} {pods : List Pod} {s t u v : σ}
  {a : Answered}

/-! ### Deletions -/

/-- Whether a call deletes one of these pods, which outlives the job. -/
def Sweeps (identity : Identity) (pods : List Pod) (c : Call) : Prop :=
  ∃ pod ∈ pods, outlives identity pod = true ∧ c = .delete .pod identity.namespace pod.name

theorem sweeps_finalize {statuses : StringMap RoleStatus} :
    (finalize identity pods statuses).Within (Sweeps identity pods) fun _ => True := by
  induction pods generalizing statuses with
  | nil => trivial
  | cons pod rest ih =>
    have hrest (statuses : StringMap RoleStatus) :
        (finalize identity rest statuses).Within (Sweeps identity (pod :: rest)) fun _ => True := by
      refine ih.mono ?_ fun _ h => h
      rintro c ⟨other, hother, hdelete⟩
      exact ⟨other, List.mem_cons_of_mem pod hother, hdelete⟩
    cases hrole : Names.role? identity.name pod.name with
    | none =>
      simp only [finalize, hrole]
      exact hrest _
    | some role =>
      cases hexit : pod.exitCode? with
      | some code =>
        simp only [finalize, hrole, hexit]
        exact hrest _
      | none =>
        simp only [finalize, hrole, hexit]
        have houtlives : outlives identity pod = true := by simp [outlives, hrole, hexit]
        apply And.intro
        · exact ⟨pod, List.mem_cons_self, houtlives, rfl⟩
        intro answer
        cases answer with
        | ok u => exact hrest _
        | error e => exact hrest _

/-! ### Stages -/

/-- How a pass begins to look after a job: it finds the job, which is not complete. -/
structure Begins (handler : Handler σ) (ns name : String) (job : Job) (s t : σ) : Prop where
  found : handler (.get .job ns name) s = (.ok (some job), t)
  unfinished : job.state ≠ .complete

/-- How a pass comes to see the pods of a job: it provides the objects that the job has one of, and
lists the pods. -/
structure Surveys (handler : Handler σ) (settings : PassSettings) (job : Job) (identity : Identity)
    (pods : List Pod) (s t u : σ) : Prop where
  identified : Identity.ofJob job = .ok identity
  children : (syncChildren job identity settings.servicePort).run handler s = (.ok (), t)
  lists : handler (.listPods job) t = (.ok pods, u)

/-- What a pass does at its stages: calls, each with its answer. -/
inductive Stage (handler : Handler σ) (settings : PassSettings) (now : Instant) (ns name : String)
    (s : σ) : Answered → Prop
  /-- The job is loaded. -/
  | load : Stage handler settings now ns name s
      ⟨.get .job ns name, (handler (.get .job ns name) s).1⟩
  /-- An object that the job has one of is looked up, or created. -/
  | child {job : Job} {identity : Identity} {t : σ} {a : Answered}
      (begins : Begins handler ns name job s t) (identified : Identity.ofJob job = .ok identity)
      (child : a ∈ (syncChildren job identity settings.servicePort).history handler t) :
      Stage handler settings now ns name s a
  /-- The pods are listed. -/
  | list {job : Job} {identity : Identity} {t u : σ} (begins : Begins handler ns name job s t)
      (identified : Identity.ofJob job = .ok identity)
      (children : (syncChildren job identity settings.servicePort).run handler t = (.ok (), u)) :
      Stage handler settings now ns name s ⟨.listPods job, (handler (.listPods job) u).1⟩
  /-- A replica is created. -/
  | creation {job : Job} {identity : Identity} {pods : List Pod} {t u v : σ} {a : Answered}
      (begins : Begins handler ns name job s t)
      (surveys : Surveys handler settings job identity pods t u v)
      (quiet : pods.find? Pod.requestsStop = none)
      (creation : a ∈ (syncRoles job identity settings.images pods job.spec.roles.toList
        job.statusOrEmpty.roleStatuses 0).history handler v) :
      Stage handler settings now ns name s a
  /-- A pod is deleted. -/
  | deletion {job : Job} {identity : Identity} {pods : List Pod} {first : Pod} {t u v : σ}
      {a : Answered} (begins : Begins handler ns name job s t)
      (surveys : Surveys handler settings job identity pods t u v)
      (asks : pods.find? Pod.requestsStop = some first)
      (deletion : a ∈ (finalize identity pods (noNumbers job)).history handler v) :
      Stage handler settings now ns name s a
  /-- The status is written. -/
  | status {job : Job} {result : PodsOutcome × JobStatus} {t u : σ}
      (begins : Begins handler ns name job s t)
      (prepares : (prepare settings now job).run handler t = (.ok result, u)) :
      Stage handler settings now ns name s ⟨.writeStatus (job.withStatus result.2),
        (handler (.writeStatus (job.withStatus result.2)) u).1⟩

theorem mem_history_perform {ε : Type} {c : Call} {onError : StoreError → ε} :
    a ∈ (Program.perform c onError).history handler s ↔ a = ⟨c, (handler c s).1⟩ := by
  rw [Program.history_perform, List.mem_singleton]

theorem stage_of_mem_prepare (hbegins : Begins handler ns name job s t)
    (h : a ∈ (prepare settings now job).history handler t) :
    Stage handler settings now ns name s a := by
  rw [prepare] at h
  rcases Program.mem_history_bind.1 h with h | ⟨identity, _, hidentity, h⟩
  · rw [Program.history_ofExcept] at h
    exact absurd h List.not_mem_nil
  obtain ⟨hid, rfl⟩ := Program.run_ofExcept_eq_ok.1 hidentity
  rcases Program.mem_history_bind.1 h with h | ⟨_, u, hchildren, h⟩
  · exact .child hbegins hid h
  rw [syncPods] at h
  rcases Program.mem_history_bind.1 h with h | ⟨pods, v, hlist, h⟩
  · rw [mem_history_perform.1 h]
    exact .list hbegins hid hchildren
  have hsurveys : Surveys handler settings job identity pods t u v :=
    ⟨hid, hchildren, Program.run_perform_eq_ok.1 hlist⟩
  cases hfind : pods.find? Pod.requestsStop with
  | none =>
    rw [hfind] at h
    rcases Program.mem_history_bind.1 h with h | ⟨_, _, -, h⟩
    · exact .creation hbegins hsurveys hfind h
    · exact absurd h List.not_mem_nil
  | some first =>
    rw [hfind] at h
    rcases Program.mem_history_bind.1 h with h | ⟨_, _, -, h⟩
    · exact .deletion hbegins hsurveys hfind h
    · exact absurd h List.not_mem_nil

/-- All that a pass does belongs to one of its stages. -/
theorem stage_of_mem_history (h : a ∈ (program settings now ns name).history handler s) :
    Stage handler settings now ns name s a := by
  rw [program] at h
  rcases Program.mem_history_bind.1 h with h | ⟨found, t, hget, h⟩
  · rw [mem_history_perform.1 h]
    exact .load
  cases found with
  | none => exact absurd h List.not_mem_nil
  | some job =>
    simp only at h
    split at h
    · exact absurd h List.not_mem_nil
    · rename_i hstate
      have hbegins : Begins handler ns name job s t :=
        ⟨Program.run_perform_eq_ok.1 hget, Ne.symm hstate⟩
      rw [ofJob_eq] at h
      rcases Program.mem_history_bind.1 h with h | ⟨result, u, hprepare, h⟩
      · exact stage_of_mem_prepare hbegins h
      · rw [persist] at h
        rcases Program.mem_history_bind.1 h with h | ⟨_, _, -, h⟩
        · rw [mem_history_perform.1 h]
          exact .status hbegins hprepare
        · exact absurd h List.not_mem_nil

theorem verb_of_provides {wanted : List (ObjectKey × Json)} {c : Call} (h : c.Provides wanted) :
    c.verb = .get ∨ c.verb = .post := by
  cases c with
  | get kind ns name => exact .inl rfl
  | create kind ns object => exact .inr rfl
  | _ => exact h.elim

/-- A pass lists pods, and patches, at one stage each. -/
theorem Stage.lists_or_writes (h : Stage handler settings now ns name s a)
    (hverb : a.call.verb = .list ∨ a.call.verb = .patch) :
    (∃ job identity t u, Begins handler ns name job s t ∧ Identity.ofJob job = .ok identity ∧
      (syncChildren job identity settings.servicePort).run handler t = (.ok (), u) ∧
      a = ⟨.listPods job, (handler (.listPods job) u).1⟩) ∨
    ∃ job result t u, Begins handler ns name job s t ∧
      (prepare settings now job).run handler t = (.ok result, u) ∧
      a = ⟨.writeStatus (job.withStatus result.2),
        (handler (.writeStatus (job.withStatus result.2)) u).1⟩ := by
  have hprovides {wanted : List (ObjectKey × Json)} (hc : a.call.Provides wanted) : False := by
    rcases verb_of_provides hc with hget | hpost
    · simp [hget] at hverb
    · simp [hpost] at hverb
  cases h with
  | load => rcases hverb with hverb | hverb <;> cases hverb
  | child _ _ hchild =>
    exact (hprovides ((within_syncChildren fun _ he => he).history hchild)).elim
  | list hbegins hid hchildren => exact .inl ⟨_, _, _, _, hbegins, hid, hchildren, rfl⟩
  | creation _ _ _ hcreation =>
    exact (hprovides ((within_syncRoles fun _ he => he).history hcreation)).elim
  | deletion _ _ _ hdeletion =>
    obtain ⟨pod, -, -, hdelete⟩ := sweeps_finalize.history hdeletion
    rw [hdelete] at hverb
    rcases hverb with hverb | hverb <;> cases hverb
  | status hbegins hprepares => exact .inr ⟨_, _, _, _, hbegins, hprepares, rfl⟩

/-- The pods are listed once the objects that the job has one of are there. -/
theorem of_mem_history_listPods {answer : Except StoreError (List Pod)}
    (h : ⟨.listPods job, answer⟩ ∈ (program settings now ns name).history handler s) :
    ∃ identity t u, Begins handler ns name job s t ∧ Identity.ofJob job = .ok identity ∧
      (syncChildren job identity settings.servicePort).run handler t = (.ok (), u) ∧
      (handler (.listPods job) u).1 = answer := by
  rcases (stage_of_mem_history h).lists_or_writes (.inl rfl) with
    ⟨_, identity, t, u, hbegins, hid, hchildren, heq⟩ | ⟨_, _, _, _, -, -, heq⟩
  · obtain ⟨hcall, hanswer⟩ := Answered.mk.inj heq
    cases hcall
    exact ⟨identity, t, u, hbegins, hid, hchildren, (eq_of_heq hanswer).symm⟩
  · cases congrArg Answered.call heq

/-- The status that is written is the one that was prepared. -/
theorem of_mem_history_writeStatus {answer : Except StoreError Unit}
    (h : ⟨.writeStatus written, answer⟩ ∈ (program settings now ns name).history handler s) :
    ∃ job result t u, Begins handler ns name job s t ∧
      (prepare settings now job).run handler t = (.ok result, u) ∧
      written = job.withStatus result.2 ∧ (handler (.writeStatus written) u).1 = answer := by
  rcases (stage_of_mem_history h).lists_or_writes (.inr rfl) with
    ⟨_, _, _, _, -, -, -, heq⟩ | ⟨job, result, t, u, hbegins, hprepares, heq⟩
  · cases congrArg Answered.call heq
  · obtain ⟨hcall, hanswer⟩ := Answered.mk.inj heq
    cases hcall
    exact ⟨job, result, t, u, hbegins, hprepares, rfl, (eq_of_heq hanswer).symm⟩

/-! ### Runs -/

theorem run_program_of_begins (settings : PassSettings) (now : Instant)
    (h : Begins handler ns name job s t) :
    (program settings now ns name).run handler s = (ofJob settings now job).run handler t := by
  rw [program, Program.run_bind_of_ok (Program.run_perform_eq_ok.2 h.found)]
  simp only [if_neg (Ne.symm h.unfinished)]

/-- How the pods of a job are looked after: replicas are created, or the job stops. -/
theorem run_prepare_cases {result : PodsOutcome × JobStatus}
    (h : (prepare settings now job).run handler s = (.ok result, v)) :
    ∃ identity pods t u, Surveys handler settings job identity pods s t u ∧
      ((pods.find? Pod.requestsStop = none ∧ ∃ created, result.1 = .progressing created) ∨
        ∃ first, pods.find? Pod.requestsStop = some first ∧ result.1 = .stopped first.name ∧
          (finalize identity pods (noNumbers job)).run handler u =
            (.ok result.2.roleStatuses, v)) := by
  rw [prepare] at h
  obtain ⟨identity, _, hidentity, h⟩ := Program.run_bind_eq_ok.1 h
  obtain ⟨hid, rfl⟩ := Program.run_ofExcept_eq_ok.1 hidentity
  obtain ⟨_, t, hchildren, h⟩ := Program.run_bind_eq_ok.1 h
  rw [syncPods] at h
  obtain ⟨pods, u, hlist, h⟩ := Program.run_bind_eq_ok.1 h
  refine ⟨identity, pods, t, u, ⟨hid, hchildren, Program.run_perform_eq_ok.1 hlist⟩, ?_⟩
  cases hfind : pods.find? Pod.requestsStop with
  | none =>
    rw [hfind] at h
    obtain ⟨_, _, -, h⟩ := Program.run_bind_eq_ok.1 h
    cases h
    exact .inl ⟨rfl, _, rfl⟩
  | some first =>
    rw [hfind] at h
    obtain ⟨roleStatuses, _, hfinalize, h⟩ := Program.run_bind_eq_ok.1 h
    cases h
    exact .inr ⟨first, rfl, rfl, hfinalize⟩

/-- A job of which a pod asks for it stops. -/
theorem run_prepare_of_asks (now : Instant) {first : Pod} {roleStatuses : StringMap RoleStatus}
    (hsurveys : Surveys handler settings job identity pods s t u)
    (hasks : pods.find? Pod.requestsStop = some first)
    (hfinalize : (finalize identity pods (noNumbers job)).run handler u = (.ok roleStatuses, v)) :
    (prepare settings now job).run handler s =
      (.ok (.stopped first.name, { begin now job.statusOrEmpty with
        roleStatuses, completionTime := some now }), v) := by
  rw [prepare_eq hsurveys.identified, Program.run_bind_of_ok hsurveys.children, syncPods,
    Program.run_bind_of_ok (Program.run_perform_eq_ok.2 hsurveys.lists)]
  simp only [hasks]
  rw [Program.run_bind_of_ok hfinalize]
  rfl

/-- Up to the status, a pass leaves every job of a cluster as it is. -/
theorem get?_of_run_prepare (settings : PassSettings) (now : Instant) (job : Job)
    (cluster : Cluster) {key : ObjectKey} (hkey : key.kind = .job) :
    ((prepare settings now job).run store cluster).2.get? key = cluster.get? key :=
  (within_prepare.run (I := fun c : Cluster => c.get? key = cluster.get? key)
    (fun _ c hc hs => (store_sparesJobs hc c hkey).trans hs) rfl).1

end Pass

end JobOperator
