import JobOperator.Proofs.Api.Deletion
import JobOperator.Proofs.Pass.Stage
import JobOperator.Proofs.Pass.Timeline

/-!
A pass that stops a job, step by step: it has listed the pods and found one that asks, goes through
all of them, and writes the status. The pods that outlive the job are then gone, as far as their
deletions were done, and no other object but the job's own has changed.
-/

namespace JobOperator

open Client

namespace Pass

variable {settings : PassSettings} {now : Instant} {ns name : String} {job : Job}
  {identity : Identity} {images : Images} {pods : List Pod} {status new : JobStatus}

section

variable {σ : Type} {handler : Handler σ} {s s' : σ}

/-! ### The steps -/

/-- What a pass does after it has loaded a job that is not complete. -/
theorem history_program (settings : PassSettings) (now : Instant)
    (h : Begins handler ns name job s s') :
    (program settings now ns name).history handler s =
      ⟨.get .job ns name, .ok (some job)⟩ :: (ofJob settings now job).history handler s' := by
  rw [program, Program.history_bind_of_ok (Program.run_perform_eq_ok.2 h.found),
    Program.history_perform, h.found]
  simp only [if_neg (Ne.symm h.unfinished)]
  rfl

/-- The last that a pass does is to write the status. -/
theorem history_ofJob {result : PodsOutcome × JobStatus}
    (hprepare : (prepare settings now job).run handler s = (.ok result, s')) :
    (ofJob settings now job).history handler s =
      (prepare settings now job).history handler s ++
        [⟨.writeStatus (job.withStatus result.2),
          (handler (.writeStatus (job.withStatus result.2)) s').1⟩] := by
  rw [ofJob_eq, Program.history_bind_of_ok hprepare, persist]
  congr 1
  cases hwrite : (handler (.writeStatus (job.withStatus result.2)) s').1 with
  | ok u =>
    rw [Program.history_bind_of_ok (Program.run_perform_eq_ok.2 (Prod.ext hwrite rfl)),
      Program.history_perform, hwrite]
    rfl
  | error e =>
    simp only [Program.perform, Program.history_call, hwrite, bind, Program.bind]
    rfl

/-- How a pass stops a job: a pod that it lists asks for it, and it goes through all of them. -/
structure Stops (handler : Handler σ) (settings : PassSettings) (now : Instant) (job : Job)
    (identity : Identity) (pods : List Pod) (first : Pod) (s t u s' : σ) (status : JobStatus) :
    Prop extends Surveys handler settings job identity pods s t u where
  asks : pods.find? Pod.requestsStop = some first
  finalizes : (finalize identity pods (noNumbers job)).run handler u = (.ok status.roleStatuses, s')
  history : (prepare settings now job).history handler s =
    (syncChildren job identity settings.servicePort).history handler s ++
      ⟨.listPods job, .ok pods⟩ :: (finalize identity pods (noNumbers job)).history handler u

theorem Surveys.stops {t u : σ} {first : Pod} (now : Instant)
    (hsurveys : Surveys handler settings job identity pods s t u)
    (hasks : pods.find? Pod.requestsStop = some first)
    (hfinalizes : (finalize identity pods (noNumbers job)).run handler u =
      (.ok status.roleStatuses, s')) :
    Stops handler settings now job identity pods first s t u s' status := by
  refine ⟨hsurveys, hasks, hfinalizes, ?_⟩
  have hlist : (Program.perform (.listPods job) PassError.listPods).run handler t = (.ok pods, u) :=
    Program.run_perform_eq_ok.2 hsurveys.lists
  rw [prepare_eq hsurveys.identified, Program.history_bind_of_ok hsurveys.children, syncPods,
    Program.history_bind_of_ok hlist, Program.history_perform, hsurveys.lists]
  simp only [hasks]
  rw [Program.history_bind_of_ok hfinalizes]
  simp

/-- In a pass that stops a job, the pods are gone through. -/
theorem Stops.history_finalize {s₀ t u : σ} {first : Pod} {result : PodsOutcome × JobStatus}
    (h : Stops handler settings now job identity pods first s t u s' status)
    (hbegins : Begins handler ns name job s₀ s)
    (hprepare : (prepare settings now job).run handler s = (.ok result, s')) :
    (finalize identity pods (noNumbers job)).history handler u <:+:
      (program settings now ns name).history handler s₀ := by
  rw [history_program settings now hbegins, history_ofJob hprepare, h.history]
  exact List.infix_cons (((List.suffix_cons _ _).trans
    (List.suffix_append _ _)).isInfix.trans (List.prefix_append _ _).isInfix)

theorem stops_of_run_prepare {requestedBy : String}
    (h : (prepare settings now job).run handler s = (.ok (.stopped requestedBy, status), s')) :
    ∃ identity pods first t u, requestedBy = first.name ∧
      Stops handler settings now job identity pods first s t u s' status := by
  obtain ⟨identity, pods, t, u, hsurveys, ⟨-, created, hgoes⟩ | ⟨first, hasks, hstops, hfinalizes⟩⟩ :=
    run_prepare_cases h
  · cases hgoes
  · cases hstops
    exact ⟨identity, pods, first, t, u, rfl, hsurveys.stops now hasks hfinalizes⟩

end

/-! ### Up to the list -/

section

variable {server s : Server} {P : Fault → Prop}

/-- What is found in a cluster is the job that it has. -/
theorem Begins.of_store {cluster cluster' : Cluster}
    (h : Begins store ns name job cluster cluster') :
    cluster' = cluster ∧ cluster.job? ns name = some job := by
  obtain ⟨-, rfl, ⟨hnone, -⟩ | ⟨doc, o, hdoc, hreads, hsome⟩⟩ := store_get.1 h.found
  · cases hnone
  · cases hsome
    exact ⟨rfl, Cluster.job?_eq_some.2 ⟨doc, hdoc, hreads⟩⟩

/-- A server with such faults and with the pods of another one. -/
structure PodsOf (P : Fault → Prop) (server s : Server) : Prop where
  faults : ∀ f ∈ s.faults, P f
  pods : ∀ key : ObjectKey, key.kind = .pod → s.cluster.get? key = server.cluster.get? key

theorem PodsOf.call (hspend : ∀ f, P f → P f.spend) {c : Call}
    (hc : ∀ key, c.key? = some key → key.kind ≠ .pod) (h : PodsOf P server s) :
    PodsOf P server (serverStore c s).2 := by
  refine ⟨forall_faults_serverStore hspend h.faults c, fun key hkey => ?_⟩
  rw [serverStore_frame (fun heq => hc key heq hkey), h.pods key hkey]

/-- The call is about one of the objects that a job has one of. -/
theorem key?_of_provides {port : Int32} {c : Call}
    (hc : c.Provides (children job identity port)) {key : ObjectKey} (hkey : c.key? = some key) :
    key.kind ∈ childKinds job := by
  cases c with
  | get kind ns name =>
    obtain ⟨e, he, heq⟩ := hc
    cases hkey
    exact heq ▸ kind_of_mem_children he
  | create kind ns object =>
    cases hkey
    exact kind_of_mem_children hc
  | _ => exact hc.elim

theorem PodsOf.syncChildren (hspend : ∀ f, P f → P f.spend) (job : Job) (identity : Identity)
    (port : Int32) (h : PodsOf P server s) :
    PodsOf P server ((syncChildren job identity port).run serverStore s).2 := by
  have hchildren : (Pass.syncChildren job identity port).Within
      (Call.Provides (children job identity port)) fun _ => True :=
    within_syncChildren fun _ he => he
  refine (hchildren.run (fun c s hc hs => ?_) h).1
  exact hs.call hspend fun key hkey => (childKinds_ne (key?_of_provides hc hkey)).2

/-- The pods are as they were at first when they are listed. -/
theorem Surveys.podsOf (hspend : ∀ f, P f → P f.spend) (hfaults : ∀ f ∈ server.faults, P f)
    {t u : Server} (hbegins : Begins serverStore ns name job server s)
    (h : Surveys serverStore settings job identity pods s t u) :
    PodsOf P server t ∧ PodsOf P server u := by
  have hfirst : PodsOf P server server := ⟨hfaults, fun _ _ => rfl⟩
  have hloaded := hfirst.call hspend (c := .get .job ns name) (by rintro key ⟨⟩; nofun)
  rw [hbegins.found] at hloaded
  have hchildren := hloaded.syncChildren hspend job identity settings.servicePort
  rw [h.children] at hchildren
  have hlists := hchildren.call hspend (c := .listPods job) nofun
  rw [h.lists] at hlists
  exact ⟨hchildren, hlists⟩

end

/-! ### What is left -/

/-- Whether a pod can be deleted when the job stops: it outlives the job, and there is a path for
it. -/
def swept (identity : Identity) (pod : Pod) : Bool :=
  outlives identity pod && hasPath identity.namespace pod.name

/-- Where the pods are that can be deleted when the job stops. -/
def deletedKeys (identity : Identity) (pods : List Pod) : List ObjectKey :=
  (pods.filter (swept identity)).map fun pod => ⟨.pod, identity.namespace, pod.name⟩

theorem mem_deletedKeys {key : ObjectKey} : key ∈ deletedKeys identity pods ↔
    ∃ pod ∈ pods, swept identity pod = true ∧ key = ⟨.pod, identity.namespace, pod.name⟩ := by
  simp only [deletedKeys, List.mem_map, List.mem_filter]
  constructor
  · rintro ⟨pod, ⟨hpod, hswept⟩, rfl⟩
    exact ⟨pod, hpod, hswept, rfl⟩
  · rintro ⟨pod, hpod, hswept, rfl⟩
    exact ⟨pod, ⟨hpod, hswept⟩, rfl⟩

/-- What is left after the pods have been gone through, when each deletion that is noted is done as
in the cluster. -/
theorem cluster_finalize {I : Server → Prop} {T : Answered → Prop} {statuses : StringMap RoleStatus}
    {server : Server}
    (hstep : ∀ name s, I s → I (serverStore (.delete .pod identity.namespace name) s).2 ∧
      (T ⟨_, (serverStore (.delete .pod identity.namespace name) s).1⟩ →
        (serverStore (.delete .pod identity.namespace name) s).2.cluster =
          (store (.delete .pod identity.namespace name) s.cluster).2))
    (hI : I server)
    (hnoted : ∀ a ∈ (finalize identity pods statuses).history serverStore server, T a) :
    I ((finalize identity pods statuses).run serverStore server).2 ∧
      ((finalize identity pods statuses).run serverStore server).2.cluster =
        server.cluster.eraseAll (deletedKeys identity pods) := by
  induction pods generalizing statuses server with
  | nil => exact ⟨hI, rfl⟩
  | cons pod rest ih =>
    cases hrole : Names.role? identity.name pod.name with
    | none =>
      have hkeys : deletedKeys identity (pod :: rest) = deletedKeys identity rest := by
        simp [deletedKeys, swept, outlives, hrole]
      simp only [finalize, hrole, hkeys] at hnoted ⊢
      exact ih hI hnoted
    | some role =>
      cases hexit : pod.exitCode? with
      | some code =>
        have hkeys : deletedKeys identity (pod :: rest) = deletedKeys identity rest := by
          simp [deletedKeys, swept, outlives, hrole, hexit]
        simp only [finalize, hrole, hexit, hkeys] at hnoted ⊢
        exact ih hI hnoted
      | none =>
        obtain ⟨hI', hdone⟩ := hstep pod.name server hI
        have hkeys (cluster : Cluster) : cluster.eraseAll (deletedKeys identity (pod :: rest)) =
            (store (.delete .pod identity.namespace pod.name) cluster).2.eraseAll
              (deletedKeys identity rest) := by
          rw [store_delete]
          cases hpath : hasPath identity.namespace pod.name <;>
            simp [deletedKeys, swept, outlives, hrole, hexit, hpath, Cluster.eraseAll]
        simp only [finalize, hrole, hexit] at hnoted ⊢
        rw [Program.history_call] at hnoted
        rw [Program.run_call, hkeys, ← hdone (hnoted _ List.mem_cons_self)]
        have hlater := fun a ha => hnoted a (List.mem_cons_of_mem _ ha)
        cases hanswer : (serverStore (.delete .pod identity.namespace pod.name) server).1 with
        | ok u =>
          rw [hanswer] at hlater
          exact ih hI' hlater
        | error e =>
          rw [hanswer] at hlater
          exact ih hI' hlater

end Pass

end JobOperator
