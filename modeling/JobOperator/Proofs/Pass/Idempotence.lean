import JobOperator.Proofs.Pass.Step

/-!
Passes one right after the other. The second finds all that the first created or left alone, creates
nothing, and writes the status that it found with the time at which it looked.
-/

namespace JobOperator

open Client

/-- How a pass ends that comes right after one that ended like this. -/
def Outcome.again : Outcome → Outcome
  | .progressing _ => .progressing 0
  | .completed _ => .alreadyComplete
  | .missing => .missing
  | .alreadyComplete => .alreadyComplete

namespace Cluster

/-- Nothing that is wanted is missing where all of it is there. -/
theorem missing_eq_zero {cluster : Cluster} {wanted : List (ObjectKey × Json)}
    (h : ∀ e ∈ wanted, cluster.contains e.1 = true) : cluster.missing wanted = 0 := by
  induction wanted with
  | nil => rfl
  | cons e wanted ih =>
    have he := h e List.mem_cons_self
    rw [missing, addMissing, if_pos he, if_pos he,
      ih fun f hf => h f (List.mem_cons_of_mem _ hf)]

theorem contains_addAll {cluster : Cluster} {wanted : List (ObjectKey × Json)}
    {e : ObjectKey × Json} (h : e ∈ wanted) : (cluster.addAll wanted).contains e.1 = true := by
  rw [SortedMap.contains_iff, get?_addAll]
  cases hold : cluster.get? e.1 with
  | some body => exact ⟨body, rfl⟩
  | none =>
    rw [Option.none_or, ← Option.isSome_iff_exists, Option.isSome_iff_ne_none, Ne,
      firstOf_eq_none_iff]
    exact fun hall => hall e h rfl

end Cluster

namespace Pass

variable {settings : PassSettings} {now now' : Instant} {job later : Job} {identity : Identity}
  {start cluster : Cluster} {doc doc' : Json}

/-! ### The second pass -/

/-- A pass over a job that goes on can be made again: the job is read with the start that it had. -/
theorem Proceeds.again (settings : PassSettings) (hnow : now.Valid) (hnow' : now'.Valid)
    (h : Proceeds now job identity doc cluster) : ∃ later, job.Resumes later ∧
      later.statusOrEmpty.startTime = (nextStatus now job identity cluster).startTime ∧
      Proceeds now' later identity
        (doc.mergePatch (statusPatch (job.withStatus (nextStatus now job identity cluster))))
        (progressed settings now job identity doc cluster) := by
  have hrenews := renews_nextStatus hnow (.refl h.reads h.unfinished) identity cluster
  obtain ⟨_, hwritten⟩ := h.written
  obtain ⟨members, rfl⟩ := Job.eq_obj_of_decode hwritten
  obtain ⟨status, hdecode, hstart, hresumes⟩ := hrenews.decode h.reads h.unfinished
  have hready : Ready (job.withStatus status) identity _
      (progressed settings now job identity (.obj members) cluster) :=
    Ready.of_grown hresumes grown_progressed h.toReady get?_progressed_key hdecode
  refine ⟨job.withStatus status, hresumes, hstart, hready, ?_⟩
  have hrenews' := renews_nextStatus hnow' hresumes identity
    (progressed settings now job identity (.obj members) cluster)
  have hdoc : job.Renewed (.obj members) _ := .inr ⟨_, hrenews, rfl⟩
  rw [hdoc.mergePatch_statusPatch hrenews']
  obtain ⟨status', hdecode', -⟩ := hrenews'.decode h.reads h.unfinished
  exact ⟨_, hdecode'⟩

section

variable (hresumes : job.Resumes later) (h : Proceeds now job identity doc cluster)

include hresumes h

/-- What the second pass would create is there. -/
theorem contains_of_mem_creationsIn {e : ObjectKey × Json}
    (he : e ∈ creationsIn settings later identity (progressed settings now job identity doc cluster)) :
    (progressed settings now job identity doc cluster).contains e.1 = true := by
  obtain ⟨status, rfl⟩ := hresumes.exists_eq
  have hwanted : e ∈ creationsIn settings job identity cluster :=
    creationsIn_subset h.identified rfl grown_progressed he
  have hne : e.1 ≠ identity.key := fun heq =>
    kind_of_mem_creations hwanted (congrArg ObjectKey.kind heq)
  rw [SortedMap.contains, get?_progressed_ne hne]
  exact Cluster.contains_addAll hwanted

theorem createdIn_progressed :
    createdIn settings later identity (progressed settings now job identity doc cluster) = 0 := by
  have hchildren : ∀ e ∈ children later identity settings.servicePort,
      (progressed settings now job identity doc cluster).contains e.1 = true := fun e he =>
    contains_of_mem_creationsIn hresumes h (List.mem_append_left _ he)
  rw [createdIn, Cluster.addAll_eq_self hchildren]
  refine Cluster.missing_eq_zero fun e he => ?_
  exact contains_of_mem_creationsIn hresumes h (List.mem_append_right _ he)

/-- The second pass leaves all but the job as it is. -/
theorem get?_progressed_progressed {key : ObjectKey} (hkey : key ≠ identity.key) :
    (progressed settings now' later identity doc'
        (progressed settings now job identity doc cluster)).get? key =
      (progressed settings now job identity doc cluster).get? key :=
  get?_progressed_of_grown hresumes grown_progressed h.identified hkey now' now

end

/-! ### Deletions -/

theorem calls_syncPods (hid : Identity.ofJob job = .ok identity)
    (hns : identity.namespace.toList.all mayStandInPath = true)
    (hlistable : Listable cluster identity.namespace job)
    (hquiet : ∀ pod ∈ ownedPods cluster identity.namespace job, pod.requestsStop = false) :
    ∀ c ∈ (syncPods job identity settings.images now (begin now job.statusOrEmpty)).calls store
      cluster, c.DeletesNothing := by
  obtain ⟨hjobns, -, -⟩ := Identity.ofJob_eq_ok.1 hid
  have hlist : store (.listPods job) cluster =
      (.ok (ownedPods cluster identity.namespace job), cluster) :=
    (store_listPods_iff hjobns).2 ⟨hns, rfl, hlistable, rfl⟩
  intro c hc
  rw [syncPods, Program.calls_bind_of_ok (Program.run_perform_eq_ok.2 hlist)] at hc
  simp only [find?_requestsStop.2 hquiet] at hc
  have hreads : (Call.listPods job).DeletesNothing := trivial
  rcases List.mem_append.1 hc with hc | hc
  · exact (Program.within_perform hreads).calls cluster c hc
  · have hroles : (syncRoles job identity settings.images
        (ownedPods cluster identity.namespace job) job.spec.roles.toList
        (begin now job.statusOrEmpty).roleStatuses 0).Within Call.DeletesNothing fun _ => True :=
      (within_syncRoles fun _ he => he).mono (fun _ hc => hc.adds.deletesNothing) fun _ _ => trivial
    refine Program.Within.calls (Q := fun _ => True) ?_ cluster c hc
    exact hroles.bind fun _ _ => trivial

/-- A pass over a job that goes on deletes nothing. -/
theorem calls_program_of_proceeds (settings : PassSettings)
    (h : Proceeds now job identity doc cluster) :
    ∀ c ∈ (program settings now identity.namespace identity.name).calls store cluster,
      c.DeletesNothing := by
  let pods := PodsOutcome.progressing (createdIn settings job identity cluster)
  have hidentity : (Program.ofExcept (Identity.ofJob job)).run store cluster =
      (.ok identity, cluster) := Program.run_ofExcept_eq_ok.2 ⟨h.identified, rfl⟩
  have hchildren : (syncChildren job identity settings.servicePort).Within Call.DeletesNothing
      fun _ => True :=
    (within_syncChildren fun _ he => he).mono (fun _ hc => hc.adds.deletesNothing) fun _ _ => trivial
  have hpersist : (persist job (pods, nextStatus now job identity cluster)).Within
      Call.DeletesNothing fun _ => True := by
    have hwrite : (Call.writeStatus
      (job.withStatus (nextStatus now job identity cluster))).DeletesNothing := trivial
    exact (Program.within_perform hwrite).bind fun _ _ => trivial
  have hget : (Call.get .job identity.namespace identity.name).DeletesNothing := trivial
  intro c hc
  rw [program, Program.calls_bind_of_ok (Program.run_perform_eq_ok.2 h.store_get)] at hc
  simp only [if_neg (Ne.symm h.unfinished)] at hc
  rcases List.mem_append.1 hc with hc | hc
  · exact (Program.within_perform hget).calls cluster c hc
  · rw [ofJob_eq, Program.calls_bind_of_ok (run_prepare h.toReady)] at hc
    rcases List.mem_append.1 hc with hc | hc
    · rw [prepare, Program.calls_bind_of_ok hidentity] at hc
      rcases List.mem_append.1 hc with hc | hc
      · exact (Program.within_ofExcept (P := Call.DeletesNothing)).calls cluster c hc
      · rw [Program.calls_bind_of_ok (run_syncChildren h.path h.children)] at hc
        rcases List.mem_append.1 hc with hc | hc
        · exact hchildren.calls cluster c hc
        · refine calls_syncPods h.identified (hasPath_ns h.path) ?_ ?_ c hc
          · exact (listable_congr fun _ hkey => get?_addAll_children hkey).1 h.listable
          · rw [← ownedPods_congr fun _ hkey => get?_addAll_children hkey]
            exact h.quiet
    · exact hpersist.calls _ c hc

/-! ### Passes that end well -/

/-- Whether a pass that finds this ends there: there is no job, or it is complete. -/
def Settled (found : Option Job) : Prop := ∀ job, found = some job → job.state = .complete

/-- How a pass ends that ends there. -/
def settledOutcome : Option Job → Outcome
  | none => .missing
  | some _ => .alreadyComplete

theorem run_program_of_settled (settings : PassSettings) (now : Instant) {ns name : String}
    {found : Option Job}
    (hget : store (.get .job ns name) cluster = (.ok found, cluster)) (hsettled : Settled found) :
    (program settings now ns name).run store cluster = (.ok (settledOutcome found), cluster) ∧
      (program settings now ns name).calls store cluster = [.get .job ns name] := by
  rw [program, Program.run_bind_of_ok (Program.run_perform_eq_ok.2 hget),
    Program.calls_bind_of_ok (Program.run_perform_eq_ok.2 hget), Program.perform, Program.calls, hget]
  cases found with
  | none => exact ⟨rfl, rfl⟩
  | some job =>
    simp only [hsettled job rfl, if_true]
    exact ⟨rfl, rfl⟩

/-- Whatever answers it, a pass that ends well ends there, or it has looked after the job. -/
theorem run_program_ends {σ : Type} {handler : Handler σ} {s after : σ} {ns name : String}
    {o : Outcome} (h : (program settings now ns name).run handler s = (.ok o, after)) :
    ∃ found t, handler (.get .job ns name) s = (.ok found, t) ∧
      (Settled found ∧ o = settledOutcome found ∧ after = t ∨ ∃ pods, o = outcome pods) := by
  rw [program] at h
  obtain ⟨found, t, hget, h⟩ := Program.run_bind_eq_ok.1 h
  refine ⟨found, t, Program.run_perform_eq_ok.1 hget, ?_⟩
  cases found with
  | none =>
    cases h
    refine .inl ⟨fun job hjob => ?_, rfl, rfl⟩
    cases hjob
  | some job =>
    simp only at h
    split at h
    · rename_i hstate
      cases h
      refine .inl ⟨fun job' hjob' => ?_, rfl, rfl⟩
      cases hjob'
      exact hstate.symm
    · rw [ofJob_eq] at h
      obtain ⟨⟨pods, status⟩, _, -, hpersist⟩ := Program.run_bind_eq_ok.1 h
      obtain ⟨_, _, -, hdone⟩ := Program.run_bind_eq_ok.1 hpersist
      cases hdone
      exact .inr ⟨pods, rfl⟩

theorem run_program_eq_ok {ns name : String} {o : Outcome} {after : Cluster}
    (h : (program settings now ns name).run store cluster = (.ok o, after)) :
    ∃ found, store (.get .job ns name) cluster = (.ok found, cluster) ∧
      (Settled found ∧ o = settledOutcome found ∧ after = cluster ∨
        (∃ created, o = .progressing created) ∨ ∃ requestedBy, o = .completed requestedBy) := by
  obtain ⟨found, t, hget, hends⟩ := run_program_ends h
  obtain ⟨-, rfl, -⟩ := store_get.1 hget
  refine ⟨found, hget, hends.imp_right ?_⟩
  rintro ⟨created | requestedBy, rfl⟩
  · exact .inl ⟨created, rfl⟩
  · exact .inr ⟨requestedBy, rfl⟩

/-- A pass that completes a job leaves one that is complete. -/
theorem complete_of_run_program {ns name : String} {requestedBy : String} {after : Cluster}
    (hnow : now.Valid) (hhomed : cluster.Homed ⟨.job, ns, name⟩)
    (h : (program settings now ns name).run store cluster = (.ok (.completed requestedBy), after)) :
    ∃ doc job, after.get? ⟨.job, ns, name⟩ = some doc ∧ Job.codec.decode doc = .ok job ∧
      job.state = .complete := by
  let server : Server := { cluster }
  have hfaults : server.faults = [] := rfl
  obtain ⟨-, hresult, hcluster, -⟩ := run_of_faultless (program settings now ns name) hfaults
  rw [h] at hresult hcluster
  have hnofaults : Failing server.faults := fun _ hfault => absurd hfault List.not_mem_nil
  rcases document_step settings now hnofaults hhomed with
    ⟨-, hno⟩ | ⟨doc, job, result, hupdates, hwrote⟩
  · rcases hno _ hresult with hno | hno <;> cases hno
  · obtain ⟨hanswer, later, hlater⟩ := hwrote.answered _ hresult
    obtain ⟨members, rfl⟩ := Job.eq_obj_of_decode hlater
    obtain ⟨status, hdecode, hfollows⟩ :=
      decode_of_updates hnow hwrote.reads hwrote.unfinished hupdates
    refine ⟨_, job.withStatus status, ?_, hdecode, ?_⟩
    · rw [← show _ = after from hcluster]
      exact hwrote.get?_after
    · have hstopped : result.1 = .stopped requestedBy := by
        cases hpods : result.1 with
        | progressing created =>
          rw [hpods] at hanswer
          cases hanswer
        | stopped requestedBy' =>
          rw [hpods] at hanswer
          cases hanswer
          rfl
      exact Job.state_eq_complete_iff.2
        ⟨now, hfollows.completion.trans (hupdates.stopped requestedBy hstopped)⟩

/-- What the pass after one that ended like this does: it ends likewise, deletes nothing, and leaves
all as it is but for the time at which it looked at the job. -/
structure Repeats (key : ObjectKey) (o : Outcome) (first : Cluster)
    (second : Except PassError Outcome × Cluster) : Prop where
  outcome : second.1 = .ok o.again
  others : ∀ k, k ≠ key → second.2.get? k = first.get? k
  job : (second.2.get? key).map (Job.blankStatus ["lastReconcileTime"]) =
    (first.get? key).map (Job.blankStatus ["lastReconcileTime"])

theorem repeats_of_settled {ns name : String} {found : Option Job} {o : Outcome}
    (hget : store (.get .job ns name) cluster = (.ok found, cluster)) (hsettled : Settled found)
    (ho : o.again = settledOutcome found) :
    Repeats ⟨.job, ns, name⟩ o cluster ((program settings now ns name).run store cluster) ∧
      ∀ c ∈ (program settings now ns name).calls store cluster, c.DeletesNothing := by
  obtain ⟨hrun, hcalls⟩ := run_program_of_settled settings now hget hsettled
  rw [hrun, hcalls]
  refine ⟨⟨by rw [ho], fun _ _ => rfl, rfl⟩, fun c hc => ?_⟩
  rw [List.mem_singleton.1 hc]
  trivial

theorem repeats_of_proceeds (hnow : now.Valid) (hnow' : now'.Valid)
    (h : Proceeds now job identity doc cluster) (created : Nat) :
    Repeats identity.key (.progressing created) (progressed settings now job identity doc cluster)
        ((program settings now' identity.namespace identity.name).run store
          (progressed settings now job identity doc cluster)) ∧
      ∀ c ∈ (program settings now' identity.namespace identity.name).calls store
        (progressed settings now job identity doc cluster), c.DeletesNothing := by
  obtain ⟨later, hresumes, hstart, hagain⟩ := h.again settings hnow hnow'
  refine ⟨⟨?_, ?_, ?_⟩, calls_program_of_proceeds settings hagain⟩
  · rw [run_program_of_proceeds settings hagain, createdIn_progressed hresumes h]
    rfl
  · intro key hkey
    rw [run_program_of_proceeds settings hagain]
    exact get?_progressed_progressed hresumes h hkey
  · have hrenews := renews_nextStatus hnow (.refl h.reads h.unfinished) identity cluster
    have hrenews' := renews_nextStatus hnow' hresumes identity
      (progressed settings now job identity doc cluster)
    have hgrown : Cluster.Grown (creationsIn settings job identity cluster) identity.key cluster
        (progressed settings now job identity doc cluster) := grown_progressed
    have hroles := roleStatuses_nextStatus hresumes hgrown h.identified now' now
    have hdoc : job.Renewed doc _ := .inr ⟨_, hrenews, rfl⟩
    rw [run_program_of_proceeds settings hagain, get?_progressed_key, get?_progressed_key,
      hdoc.mergePatch_statusPatch hrenews', Option.map_some, Option.map_some]
    refine congrArg some (Job.blankStatus_statusPatch hrenews'.stamped hrenews.stamped
      (hrenews'.unfinished.trans hrenews.unfinished.symm)
      hroles (.inl ?_) (.inr (by decide)) job job doc)
    obtain ⟨start, hsome, -⟩ := hrenews.stamped.start
    rw [hsome] at hstart ⊢
    change (later.statusOrEmpty.startTime.or (some now')) = some start
    rw [hstart]
    rfl

/-- A pass that ends well is followed by one that repeats it. -/
theorem repeats_of_run_program {ns name : String} {o : Outcome} {after : Cluster}
    (hnow : now.Valid) (hnow' : now'.Valid) (hhomed : cluster.Homed ⟨.job, ns, name⟩)
    (h : (program settings now ns name).run store cluster = (.ok o, after)) :
    Repeats ⟨.job, ns, name⟩ o after ((program settings now' ns name).run store after) ∧
      ∀ c ∈ (program settings now' ns name).calls store after, c.DeletesNothing := by
  obtain ⟨found, hget, ⟨hsettled, rfl, rfl⟩ | ⟨created, rfl⟩ | ⟨requestedBy, rfl⟩⟩ :=
    run_program_eq_ok h
  · refine repeats_of_settled hget hsettled ?_
    cases found <;> rfl
  · obtain ⟨job, identity, doc, rfl, rfl, hproceeds⟩ := proceeds_of_run_program hhomed h
    rw [run_program_of_proceeds settings hproceeds] at h
    cases h
    exact repeats_of_proceeds hnow hnow' hproceeds _
  · obtain ⟨hpath, -, -⟩ := store_get.1 hget
    obtain ⟨doc, job, hstored, hreads, hstate⟩ := complete_of_run_program hnow hhomed h
    have hagain : store (.get .job ns name) after = (.ok (some job), after) :=
      store_get.2 ⟨hpath, rfl, .inr ⟨doc, job, hstored, hreads, rfl⟩⟩
    refine repeats_of_settled hagain (fun job' hjob' => ?_) rfl
    cases hjob'
    exact hstate

/-- In a server without faults, a pass that ends well can be made again at once: it ends likewise,
creates and deletes nothing, and leaves every object as it was but for the time of the job's last
look. -/
theorem second_pass_repeats {ns name : String} {server : Server} {o : Outcome}
    (hfaults : server.faults = []) (hjob : server.cluster.Homed ⟨.job, ns, name⟩)
    (hnow : now.Valid) (hnow' : now'.Valid)
    (h : ((program settings now ns name).run (handler Server.exchange) server).1 = .ok o) :
    let first := ((program settings now ns name).run (handler Server.exchange) server).2
    let second := (program settings now' ns name).run (handler Server.exchange) first.forget
    Repeats ⟨.job, ns, name⟩ o first.cluster (second.1, second.2.cluster) ∧
      ∀ e ∈ second.2.log, e.request.verb ≠ .delete := by
  intro first second
  obtain ⟨hfirst, hresult, hcluster, -⟩ := run_of_faultless (program settings now ns name) hfaults
  have hforget : first.forget.faults = [] := hfirst
  obtain ⟨-, hresult', hcluster', hcalls'⟩ :=
    run_of_faultless (program settings now' ns name) hforget
  have hrun : (program settings now ns name).run store server.cluster = (.ok o, first.cluster) :=
    Prod.ext (hresult.symm.trans h) hcluster.symm
  obtain ⟨hrepeats, hcalls⟩ := repeats_of_run_program hnow hnow' hjob hrun
  refine ⟨?_, fun e he => ?_⟩
  · rw [show second.1 = _ from hresult', show second.2.cluster = _ from hcluster']
    exact hrepeats
  · have hrequests := requests_run (program settings now' ns name) first.forget
    rw [hcalls'] at hrequests
    have hmem : e.request ∈ second.2.log.map (·.request) := List.mem_map.2 ⟨e, he, rfl⟩
    rw [show second.2.log.map (·.request) = _ from hrequests] at hmem
    rcases List.mem_append.1 hmem with hmem | hmem
    · obtain ⟨c, hc, hrequest⟩ := List.mem_filterMap.1 (List.mem_reverse.1 hmem)
      exact verb_of_request? (hcalls c hc) hrequest
    · exact absurd hmem List.not_mem_nil

/-- The second pass over a job that has just been posted creates nothing more. -/
theorem second_pass_repeats_posted :
    let first := ((program {} Sample.now "default" "train").run (handler Server.exchange)
      { cluster := Sample.posted }).2
    let second := (program {} Sample.later "default" "train").run (handler Server.exchange)
      first.forget
    Repeats ⟨.job, "default", "train"⟩ (.progressing 2) first.cluster
        (second.1, second.2.cluster) ∧
      ∀ e ∈ second.2.log, e.request.verb ≠ .delete := by
  let server : Server := { cluster := Sample.posted }
  have hfaults : server.faults = [] := rfl
  exact second_pass_repeats hfaults Sample.homed_posted Sample.valid_now Sample.valid_later rfl

end Pass

end JobOperator
