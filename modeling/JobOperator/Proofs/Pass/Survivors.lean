import JobOperator.Proofs.Pass.Homed
import JobOperator.Proofs.Pass.Incarnation
import JobOperator.Proofs.Pass.Persisted
import JobOperator.Proofs.Pass.Stopping

/-!
The pods that are left when a job was completed. A pass deletes every pod of a role whose first
container has not ended, and what the server tells to be gone is gone; nothing else is deleted. It
does not look at the phase of a pod. So all that is left has ended where a pod that has not ended is
of a role and its first container has not ended either; else a pod that runs can be left, and be
counted as completed at that.
-/

namespace JobOperator

open Client

namespace Pass

variable {settings : PassSettings} {now : Instant} {ns name : String} {job : Job}
  {identity : Identity} {pods : List Pod} {server : Server}

theorem of_not_outlives {pod : Pod} (h : ¬ outlives identity pod = true) :
    Names.role? identity.name pod.name = none ∨ ∃ code, pod.exitCode? = some code := by
  by_cases hrole : Names.role? identity.name pod.name = none
  · exact .inl hrole
  · exact .inr (Option.ne_none_iff_exists'.1 fun hexit => h (outlives_iff.2 ⟨hrole, hexit⟩))

theorem hasPath_of_swept {statuses : StringMap RoleStatus} {pod : Pod}
    (houtlives : outlives identity pod = true) (hpod : pod ∈ pods)
    (hgone : ∀ a ∈ (finalize identity pods statuses).history serverStore server, a.LeavesNothing) :
    hasPath identity.namespace pod.name = true := by
  obtain ⟨deletions, verdicts, _, hpods, -, hhistory⟩ :=
    run_finalize serverStore identity pods statuses server
  have hmem : pod ∈ deletions.map (·.pod) := by
    rw [hpods.pods_eq]
    exact List.mem_filter.2 ⟨hpod, houtlives⟩
  obtain ⟨deletion, hdeletion, rfl⟩ := List.mem_map.1 hmem
  have hnoted : deletion.answered identity ∈
      (finalize identity pods statuses).history serverStore server := by
    rw [hhistory]
    exact List.mem_map_of_mem hdeletion
  obtain ⟨t, ht⟩ := Program.answer_of_mem_history hnoted
  have htells : TellsGone (serverStore (.delete .pod identity.namespace deletion.pod.name) t).1 := by
    show TellsGone (serverStore (deletion.answered identity).call t).1
    rw [← ht]
    exact hgone _ hnoted
  exact hasPath_of_tellsGone htells

theorem Stops.get?_written {first : Pod} {status : JobStatus} {s t u v : Server}
    (h : Stops serverStore settings now job identity pods first s t u v status)
    (hfaults : ∀ f ∈ server.faults, f.Candid) (hbegins : Begins serverStore ns name job server s)
    (hgone : ∀ a ∈ (finalize identity pods (noNumbers job)).history serverStore u, a.LeavesNothing)
    {key : ObjectKey} (hkey : key.kind = .pod) :
    (serverStore (.writeStatus (job.withStatus status)) v).2.cluster.get? key =
      if key ∈ deletedKeys identity pods then none else server.cluster.get? key := by
  have hspend : ∀ f : Fault, f.Candid → f.spend.Candid := fun _ hf => hf
  obtain ⟨-, hlisted⟩ := h.toSurveys.podsOf hspend hfaults hbegins
  obtain ⟨-, hleft⟩ := cluster_finalize
    (I := fun s => ∀ f ∈ s.faults, f.Candid) (T := Answered.LeavesNothing)
    (fun name' s hs => ⟨forall_faults_serverStore hspend hs _, delete_of_candid hs⟩)
    hlisted.faults hgone
  rw [h.finalizes] at hleft
  have hother : (Call.writeStatus (job.withStatus status)).key? ≠ some key := by
    intro heq
    obtain ⟨_, -, rfl⟩ := Option.map_eq_some_iff.1 heq
    cases hkey
  rw [serverStore_frame hother, hleft, Cluster.get?_eraseAll, hlisted.pods key hkey]

/-- After a pass that has completed its job, where no fault lied of a deletion and each was answered
by success or not found, the pods are as before but those that can be deleted, and these are all of
the listed pods that outlive the job. -/
theorem get?_of_completed (hfaults : ∀ f ∈ server.faults, f.Candid) {requestedBy : String}
    (hrun : ((program settings now ns name).run serverStore server).1 =
      .ok (.completed requestedBy))
    (hgone : ∀ a ∈ (program settings now ns name).history serverStore server, a.LeavesNothing)
    (hlist : ⟨.listPods job, .ok pods⟩ ∈
      (program settings now ns name).history serverStore server) :
    ∃ identity, Identity.ofJob job = .ok identity ∧
      (∀ pod ∈ pods, swept identity pod = outlives identity pod) ∧
      ∀ key : ObjectKey, key.kind = .pod →
        ((program settings now ns name).run serverStore server).2.cluster.get? key =
          if key ∈ deletedKeys identity pods then none else server.cluster.get? key := by
  obtain ⟨job', status, t, t', hget, hstate, hprepare, hwrite, -⟩ :=
    run_program_eq_outcome (o := .stopped requestedBy) (Prod.ext hrun rfl)
  obtain ⟨identity, pods', first, u, v, -, hstops⟩ := stops_of_run_prepare hprepare
  have hbegins : Begins serverStore ns name job' server t := ⟨hget, hstate⟩
  -- the list is the one that the pass has made
  obtain ⟨rfl, rfl⟩ : job = job' ∧ pods = pods' := by
    obtain ⟨identity', t₁, u₁, hfound, hid, hchildren, hanswer⟩ := of_mem_history_listPods hlist
    cases hfound.found.symm.trans hget
    cases hid.symm.trans hstops.identified
    cases hchildren.symm.trans hstops.children
    rw [hstops.lists] at hanswer
    cases hanswer
    exact ⟨rfl, rfl⟩
  have hdeleted : ∀ a ∈ (finalize identity pods (noNumbers job)).history serverStore v,
      a.LeavesNothing := fun a ha => hgone a ((hstops.history_finalize hbegins hprepare).subset ha)
  refine ⟨identity, hstops.identified, fun pod hpod => ?_, fun key hkey => ?_⟩
  · cases houtlives : outlives identity pod with
    | false => rw [swept, houtlives, Bool.false_and]
    | true => rw [swept, houtlives, hasPath_of_swept houtlives hpod hdeleted, Bool.and_self]
  · have hleft := hstops.get?_written hfaults hbegins hdeleted hkey
    rwa [hwrite] at hleft

/-- After a pass that has completed its job, where no fault lied of a deletion and each was answered
by success or not found: what is left of the listed pods belongs to no role, or its first container
had ended; all pods are as before but those of a role whose first container had not ended; and if
such are all listed pods that had not ended, then every listed pod that is left had ended. -/
theorem completed_pass_leaves (settings : PassSettings) (now : Instant) (ns name : String)
    (server : Server) (hfaults : ∀ f ∈ server.faults, f.Candid) {requestedBy : String}
    (hrun : ((program settings now ns name).run serverStore server).1 =
      .ok (.completed requestedBy))
    (hgone : ∀ a ∈ (program settings now ns name).history serverStore server, a.LeavesNothing)
    {job : Job} {pods : List Pod}
    (hlist : ⟨.listPods job, .ok pods⟩ ∈
      (program settings now ns name).history serverStore server) :
    let after := ((program settings now ns name).run serverStore server).2.cluster
    ∃ identity, Identity.ofJob job = .ok identity ∧
      (∀ pod ∈ pods, after.get? ⟨.pod, identity.namespace, pod.name⟩ ≠ none →
        Names.role? identity.name pod.name = none ∨ ∃ code, pod.exitCode? = some code) ∧
      (∀ key : ObjectKey, key.kind = .pod →
        (∀ pod ∈ pods, Names.role? identity.name pod.name ≠ none → pod.exitCode? = none →
          key ≠ ⟨.pod, identity.namespace, pod.name⟩) →
        after.get? key = server.cluster.get? key) ∧
      ((∀ pod ∈ pods, (pod.phase? = some "Succeeded" ∨ pod.phase? = some "Failed") ∨
          Names.role? identity.name pod.name ≠ none ∧ pod.exitCode? = none) →
        ∀ pod ∈ pods, after.get? ⟨.pod, identity.namespace, pod.name⟩ ≠ none →
          pod.phase? = some "Succeeded" ∨ pod.phase? = some "Failed") := by
  intro after
  obtain ⟨identity, hid, hswept, hafter⟩ := get?_of_completed hfaults hrun hgone hlist
  have hleft : ∀ pod ∈ pods, after.get? ⟨.pod, identity.namespace, pod.name⟩ ≠ none →
      ¬ outlives identity pod = true := by
    intro pod hpod hthere houtlives
    have hdeleted : swept identity pod = true := (hswept pod hpod).trans houtlives
    apply hthere
    rw [hafter _ rfl, if_pos (mem_deletedKeys.2 ⟨pod, hpod, hdeleted, rfl⟩)]
  refine ⟨identity, hid, fun pod hpod hthere => of_not_outlives (hleft pod hpod hthere),
    fun key hkey hother => ?_, fun hshown pod hpod hthere => ?_⟩
  · have hkept : key ∉ deletedKeys identity pods := by
      intro hmem
      obtain ⟨pod, hpod, hdeleted, rfl⟩ := mem_deletedKeys.1 hmem
      obtain ⟨hrole, hexit⟩ := outlives_iff.1 ((hswept pod hpod).symm.trans hdeleted)
      exact hother pod hpod hrole hexit rfl
    rw [hafter key hkey, if_neg hkept]
  · rcases hshown pod hpod with hended | hruns
    · exact hended
    · exact absurd (outlives_iff.2 hruns) (hleft pod hpod hthere)

end Pass

namespace Sample

/-- A server with both pods of the small job that answers a deletion as if there had been nothing. -/
def outpaced : Server :=
  { cluster := ending
    faults := [{ verb := .delete, kind := .pod, response := Cluster.notFound, applies := true }] }

theorem candid_outpaced : ∀ f ∈ outpaced.faults, f.Candid := by
  intro f hf
  rw [List.mem_singleton.1 hf]
  exact fun _ => .inl rfl

/-- The small job with a pod that asks for it to stop and two that run: one that belongs to no role,
and one of whose two containers the first has ended. -/
def lingering : Cluster :=
  let container (name state : String) (inState : Json) : Json := .obj
    [("name", .str name), ("state", .obj [(state, inState)])]
  let halfEnded : Json := .obj
    [("phase", .str "Running"), ("containerStatuses", .arr
      [container "main" "terminated" (.obj [("exitCode", .int 0)]),
        container "sidecar" "running" (.obj [])])]
  ((stopping.insert ⟨.pod, "default", "train-helper"⟩
      (podOf "train-helper" (.obj [("phase", .str "Running")]))).insert
    ⟨.pod, "default", "train-worker-0"⟩ (podOf "train-worker-0" halfEnded)).insert key document

end Sample

namespace Pass

theorem listed_outpaced :
    ((program {} Sample.now "default" "train").history serverStore Sample.outpaced)[5]? =
      some ⟨.listPods Sample.job, .ok (ownedPods Sample.ending "default" Sample.job)⟩ := by
  rfl

/-- The other pod of the small job is gone after the pass, though its deletion found nothing; of the
two, only the one that had ended is left. -/
theorem completed_pass_leaves_asking :
    let pods := ownedPods Sample.ending "default" Sample.job
    let after :=
      ((program {} Sample.now "default" "train").run serverStore Sample.outpaced).2.cluster
    ((program {} Sample.now "default" "train").run serverStore Sample.outpaced).1 =
        .ok (.completed "train-worker-1") ∧
      pods.map Pod.name = ["train-worker-0", "train-worker-1"] ∧
      after.get? ⟨.pod, "default", "train-worker-0"⟩ = none ∧
      ∀ pod ∈ pods, after.get? ⟨.pod, "default", pod.name⟩ ≠ none →
        pod.phase? = some "Succeeded" ∨ pod.phase? = some "Failed" := by
  intro pods after
  have hrun : ((program {} Sample.now "default" "train").run serverStore Sample.outpaced).1 =
      .ok (.completed "train-worker-1") := by
    decide +kernel
  have hgone : ∀ a ∈ (program {} Sample.now "default" "train").history serverStore Sample.outpaced,
      a.LeavesNothing := by
    decide +kernel
  have hpod : ∃ pod ∈ ownedPods Sample.ending "default" Sample.job, pod.name = "train-worker-0" ∧
      Names.role? "train" "train-worker-0" ≠ none ∧ pod.exitCode? = none := by
    decide +kernel
  have hshown : ∀ pod ∈ pods, (pod.phase? = some "Succeeded" ∨ pod.phase? = some "Failed") ∨
      Names.role? "train" pod.name ≠ none ∧ pod.exitCode? = none := by
    decide +kernel
  obtain ⟨pod, hmem, hname, hrole, hexit⟩ := hpod
  obtain ⟨identity, hid, hleft, -, hended⟩ := completed_pass_leaves {} Sample.now "default" "train"
    Sample.outpaced Sample.candid_outpaced hrun hgone (List.mem_of_getElem? listed_outpaced)
  obtain rfl : ⟨"train", "default", "u1"⟩ = identity := Except.ok.inj hid
  refine ⟨hrun, by decide +kernel, ?_, hended hshown⟩
  have hgone := hleft pod hmem
  rw [hname] at hgone
  by_contra hthere
  rcases hgone hthere with hnone | ⟨code, hcode⟩
  · exact hrole hnone
  · rw [hexit] at hcode
    cases hcode

/-- Pods that run are left when a job was completed: one of no role, which is not counted, and one of
which only the first container has ended, which counts as completed beside the one that asked. -/
theorem leaves_running_pods :
    let pass := program {} Sample.now "default" "train"
    let server : Server := { cluster := Sample.lingering }
    let after := (pass.run serverStore server).2.cluster
    let left (name : String) : Option Pod :=
      (after.get? ⟨.pod, "default", name⟩).bind fun doc => (Pod.codec.decode doc).toOption
    (pass.run serverStore server).1 = .ok (.completed "train-worker-1") ∧
      (∀ a ∈ pass.history serverStore server, a.LeavesNothing) ∧
      (∀ name ∈ ["train-helper", "train-worker-0"],
        name ∈ (ownedPods Sample.lingering "default" Sample.job).map Pod.name ∧
        (left name).map Pod.phase? = some (some "Running")) ∧
      (after.job? "default" "train").bind (·.status.map (·.roleStatuses.toList)) =
        some [("worker", { completed := 2 })] := by
  decide +kernel

end Pass

end JobOperator
