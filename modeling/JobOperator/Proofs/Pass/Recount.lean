import JobOperator.Proofs.Pass.Homed
import JobOperator.Proofs.Pass.Incarnation
import JobOperator.Proofs.Pass.Persisted
import JobOperator.Proofs.Pass.Stopping

/-!
A job that stops and whose status is not written. The next pass stops it again, but it finds only the
pods that are left: what it writes are the numbers of the first pass without the pods that this one
has deleted.
-/

namespace JobOperator

open Client

/-- The number of pods of a role that were counted as this. -/
def JobStatus.number (status : JobStatus) (role : String) (counter : Counter) : Int32 :=
  ((status.roleStatuses.get? role).getD {}).number counter

/-- Whether a fault meets only the end of a pass: a patch, or a deletion that is done all the same. -/
def Fault.StrikesLate (fault : Fault) : Prop :=
  fault.verb = .patch ∨ fault.verb = .delete ∧ fault.applies = true

instance (fault : Fault) : Decidable fault.StrikesLate :=
  inferInstanceAs (Decidable (_ ∨ _))

namespace Pass

variable {settings : PassSettings} {now now' : Instant} {ns name : String} {job : Job}
  {identity : Identity} {pods : List Pod} {start cluster : Cluster} {server : Server}

/-! ### The pods that are left -/

section

variable (hhomed : ∀ key : ObjectKey, key.kind = .pod → cluster.Homed key)

include hhomed

theorem mem_deletedKeys_iff {key : ObjectKey} {doc : Json} {pod : Pod}
    (hdoc : cluster.get? key = some doc)
    (hpod : ownedPod? identity.namespace job (key, doc) = some pod) :
    key ∈ deletedKeys identity (ownedPods cluster identity.namespace job) ↔
      swept identity pod = true := by
  have hmem : pod ∈ ownedPods cluster identity.namespace job := mem_ownedPods.2 ⟨key, doc, hdoc, hpod⟩
  obtain rfl := key_of_ownedPod? (Cluster.namesPods_of_homed hhomed) hdoc hpod
  rw [mem_deletedKeys]
  constructor
  · rintro ⟨other, hother, hswept, heq⟩
    rwa [eq_of_name_eq (Cluster.namesPods_of_homed hhomed) hmem hother (congrArg ObjectKey.name heq)]
  · intro hswept
    exact ⟨pod, hmem, hswept, rfl⟩

theorem ownedPods_eraseAll :
    ownedPods (cluster.eraseAll (deletedKeys identity (ownedPods cluster identity.namespace job)))
        identity.namespace job =
      (ownedPods cluster identity.namespace job).filter fun pod => !swept identity pod := by
  let left := cluster.eraseAll (deletedKeys identity (ownedPods cluster identity.namespace job))
  have hleft : ∀ pod ∈ ownedPods left identity.namespace job, (!swept identity pod) = true := by
    intro pod hpod
    obtain ⟨key, doc, hdoc, hfound⟩ := mem_ownedPods.1 hpod
    rw [Cluster.get?_eraseAll] at hdoc
    split at hdoc
    · cases hdoc
    · rename_i hkey
      rw [mem_deletedKeys_iff hhomed hdoc hfound] at hkey
      simpa using hkey
  rw [← List.filter_eq_self.2 hleft]
  refine filter_ownedPods_congr fun key => ?_
  rw [Cluster.get?_eraseAll]
  split
  · rename_i hkey
    cases hdoc : cluster.get? key with
    | none => rfl
    | some doc =>
      rw [Option.bind_none, Option.bind_some]
      cases hpod : ownedPod? identity.namespace job (key, doc) with
      | none => rfl
      | some pod =>
        rw [mem_deletedKeys_iff hhomed hdoc hpod] at hkey
        simp [Option.filter, hkey]
  · rfl

end

/-- A pod that asks for the job to stop has ended, and is left. -/
theorem find?_left (identity : Identity) (pods : List Pod) :
    (pods.filter fun pod => !swept identity pod).find? Pod.requestsStop =
      pods.find? Pod.requestsStop := by
  rw [List.find?_filter]
  congr 1
  funext pod
  cases hasks : pod.requestsStop with
  | false => simp
  | true => simp [swept, outlives_of_requestsStop hasks]

/-! ### The numbers -/

theorem number_getD_tally (job : Job) (verdicts : List (String × Counter)) (r : String)
    (c : Counter) : (((tally (noNumbers job) verdicts).get? r).getD {}).number c =
      Int32.ofNat (verdicts.count (r, c)) := by
  cases hr : (tally (noNumbers job) verdicts).get? r with
  | some numbers => exact number_tally hr c
  | none =>
    have hnone : (r, c) ∉ verdicts := by
      intro hmem
      have hsome := (isSome_tally (noNumbers job) verdicts r).2 (.inr (List.mem_map_of_mem hmem))
      rw [hr] at hsome
      cases hsome
    rw [List.count_eq_zero_of_not_mem hnone]
    cases c <;> rfl

/-- Whether a deletion was refused for want of a path, if there was none. -/
def Deletion.Refused (identity : Identity) (deletion : Deletion) : Prop :=
  hasPath identity.namespace deletion.pod.name = false →
    deletion.answer = .error (unasked (.delete .pod identity.namespace deletion.pod.name))

theorem refused_of_history {σ : Type} {send : Transport σ} {s : σ} {statuses : StringMap RoleStatus}
    {deletions : List Deletion} (h : (finalize identity pods statuses).history (handler send) s =
      deletions.map (·.answered identity)) : ∀ d ∈ deletions, d.Refused identity := by
  intro d hd hpath
  have hmem : d.answered identity ∈ (finalize identity pods statuses).history (handler send) s := by
    rw [h]
    exact List.mem_map_of_mem hd
  obtain ⟨t, ht⟩ := Program.answer_of_mem_history hmem
  rw [show d.answer = _ from ht]
  exact congrArg Prod.fst (handler_of_no_request (request?_delete_eq_none hpath .pod) t)

theorem Deletion.Refused.counter {deletion : Deletion} (h : deletion.Refused identity)
    (hpath : hasPath identity.namespace deletion.pod.name = false) : deletion.counter = .failed := by
  simp only [Deletion.counter, Deletion.gone, h hpath]
  rfl

namespace Finalizes

variable {deletions deletions' : List Deletion} {verdicts verdicts' : List (String × Counter)}

/-- The deletions that there was no path for count as failures, of the pods that they were for. -/
theorem countP_refused (h : Finalizes identity pods deletions verdicts)
    (hrefused : ∀ d ∈ deletions, d.Refused identity) (r : String) (c : Counter) :
    deletions.countP (fun d => (d.pod.hasRole identity.name r && d.counter == c) &&
        !hasPath identity.namespace d.pod.name) =
      pods.countP fun pod => outlives identity pod && !hasPath identity.namespace pod.name &&
        pod.hasRole identity.name r && Counter.failed == c := by
  let refused (pod : Pod) : Bool := !hasPath identity.namespace pod.name &&
    pod.hasRole identity.name r && Counter.failed == c
  have hcount : deletions.countP (fun d => (d.pod.hasRole identity.name r && d.counter == c) &&
      !hasPath identity.namespace d.pod.name) = deletions.countP (refused ∘ (·.pod)) := by
    refine List.countP_congr fun d hd => ?_
    cases hpath : hasPath identity.namespace d.pod.name with
    | true => simp [refused, hpath]
    | false => simp [refused, hpath, (hrefused d hd).counter hpath]
  rw [hcount, ← List.countP_map, h.pods_eq, List.countP_filter]
  refine List.countP_congr fun pod _ => ?_
  simp [refused, and_comm, and_left_comm]

/-- The verdicts on the pods that are left are those on all pods, without the pods that could be
deleted. -/
theorem count_left (h : Finalizes identity pods deletions verdicts)
    (h' : Finalizes identity (pods.filter fun pod => !swept identity pod) deletions' verdicts')
    (hrefused : ∀ d ∈ deletions, d.Refused identity)
    (hrefused' : ∀ d ∈ deletions', d.Refused identity) (r : String) (c : Counter) :
    verdicts.count (r, c) = verdicts'.count (r, c) +
      deletions.countP (fun d => (d.pod.hasRole identity.name r && d.counter == c) &&
        hasPath identity.namespace d.pod.name) := by
  let counts (d : Deletion) : Bool := d.pod.hasRole identity.name r && d.counter == c
  have hended : (pods.filter fun pod => !swept identity pod).countP
      (fun pod => pod.hasRole identity.name r && pod.endedAs c) =
        pods.countP fun pod => pod.hasRole identity.name r && pod.endedAs c := by
    rw [List.countP_filter]
    refine List.countP_congr fun pod _ => ?_
    cases hexit : pod.exitCode? <;> simp [swept, outlives, Pod.endedAs, hexit]
  have hsplit : deletions.countP counts =
      deletions.countP (fun d => counts d && hasPath identity.namespace d.pod.name) +
        deletions.countP fun d => counts d && !hasPath identity.namespace d.pod.name := by
    rw [List.countP_eq_countP_filter_add deletions counts
      fun d => hasPath identity.namespace d.pod.name, List.countP_filter, List.countP_filter]
  -- the deletions of the pods that are left are those that there is no path for
  have hleft : deletions'.countP counts =
      deletions.countP fun d => counts d && !hasPath identity.namespace d.pod.name := by
    have hpath : ∀ d ∈ deletions', hasPath identity.namespace d.pod.name = false := by
      intro d hd
      have hmem : d.pod ∈ deletions'.map (·.pod) := List.mem_map_of_mem hd
      rw [h'.pods_eq, List.mem_filter, List.mem_filter] at hmem
      simpa [swept, hmem.2] using hmem.1.2
    have hall : deletions'.countP counts =
        deletions'.countP fun d => counts d && !hasPath identity.namespace d.pod.name :=
      List.countP_congr fun d hd => by simp [hpath d hd]
    rw [hall, h'.countP_refused hrefused', h.countP_refused hrefused, List.countP_filter]
    refine List.countP_congr fun pod _ => ?_
    cases hpod : hasPath identity.namespace pod.name <;> simp [swept, hpod]
  rw [h.count_eq, h'.count_eq, hended]
  show _ + deletions.countP counts = _ + deletions'.countP counts + _
  rw [hsplit, hleft, Nat.add_assoc, Nat.add_comm (deletions.countP _)]

end Finalizes

/-! ### The first pass -/

/-- Where faults strike late, all but patches and deletions are answered by the cluster. -/
theorem serverStore_of_late (hfaults : ∀ f ∈ server.faults, f.StrikesLate) {c : Call}
    (hpatch : c.verb ≠ .patch) (hdelete : c.verb ≠ .delete) :
    (serverStore c server).1 = (store c server.cluster).1 ∧
      (serverStore c server).2.cluster = (store c server.cluster).2 := by
  refine serverStore_of_unanswered fun f hf hverb => ?_
  rcases hfaults f hf with hlate | ⟨hlate, -⟩
  · exact hpatch (hverb.symm.trans hlate)
  · exact hdelete (hverb.symm.trans hlate)

theorem spend_late (f : Fault) (h : f.StrikesLate) : f.spend.StrikesLate := h

theorem run_of_late {ε α : Type} {program : Program ε α} {Q : α → Prop}
    (h : program.Within (fun c => c.verb ≠ .patch ∧ c.verb ≠ .delete) Q)
    (hfaults : ∀ f ∈ server.faults, f.StrikesLate) :
    (∀ f ∈ (program.run serverStore server).2.faults, f.StrikesLate) ∧
      (program.run serverStore server).1 = (program.run store server.cluster).1 ∧
      (program.run serverStore server).2.cluster = (program.run store server.cluster).2 ∧
      program.calls serverStore server = program.calls store server.cluster :=
  h.run_map (I := fun server : Server => ∀ f ∈ server.faults, f.StrikesLate) (fun c _ hc hs =>
    ⟨forall_faults_serverStore spend_late hs c, serverStore_of_late hs hc.1 hc.2⟩) hfaults

theorem Begins.of_late (hfaults : ∀ f ∈ server.faults, f.StrikesLate) {t : Server}
    (h : Begins serverStore ns name job server t) :
    (∀ f ∈ t.faults, f.StrikesLate) ∧ Begins store ns name job server.cluster t.cluster := by
  have hlate := forall_faults_serverStore spend_late hfaults (.get .job ns name)
  obtain ⟨hanswer, hcluster⟩ :=
    serverStore_of_late hfaults (c := .get .job ns name) nofun nofun
  rw [h.found] at hlate hanswer hcluster
  exact ⟨hlate, Prod.ext hanswer.symm hcluster.symm, h.unfinished⟩

theorem Surveys.of_late (hfaults : ∀ f ∈ server.faults, f.StrikesLate) {t u : Server}
    (h : Surveys serverStore settings job identity pods server t u) :
    (∀ f ∈ u.faults, f.StrikesLate) ∧
      Surveys store settings job identity pods server.cluster t.cluster u.cluster := by
  have hchildren : (syncChildren job identity settings.servicePort).Within
      (fun c => c.verb ≠ .patch ∧ c.verb ≠ .delete) fun _ => True := by
    refine (within_syncChildren fun _ he => he).mono (fun c hc => ?_) fun _ h => h
    cases c with
    | get | create => exact ⟨nofun, nofun⟩
    | _ => exact hc.elim
  obtain ⟨hlate, hresult, hcluster, -⟩ := run_of_late hchildren hfaults
  rw [h.children] at hlate hresult hcluster
  have hlate' := forall_faults_serverStore spend_late hlate (.listPods job)
  obtain ⟨hanswer, hcluster'⟩ := serverStore_of_late hlate (c := .listPods job) nofun nofun
  rw [h.lists] at hlate' hanswer hcluster'
  exact ⟨hlate', h.identified, Prod.ext hresult.symm hcluster.symm,
    Prod.ext hanswer.symm hcluster'.symm⟩

theorem letsDelete_of_late {f : Fault} (h : f.StrikesLate) : f.LetsDelete := by
  intro hverb
  rcases h with hpatch | ⟨-, happlies⟩
  · rw [hpatch] at hverb
    cases hverb
  · exact happlies

theorem cluster_finalize_of_late (hfaults : ∀ f ∈ server.faults, f.StrikesLate)
    (identity : Identity) (pods : List Pod) (statuses : StringMap RoleStatus) :
    ((finalize identity pods statuses).run serverStore server).2.cluster =
      server.cluster.eraseAll (deletedKeys identity pods) :=
  (cluster_finalize (I := fun server : Server => ∀ f ∈ server.faults, f.StrikesLate)
    (T := fun _ => True) (fun name _ hs => ⟨forall_faults_serverStore spend_late hs _, fun _ =>
      delete_of_letsDelete (fun f hf => letsDelete_of_late (hs f hf)) .pod identity.namespace name⟩)
    hfaults fun _ _ => trivial).2

theorem Surveys.of_store {t u : Cluster}
    (hpath : hasPath identity.namespace identity.name = true)
    (h : Surveys store settings job identity pods cluster t u) :
    u = cluster.addAll (Pass.children job identity settings.servicePort) ∧
      (∀ kind ∈ childKinds job, Readable cluster kind identity.namespace identity.name) ∧
      Listable cluster identity.namespace job ∧
      pods = ownedPods cluster identity.namespace job := by
  have hread := readable_of_run_syncChildren hpath h.children
  obtain rfl : cluster.addAll (Pass.children job identity settings.servicePort) = t :=
    congrArg Prod.snd ((run_syncChildren hpath hread).symm.trans h.children)
  obtain ⟨-, rfl, hlistable, rfl⟩ :=
    (store_listPods_iff (Identity.ofJob_eq_ok.1 h.identified).1).1 h.lists
  exact ⟨rfl, hread, (listable_congr fun _ hkey => get?_addAll_children hkey).2 hlistable,
    (ownedPods_congr fun _ hkey => get?_addAll_children hkey).symm⟩

/-! ### The next pass -/

/-- The cluster that a pass leaves that stops a job, up to the status of the job. -/
def halted (settings : PassSettings) (job : Job) (identity : Identity) (cluster : Cluster) :
    Cluster :=
  (cluster.addAll (children job identity settings.servicePort)).eraseAll
    (deletedKeys identity (ownedPods cluster identity.namespace job))

theorem get?_halted (settings : PassSettings) (job : Job) (identity : Identity) (cluster : Cluster)
    (key : ObjectKey) : (halted settings job identity cluster).get? key =
      if key ∈ deletedKeys identity (ownedPods cluster identity.namespace job) then none
      else (cluster.addAll (children job identity settings.servicePort)).get? key :=
  Cluster.get?_eraseAll _ _ key

theorem get?_key_halted : (halted settings job identity cluster).get? identity.key =
    cluster.get? identity.key := by
  have hjobs : ∀ e ∈ children job identity settings.servicePort, e.1.kind ≠ .job :=
    fun e he => (childKinds_ne (kind_of_mem_children he)).1
  have hnot : identity.key ∉ deletedKeys identity
      (ownedPods cluster identity.namespace job) := by
    intro hmem
    obtain ⟨_, -, -, heq⟩ := mem_deletedKeys.1 hmem
    cases heq
  rw [get?_halted, if_neg hnot, get?_job_addAll hjobs rfl]

theorem surveys_halted (settings : PassSettings)
    (hhomed : ∀ key : ObjectKey, key.kind = .pod → cluster.Homed key)
    (hid : Identity.ofJob job = .ok identity)
    (hpath : hasPath identity.namespace identity.name = true)
    (hread : ∀ kind ∈ childKinds job, Readable cluster kind identity.namespace identity.name)
    (hlistable : Listable cluster identity.namespace job) :
    ∃ t, Surveys store settings job identity
      ((ownedPods cluster identity.namespace job).filter fun pod => !swept identity pod)
      (halted settings job identity cluster) t t := by
  have hpods (key : ObjectKey) (hkey : key.kind = .pod) :
      ((halted settings job identity cluster).addAll
        (children job identity settings.servicePort)).get? key =
          (cluster.eraseAll (deletedKeys identity
            (ownedPods cluster identity.namespace job))).get? key := by
    rw [← get?_addAll_children hkey, get?_halted, Cluster.get?_eraseAll,
      ← get?_addAll_children hkey]
  have hread' : ∀ kind ∈ childKinds job, Readable (halted settings job identity cluster) kind
      identity.namespace identity.name := by
    intro kind hkind doc hdoc
    rw [get?_halted] at hdoc
    split at hdoc
    · cases hdoc
    rw [Cluster.get?_addAll] at hdoc
    cases hstart : cluster.get? ⟨kind, identity.namespace, identity.name⟩ with
    | some doc' =>
      rw [hstart] at hdoc
      cases hdoc
      exact hread kind hkind doc hstart
    | none =>
      rw [hstart, Option.none_or] at hdoc
      have hmem : (⟨kind, identity.namespace, identity.name⟩, doc) ∈
          creations settings job identity [] :=
        List.mem_append_left _ (Cluster.mem_of_firstOf hdoc)
      exact decode_of_mem_creations hmem
  obtain ⟨hns, -, -⟩ := Identity.ofJob_eq_ok.1 hid
  refine ⟨_, hid, run_syncChildren hpath hread', (store_listPods_iff hns).2
    ⟨hasPath_ns hpath, rfl, fun key doc hdoc hlisted => ?_, ?_⟩⟩
  · rw [hpods key (kind_of_isListed hlisted), Cluster.get?_eraseAll] at hdoc
    split at hdoc
    · cases hdoc
    · exact hlistable key doc hdoc hlisted
  · rw [ownedPods_congr hpods, ownedPods_eraseAll hhomed]

/-- A pass that sees a pod ask for the job to stop completes the job: it writes what it has counted,
and the job then has these numbers. -/
theorem run_program_of_asks (hnow : now.Valid) {members : List (String × Json)} {t u : Cluster}
    {first : Pod} (hstored : cluster.get? identity.key = some (.obj members))
    (hdoc : (Json.obj members).unrepeated = .obj members)
    (hreads : Job.codec.decode (.obj members) = .ok job) (hunfinished : job.state ≠ .complete)
    (hpath : hasPath identity.namespace identity.name = true)
    (hsurveys : Surveys store settings job identity pods cluster t u)
    (hasks : pods.find? Pod.requestsStop = some first) :
    ∃ deletions verdicts computed stored, Finalizes identity pods deletions verdicts ∧
      (∀ d ∈ deletions, d.Refused identity) ∧
      computed.roleStatuses = tally (noNumbers job) verdicts ∧
      let pass := program settings now identity.namespace identity.name
      (pass.run store cluster).1 = .ok (.completed first.name) ∧
      ⟨.writeStatus (job.withStatus computed), .ok ()⟩ ∈ pass.history store cluster ∧
      (pass.run store cluster).2.job? identity.namespace identity.name =
        some (job.withStatus stored) ∧
      ∀ r numbers, computed.roleStatuses.get? r = some numbers →
        stored.roleStatuses.get? r = some numbers := by
  obtain ⟨deletions, verdicts, v, hfinalizes, hfinalize, hhistory⟩ :=
    run_finalize store identity pods (noNumbers job) u
  let computed : JobStatus := { begin now job.statusOrEmpty with
    roleStatuses := tally (noNumbers job) verdicts, completionTime := some now }
  have hprepare := run_prepare_of_asks now hsurveys hasks hfinalize
  have hupdates : Updates now job (.stopped first.name, computed) :=
    ⟨rfl, rfl, nofun, fun _ _ => rfl⟩
  have hbegins : Begins store identity.namespace identity.name job cluster cluster :=
    ⟨store_get.2 ⟨hpath, rfl, .inr ⟨_, job, hstored, hreads, rfl⟩⟩, hunfinished⟩
  -- up to the write, the job is as it was
  have hkept : v.get? identity.key = some (.obj members) := by
    have hprepared : ((prepare settings now job).run store cluster).2.get? identity.key =
        cluster.get? identity.key := get?_of_run_prepare settings now job cluster rfl
    rwa [hprepare, hstored] at hprepared
  obtain ⟨stored, hdecode, -⟩ := decode_of_updates hnow hreads hunfinished hupdates
  obtain ⟨hwritten, hwrites⟩ := store_writeStatus_of_ofJob hsurveys.identified hpath hkept computed
  have hwrite : (store (.writeStatus (job.withStatus computed)) v).1 = .ok () :=
    hwrites.2 ⟨_, hdecode⟩
  have hrun : (program settings now identity.namespace identity.name).run store cluster =
      (.ok (.completed first.name), (store (.writeStatus (job.withStatus computed)) v).2) := by
    rw [run_program_of_begins settings now hbegins, ofJob_eq, Program.run_bind_of_ok hprepare,
      run_persist, hwrite]
    rfl
  refine ⟨deletions, verdicts, computed, stored, hfinalizes, refused_of_history hhistory, rfl,
    congrArg Prod.fst hrun, ?_, ?_, fun r numbers hr => ?_⟩
  · rw [history_program settings now hbegins, history_ofJob hprepare, ← hwrite]
    simp [computed]
  · rw [hrun, hwritten]
    exact Cluster.job?_eq_some.2 ⟨_, SortedMap.get?_insert_self _ _ _, hdecode⟩
  · have hopen := Job.state_ne_complete_iff.1 hunfinished
    exact Job.get?_of_statusPatch hreads hdoc
      (stamped_of_updates hnow (Job.timed_of_decode hreads) hopen hupdates) hdecode hr

/-! ### Both passes -/

/-- What a pass has done whose faults strike late, and whose status is not written: it has deleted the
pods that it could, and what it computed are their numbers and those of the pods that had ended. -/
theorem halted_of_late (hfaults : ∀ f ∈ server.faults, f.StrikesLate)
    (hhomed : server.cluster.Homed ⟨.job, ns, name⟩) {doc : Json}
    (hstored : server.cluster.get? ⟨.job, ns, name⟩ = some doc)
    (hreads : Job.codec.decode doc = .ok job) {first : Pod}
    (hasks : (ownedPods server.cluster ns job).find? Pod.requestsStop = some first)
    {computed : JobStatus} {answer : Except StoreError Unit}
    (hwritten : ⟨.writeStatus (job.withStatus computed), answer⟩ ∈
      (program settings now ns name).history serverStore server)
    (hkept : ((program settings now ns name).run serverStore server).2.cluster.get?
      ⟨.job, ns, name⟩ = some doc) :
    ∃ identity deletions verdicts, identity.key = ⟨.job, ns, name⟩ ∧
      Identity.ofJob job = .ok identity ∧ hasPath ns name = true ∧ job.state ≠ .complete ∧
      (∀ kind ∈ childKinds job, Readable server.cluster kind ns name) ∧
      Listable server.cluster ns job ∧
      ((program settings now ns name).run serverStore server).2.cluster =
        halted settings job identity server.cluster ∧
      Finalizes identity (ownedPods server.cluster ns job) deletions verdicts ∧
      (∀ d ∈ deletions, d.Refused identity) ∧
      deletions.map (·.answered identity) <:+:
        (program settings now ns name).history serverStore server ∧
      computed.roleStatuses = tally (noNumbers job) verdicts := by
  obtain ⟨job', result, t, u, hbegins, hprepare, heq, -⟩ := of_mem_history_writeStatus hwritten
  obtain ⟨hlate, hfound, -⟩ := hbegins.of_late hfaults
  obtain ⟨hpath, hsame, ⟨hnone, -⟩ | ⟨doc', job'', hdoc', hreads', hfound'⟩⟩ := store_get.1 hfound
  · cases hnone
  cases hfound'
  obtain rfl : doc = doc' := Option.some.inj (hstored.symm.trans hdoc')
  obtain rfl : job = job' := Except.ok.inj (hreads.symm.trans hreads')
  obtain rfl : computed = result.2 := Option.some.inj (congrArg Job.status heq)
  obtain ⟨identity, pods, v, w, hsurveys, hcases⟩ := run_prepare_cases hprepare
  obtain ⟨hns, hname⟩ := hhomed doc job hstored hreads
  have hid := hsurveys.identified
  obtain rfl : ns = identity.namespace :=
    Option.some.inj (hns.symm.trans (Identity.ofJob_eq_ok.1 hid).1)
  obtain rfl : name = identity.name := (show job.name = name from hname) ▸ Identity.name_of_ofJob hid
  obtain ⟨hlate', hplain⟩ := hsurveys.of_late hlate
  obtain ⟨hadded, hread, hlistable, rfl⟩ := hplain.of_store hpath
  rw [hsame] at hadded hread hlistable hcases hsurveys
  rcases hcases with ⟨hquiet, -⟩ | ⟨first', -, hstops, hfinalize⟩
  · rw [hquiet] at hasks
    cases hasks
  obtain ⟨deletions, verdicts, s', hfinalizes, htally, hhistory⟩ := run_finalize serverStore identity
    (ownedPods server.cluster identity.namespace job) (noNumbers job) w
  have hnumbers : result.2.roleStatuses = tally (noNumbers job) verdicts :=
    Except.ok.inj (congrArg Prod.fst (hfinalize.symm.trans htally))
  have hdeleted : u.cluster = halted settings job identity server.cluster := by
    have hleft := cluster_finalize_of_late hlate' identity
      (ownedPods server.cluster identity.namespace job) (noNumbers job)
    rwa [hfinalize, hadded] at hleft
  refine ⟨identity, deletions, verdicts, rfl, hid, hpath, hbegins.unfinished, hread, hlistable, ?_,
    hfinalizes, refused_of_history hhistory, ?_, hnumbers⟩
  · rw [run_program_of_begins settings now hbegins, ofJob_eq, Program.run_bind_of_ok hprepare,
      run_persist] at hkept ⊢
    have hcall : (Call.writeStatus (job.withStatus result.2)).key? = some identity.key := by
      rw [Call.key?, show (job.withStatus result.2).metadata.namespace = _ from hns,
        show (job.withStatus result.2).name = _ from hname]
      rfl
    have hunwritten : u.cluster.get? identity.key = some doc := by
      rw [hdeleted, get?_key_halted]
      exact hstored
    exact (serverStore_eq_of_get? hcall (hkept.trans hunwritten.symm)).trans hdeleted
  · rw [← hhistory]
    exact (hsurveys.stops now hasks hfinalize).history_finalize hbegins hprepare

end Pass

namespace Sample

/-- The status of the small job when it was stopped at once. -/
def stoppedAt (time : Instant) (completed : Int32) : JobStatus :=
  { startTime := some time, completionTime := some time, lastReconcileTime := some time
    roleStatuses := SortedMap.ofList [("worker", { completed })] }

end Sample

namespace Pass

theorem written_unwritten :
    ((program {} Sample.now "default" "train").history serverStore Sample.unwritten)[7]? =
      some ⟨.writeStatus (Sample.job.withStatus (Sample.stoppedAt Sample.now 2)),
        .error (.client .job "train" .connection)⟩ := by
  rfl

/-- A pass that stops a job deletes its pods before it writes the status. When that write fails, the
next pass stops the job again, but it writes the numbers of the first pass without those of the pods
that this one has deleted. -/
theorem retry_recounts (settings : PassSettings) (now : Instant) {now' : Instant}
    {ns name : String} {server : Server} {job : Job} {computed : JobStatus} {cause : StoreError}
    (hfaults : ∀ f ∈ server.faults, f.StrikesLate) (hnow' : now'.Valid)
    (hjob : server.cluster.Homed ⟨.job, ns, name⟩)
    (hpods : ∀ key : ObjectKey, key.kind = .pod → server.cluster.Homed key)
    {members : List (String × Json)}
    (hstored : server.cluster.get? ⟨.job, ns, name⟩ = some (.obj members))
    (hdoc : (Json.obj members).unrepeated = .obj members)
    (hreads : Job.codec.decode (.obj members) = .ok job)
    (hasks : ∃ pod ∈ ownedPods server.cluster ns job, pod.requestsStop = true)
    (hwritten : ⟨.writeStatus (job.withStatus computed), .error cause⟩ ∈
      (program settings now ns name).history serverStore server)
    (hkept : ((program settings now ns name).run serverStore server).2.cluster.get?
      ⟨.job, ns, name⟩ = some (.obj members)) :
    let after := ((program settings now ns name).run serverStore server).2.cluster
    let next := program settings now' ns name
    ∃ (identity : Identity) (asking : Pod) (deletions : List Deletion) (computed' stored : JobStatus),
      Identity.ofJob job = .ok identity ∧
      (ownedPods server.cluster ns job).find? Pod.requestsStop = some asking ∧
      deletions.map (·.pod) = (ownedPods server.cluster ns job).filter (outlives identity) ∧
      deletions.map (·.answered identity) <:+:
        (program settings now ns name).history serverStore server ∧
      (next.run store after).1 = .ok (.completed asking.name) ∧
      ⟨.writeStatus (job.withStatus computed'), .ok ()⟩ ∈ next.history store after ∧
      (next.run store after).2.job? ns name = some (job.withStatus stored) ∧
      (∀ r numbers, computed'.roleStatuses.get? r = some numbers →
        stored.roleStatuses.get? r = some numbers) ∧
      ∀ r c, computed.number r c = computed'.number r c +
        Int32.ofNat (deletions.countP fun d => (d.pod.hasRole name r && d.counter == c) &&
          hasPath ns d.pod.name) := by
  intro after next
  obtain ⟨asking, hasking⟩ := Option.isSome_iff_exists.1 (List.find?_isSome.2 hasks)
  obtain ⟨identity, deletions, verdicts, hkey, hid, hpath, hunfinished, hread, hlistable, hhalted,
    hfinalizes, hrefused, hhistory, hcomputed⟩ :=
      halted_of_late hfaults hjob hstored hreads hasking hwritten hkept
  obtain ⟨rfl, rfl⟩ : identity.namespace = ns ∧ identity.name = name := by
    cases hkey
    exact ⟨rfl, rfl⟩
  obtain ⟨t, hsurveys⟩ := surveys_halted settings hpods hid hpath hread hlistable
  have hasking' := (find?_left identity (ownedPods server.cluster identity.namespace job)).trans hasking
  rw [hhalted] at hkept
  obtain ⟨deletions', verdicts', computed', stored, hfinalizes', hrefused', hcomputed', hresult,
    hwrites, hjob', hnumbers⟩ :=
      run_program_of_asks hnow' hkept hdoc hreads hunfinished hpath hsurveys hasking'
  rw [← hhalted] at hresult hwrites hjob'
  refine ⟨identity, asking, deletions, computed', stored, hid, hasking, hfinalizes.pods_eq, hhistory,
    hresult, hwrites, hjob', hnumbers, fun r c => ?_⟩
  rw [JobStatus.number, JobStatus.number, hcomputed, hcomputed', number_getD_tally,
    number_getD_tally, hfinalizes.count_left hfinalizes' hrefused hrefused' r c, Int32.ofNat_add]

/-- After the pod that ran was deleted and the status was not written, the next pass counts without
that pod. -/
theorem retry_recounts_halting :
    ∃ (deletions : List Deletion) (computed' : JobStatus),
      deletions.map (·.pod.name) = ["train-worker-0"] ∧
      ((program {} Sample.later "default" "train").run store
          ((program {} Sample.now "default" "train").run serverStore
            Sample.unwritten).2.cluster).1 = .ok (.completed "train-worker-1") ∧
      ∀ r c, (Sample.stoppedAt Sample.now 2).number r c = computed'.number r c +
        Int32.ofNat (deletions.countP fun d => (d.pod.hasRole "train" r && d.counter == c) &&
          hasPath "default" d.pod.name) := by
  have hlate : ∀ f ∈ Sample.unwritten.faults, f.StrikesLate := by decide
  have hasks : ∃ pod ∈ ownedPods Sample.unwritten.cluster "default" Sample.job,
      pod.requestsStop = true := by
    decide +kernel
  have hstored : Sample.unwritten.cluster.get? ⟨.job, "default", "train"⟩ = some Sample.document := by
    decide +kernel
  have hkept : ((program {} Sample.now "default" "train").run serverStore
      Sample.unwritten).2.cluster.get? ⟨.job, "default", "train"⟩ = some Sample.document := by
    decide +kernel
  have hdoc : Sample.document.unrepeated = Sample.document := by decide +kernel
  have hreads := Sample.decode_document
  obtain ⟨members, hmembers⟩ : ∃ members, Sample.document = .obj members := ⟨_, rfl⟩
  rw [hmembers] at hstored hkept hdoc hreads
  obtain ⟨identity, asking, deletions, computed', stored, hid, hasking, hdeleted, -, hresult, -, -,
    -, hnumbers⟩ := retry_recounts {} Sample.now hlate Sample.valid_later (Sample.homed_halting _)
      (fun key _ => Sample.homed_halting key) hstored hdoc hreads hasks
      (List.mem_of_getElem? written_unwritten) hkept
  obtain rfl : ⟨"train", "default", "u1"⟩ = identity := Except.ok.inj hid
  have hname : ((ownedPods Sample.unwritten.cluster "default" Sample.job).find?
      Pod.requestsStop).map Pod.name = some "train-worker-1" := by
    decide +kernel
  have hnames : ((ownedPods Sample.unwritten.cluster "default" Sample.job).filter
      (outlives ⟨"train", "default", "u1"⟩)).map Pod.name = ["train-worker-0"] := by
    decide +kernel
  rw [hasking] at hname
  refine ⟨deletions, computed', ?_, ?_, hnumbers⟩
  · rw [← hnames, ← hdeleted, List.map_map]
    rfl
  · rw [hresult, Option.some.inj hname]

/-- The first pass has counted both pods as completed, and the next one writes that one was. -/
theorem recounts_fewer :
    let first := program {} Sample.now "default" "train"
    let next := program {} Sample.later "default" "train"
    let after := (first.run serverStore Sample.unwritten).2.cluster
    let completed (calls : List Call) : Option Int32 :=
      (calls.getLast?.bind Call.written?).map (·.number "worker" .completed)
    (first.run serverStore Sample.unwritten).1 =
        .error (.persistStatus (.client .job "train" .connection)) ∧
      after.get? Sample.key = some Sample.document ∧
      (next.run store after).1 = .ok (.completed "train-worker-1") ∧
      completed (first.calls serverStore Sample.unwritten) = some 2 ∧
      completed (next.calls store after) = some 1 := by
  decide +kernel

end Pass

end JobOperator
