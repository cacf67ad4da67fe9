import JobOperator.Proofs.Pass.Schedule
import JobOperator.Proofs.Pass.StopRequest

/-!
The pods that passes have created, when the job stops. Each was named after a role and an index; as
its role is read off its name again, whatever the roles of the job are by then, it is counted once,
for that role, and deleted once if it has not ended.
-/

namespace JobOperator

open Client

namespace Pass

variable {settings : PassSettings} {now : Instant} {ns name : String} {job : Job}
  {identity : Identity} {pods : List Pod} {pod : Pod} {role : String}

/-! ### Names of replicas -/

/-- Whatever the store, a pod that a pass creates is a replica of a role of the job. -/
theorem replica_of_mem_history {σ : Type} {handler : Handler σ} {s : σ} {space : String}
    {object : Pod} {answer : Except StoreError Pod}
    (h : ⟨.create .pod space object, answer⟩ ∈ (program settings now ns name).history handler s) :
    ∃ job identity t role definition index, Begins handler ns name job s t ∧
      Identity.ofJob job = .ok identity ∧ job.spec.roles.get? role = some definition ∧
      index < definition.desiredReplicas ∧ space = identity.namespace ∧
      object.name = replicaName identity.name role index := by
  generalize ha : (⟨.create .pod space object, answer⟩ : Answered) = a at h
  cases stage_of_mem_history h with
  | load => cases congrArg Answered.call ha
  | child _ _ hchild =>
    subst ha
    have hprovides := (within_syncChildren fun _ he => he).history hchild
    exact absurd rfl (childKinds_ne (key?_of_provides hprovides rfl)).2
  | list => cases congrArg Answered.call ha
  | @creation job identity pods t _ _ _ hbegins hsurveys _ hcreation =>
    subst ha
    have hwanted := (within_syncRoles fun _ he => he).history hcreation
    obtain ⟨role, definition, index, pod, hrole, hindex, -, hpod, hentry⟩ :=
      mem_missingPods.1 hwanted
    have hkey := (congrArg Prod.fst hentry).trans (key_of_replica hsurveys.identified hpod)
    obtain ⟨-, hspace, hname⟩ := ObjectKey.mk.inj hkey
    exact ⟨job, identity, t, role, definition, index, hbegins, hsurveys.identified, hrole, hindex,
      hspace, hname⟩
  | deletion _ _ _ hdeletion =>
    subst ha
    obtain ⟨pod, -, -, hdelete⟩ := sweeps_finalize.history hdeletion
    cases hdelete
  | status => cases congrArg Answered.call ha

/-- Where a job is kept under its own name, a pass goes on under that name. -/
theorem Begins.identity_eq {server t : Server} (hfaults : Failing server.faults)
    (hhomed : server.cluster.Homed ⟨.job, ns, name⟩)
    (h : Begins serverStore ns name job server t) (hid : Identity.ofJob job = .ok identity) :
    identity.namespace = ns ∧ identity.name = name := by
  obtain ⟨hspace, hname⟩ := hhomed.of_job? (h.job?_eq hfaults)
  obtain ⟨hns, -, -⟩ := Identity.ofJob_eq_ok.1 hid
  refine ⟨Option.some.inj (hns.symm.trans hspace), ?_⟩
  rw [← Identity.name_of_ofJob hid, hname]

theorem filter_name_eq (hnames : pods.Pairwise fun a b => a.name < b.name) (hpod : pod ∈ pods) :
    pods.filter (·.name == pod.name) = [pod] := by
  obtain ⟨before, after, rfl⟩ := List.append_of_mem hpod
  obtain ⟨-, hafter, hbefore⟩ := List.pairwise_append.1 hnames
  have hearlier : before.filter (·.name == pod.name) = [] := by
    refine List.filter_eq_nil_iff.2 fun other hother heq => ?_
    have hlt := hbefore other hother pod List.mem_cons_self
    rw [eq_of_beq heq] at hlt
    exact String.lt_irrefl _ hlt
  have hlater : after.filter (·.name == pod.name) = [] := by
    refine List.filter_eq_nil_iff.2 fun other hother heq => ?_
    have hlt := (List.pairwise_cons.1 hafter).1 other hother
    rw [eq_of_beq heq] at hlt
    exact String.lt_irrefl _ hlt
  have hself : (pod.name == pod.name) = true := beq_self_eq_true _
  rw [List.filter_append, hearlier, List.filter_cons, if_pos hself, hlater, List.nil_append]

/-! ### The ledger -/

/-- What is counted of the pods of a job that stops: each that belongs to a role, once and in their
order, for that role, and none as running. -/
structure Ledger (job : String) (pods : List Pod) (entries : List (Pod × String × Counter)) :
    Prop where
  pods : entries.map (·.1) = pods.filter fun pod => (Names.role? job pod.name).isSome
  roles : ∀ e ∈ entries, Names.role? job e.1.name = some e.2.1
  ended : ∀ e ∈ entries, e.2.2 = .completed ∨ e.2.2 = .failed

theorem Ledger.cons {entries : List (Pod × String × Counter)} {counter : Counter}
    (h : Ledger name pods entries) (hrole : Names.role? name pod.name = some role)
    (hcounter : counter ≠ .running) :
    Ledger name (pod :: pods) ((pod, role, counter) :: entries) := by
  have hbelongs := Option.isSome_of_eq_some hrole
  constructor
  · rw [List.map_cons, h.pods, List.filter_cons, if_pos hbelongs]
  · intro e he
    rcases List.mem_cons.1 he with rfl | he
    · exact hrole
    · exact h.roles e he
  · intro e he
    rcases List.mem_cons.1 he with rfl | he
    · cases counter with
      | running => exact absurd rfl hcounter
      | completed => exact .inl rfl
      | failed => exact .inr rfl
    · exact h.ended e he

theorem Finalizes.ledger {deletions : List Deletion} {verdicts : List (String × Counter)}
    (h : Finalizes identity pods deletions verdicts) :
    ∃ entries, Ledger identity.name pods entries ∧ entries.map (·.2) = verdicts := by
  induction h with
  | nil =>
    have hnone (e : Pod × String × Counter) : e ∉ [] := List.not_mem_nil
    exact ⟨[], ⟨rfl, fun e he => absurd he (hnone e), fun e he => absurd he (hnone e)⟩, rfl⟩
  | @foreign pod _ _ _ hrole _ ih =>
    obtain ⟨entries, hentries, hverdicts⟩ := ih
    have hstray : ¬ (Names.role? identity.name pod.name).isSome = true := by
      rw [hrole]
      exact Bool.false_ne_true
    refine ⟨entries, ⟨?_, hentries.roles, hentries.ended⟩, hverdicts⟩
    rw [hentries.pods, List.filter_cons, if_neg hstray]
  | @ended pod _ _ _ role code hrole _ _ ih =>
    obtain ⟨entries, hentries, hverdicts⟩ := ih
    refine ⟨_, hentries.cons hrole (Counter.ofExitCode_ne_running code), ?_⟩
    rw [List.map_cons, hverdicts]
  | @deleted pod _ _ _ role answer hrole _ _ ih =>
    obtain ⟨entries, hentries, hverdicts⟩ := ih
    have hcounter : Deletion.counter ⟨pod, answer⟩ ≠ .running := by
      unfold Deletion.counter
      split <;> nofun
    refine ⟨_, hentries.cons hrole hcounter, ?_⟩
    rw [List.map_cons, hverdicts]

theorem Ledger.filter_name {entries : List (Pod × String × Counter)} (h : Ledger name pods entries)
    (hnames : pods.Pairwise fun a b => a.name < b.name) (hpod : pod ∈ pods)
    (hrole : Names.role? name pod.name = some role) :
    ∃ counter, entries.filter (·.1.name == pod.name) = [(pod, role, counter)] ∧
      (counter = .completed ∨ counter = .failed) := by
  have hbelongs := Option.isSome_of_eq_some hrole
  have hone : (entries.filter (·.1.name == pod.name)).map (·.1) = [pod] := by
    have hmap : (entries.map (·.1)).filter (·.name == pod.name) =
        (entries.filter (·.1.name == pod.name)).map (·.1) := List.filter_map
    have hcomm (p q : Pod → Bool) : (pods.filter p).filter q = (pods.filter q).filter p := by
      simp only [List.filter_filter, Bool.and_comm]
    rw [← hmap, h.pods, hcomm, filter_name_eq hnames hpod, List.filter_cons, if_pos hbelongs,
      List.filter_nil]
  obtain ⟨⟨found, foundRole, counter⟩, hentry, hfound⟩ := List.map_eq_singleton_iff.1 hone
  obtain rfl : found = pod := hfound
  have hmem : (found, foundRole, counter) ∈ entries := by
    have hkept := List.mem_singleton_self (found, foundRole, counter)
    rw [← hentry] at hkept
    exact (List.mem_filter.1 hkept).1
  obtain rfl : foundRole = role := Option.some.inj ((h.roles _ hmem).symm.trans hrole)
  exact ⟨counter, hentry, h.ended _ hmem⟩

/-! ### Deletions -/

theorem filterMap_request?_of_verb {calls : List Call} (h : ∀ c ∈ calls, c.verb ≠ .delete) :
    (calls.filterMap request?).filter (·.verb == .delete) = [] := by
  refine List.filter_eq_nil_iff.2 fun request hrequest hverb => ?_
  obtain ⟨c, hc, hasks⟩ := List.mem_filterMap.1 hrequest
  exact h c hc ((verb_eq_of_request? hasks).symm.trans (eq_of_beq hverb))

theorem Finalizes.requests {deletions : List Deletion} {verdicts : List (String × Counter)}
    (h : Finalizes identity pods deletions verdicts) :
    ((deletions.map (·.answered identity)).map (·.call)).filterMap request? =
      deletionRequests identity pods := by
  rw [deletionRequests, ← h.pods_eq, List.map_map]
  clear h
  induction deletions with
  | nil => rfl
  | cons deletion rest ih =>
    have hasks : request? (deletion.answered identity).call =
        if hasPath identity.namespace deletion.pod.name then
          some (.delete ⟨.pod, identity.namespace, deletion.pod.name⟩) else none := rfl
    rw [List.map_cons, List.map_cons, List.filter_cons, Function.comp_apply]
    cases hpath : hasPath identity.namespace deletion.pod.name with
    | true =>
      rw [hpath, if_pos rfl] at hasks
      rw [List.filterMap_cons_some hasks, if_pos rfl, List.map_cons, ih]
    | false =>
      rw [hpath, if_neg Bool.false_ne_true] at hasks
      rw [List.filterMap_cons_none hasks, if_neg Bool.false_ne_true, ih]

/-- A pass that stops a job deletes the pods that have a role and have not ended, and no others. -/
theorem Stops.deletions {server s t u v : Server} {first : Pod} {status : JobStatus}
    {result : PodsOutcome × JobStatus} (hbegins : Begins serverStore ns name job server s)
    (hprepare : (prepare settings now job).run serverStore s = (.ok result, v))
    (h : Stops serverStore settings now job identity pods first s t u v status) :
    (((program settings now ns name).calls serverStore server).filterMap request?).filter
      (·.verb == .delete) = deletionRequests identity pods := by
  obtain ⟨deletions, verdicts, _, hfinalizes, -, hhistory⟩ :=
    run_finalize serverStore identity pods (noNumbers job) u
  have hload : ∀ c ∈ [Call.get .job ns name], c.verb ≠ .delete := by simp [Call.verb]
  have hlist : ∀ c ∈ [Call.listPods job], c.verb ≠ .delete := by simp [Call.verb]
  have hwrite : ∀ c ∈ [Call.writeStatus (job.withStatus result.2)], c.verb ≠ .delete := by
    simp [Call.verb]
  have hchildren : ∀ c ∈ ((syncChildren job identity settings.servicePort).history serverStore
      s).map (·.call), c.verb ≠ .delete := by
    intro c hc
    obtain ⟨a, ha, rfl⟩ := List.mem_map.1 hc
    rcases verb_of_provides ((within_syncChildren fun _ he => he).history ha) with hverb | hverb
    · rw [hverb]
      decide
    · rw [hverb]
      decide
  have hdeletions : (deletionRequests identity pods).filter (·.verb == .delete) =
      deletionRequests identity pods := by
    refine List.filter_eq_self.2 fun request hrequest => ?_
    obtain ⟨pod, -, rfl⟩ := List.mem_map.1 hrequest
    rfl
  have hcalls : (program settings now ns name).calls serverStore server =
      [.get .job ns name] ++ (((syncChildren job identity settings.servicePort).history serverStore
        s).map (·.call) ++ ([.listPods job] ++ ((deletions.map (·.answered identity)).map (·.call) ++
          [.writeStatus (job.withStatus result.2)]))) := by
    rw [← Program.map_call_history, history_program settings now hbegins, history_ofJob hprepare,
      h.history, hhistory]
    simp
  rw [hcalls]
  simp only [List.filterMap_append, List.filter_append, filterMap_request?_of_verb hload,
    filterMap_request?_of_verb hchildren, filterMap_request?_of_verb hlist,
    filterMap_request?_of_verb hwrite, hfinalizes.requests, hdeletions, List.nil_append,
    List.append_nil]

theorem count_deletionRequests (hnames : pods.Pairwise fun a b => a.name < b.name)
    (hpod : pod ∈ pods) : (deletionRequests identity pods).count
      (.delete ⟨.pod, identity.namespace, pod.name⟩) = if swept identity pod then 1 else 0 := by
  have hsame (other : Pod) :
      ((Request.delete ⟨.pod, identity.namespace, other.name⟩ ==
        Request.delete ⟨.pod, identity.namespace, pod.name⟩) = (other.name == pod.name)) := by
    rw [Bool.eq_iff_iff]
    simp
  have hswept : (deletionRequests identity pods).count
      (.delete ⟨.pod, identity.namespace, pod.name⟩) =
        ((pods.filter (·.name == pod.name)).filter (swept identity)).length := by
    rw [deletionRequests, List.count, List.countP_map, List.filter_filter, List.countP_filter,
      List.filter_filter, ← List.countP_eq_length_filter]
    refine List.countP_congr fun other _ => ?_
    simp only [Function.comp_apply, hsame, swept]
    cases other.name == pod.name <;> cases outlives identity other <;> simp
  rw [hswept, filter_name_eq hnames hpod, List.filter_cons]
  split <;> rfl

/-! ### Accounts -/

/-- How a pass that stops a job accounts for a pod: in the status that it writes, the pod is counted
once, for its role, as completed or as failed; and the pod is deleted once unless its first container
has ended, if there is a path for it. -/
structure Accounted (ns name : String) (job : Job) (pods : List Pod) (pod : Pod) (role : String)
    (history : List Answered) (requests : List Request) : Prop where
  counted : ∃ status answer entries counter,
    ⟨.writeStatus (job.withStatus status), answer⟩ ∈ history ∧ Ledger name pods entries ∧
      status.roleStatuses = tally (noNumbers job) (entries.map (·.2)) ∧
      entries.filter (·.1.name == pod.name) = [(pod, role, counter)] ∧
      (counter = .completed ∨ counter = .failed)
  deleted : requests.count (.delete ⟨.pod, ns, pod.name⟩) =
    if pod.exitCode?.isNone && hasPath ns pod.name then 1 else 0

/-- A pass that stops a job accounts for each pod of a role. -/
theorem accounted_of_stops {cluster : Cluster} {faults : List Fault} (hfaults : Failing faults)
    (hhomed : cluster.Homed ⟨.job, ns, name⟩)
    (hpods : ∀ key : ObjectKey, key.kind = .pod → cluster.Homed key)
    (hlist : ⟨.listPods job, .ok pods⟩ ∈
      (program settings now ns name).history serverStore { cluster, faults })
    (hstop : ∃ pod ∈ pods, pod.requestsStop = true) (hpod : pod ∈ pods)
    (hrole : Names.role? name pod.name = some role) :
    Accounted ns name job pods pod role
      ((program settings now ns name).history serverStore { cluster, faults })
      (((program settings now ns name).run serverStore { cluster, faults }).2.log.map
        (·.request)) := by
  obtain ⟨identity, t, u, hbegins, hid, hchildren, hanswer⟩ := of_mem_history_listPods hlist
  obtain ⟨rfl, rfl⟩ := hbegins.identity_eq hfaults hhomed hid
  have hsurveys : Surveys serverStore settings job identity pods t u
      (serverStore (.listPods job) u).2 := ⟨hid, hchildren, Prod.ext hanswer rfl⟩
  have hnames : pods.Pairwise fun a b => a.name < b.name := by
    rw [hsurveys.pods_eq hfaults hbegins]
    exact ownedPods_increasing (Cluster.namesPods_of_homed hpods) _ _
  obtain ⟨first, hasks⟩ := Option.isSome_iff_exists.1 (List.find?_isSome.2 hstop)
  obtain ⟨deletions, verdicts, v, hfinalizes, hrun, -⟩ :=
    run_finalize serverStore identity pods (noNumbers job) (serverStore (.listPods job) u).2
  obtain ⟨status, hstatus, hprepare⟩ : ∃ status : JobStatus,
      status.roleStatuses = tally (noNumbers job) verdicts ∧
      (prepare settings now job).run serverStore t = (.ok (.stopped first.name, status), v) :=
    ⟨_, rfl, run_prepare_of_asks now hsurveys hasks hrun⟩
  rw [← hstatus] at hrun
  have hstops := hsurveys.stops now hasks hrun
  obtain ⟨entries, hledger, rfl⟩ := hfinalizes.ledger
  obtain ⟨counter, hentry, hcounter⟩ := hledger.filter_name hnames hpod hrole
  obtain ⟨answer, hwrites⟩ : ∃ answer, ⟨.writeStatus (job.withStatus status), answer⟩ ∈
      (program settings now identity.namespace identity.name).history serverStore
        { cluster, faults } := by
    rw [history_program settings now hbegins, history_ofJob hprepare]
    exact ⟨_, List.mem_cons_of_mem _ (List.mem_append_right _ List.mem_cons_self)⟩
  constructor
  · exact ⟨status, answer, entries, counter, hwrites, hledger, hstatus, hentry, hcounter⟩
  · have hverb : ((Request.delete ⟨.pod, identity.namespace, pod.name⟩).verb == .delete) = true := rfl
    have hswept : swept identity pod =
        (pod.exitCode?.isNone && hasPath identity.namespace pod.name) := by
      simp [swept, outlives, hrole]
    rw [requests_run, List.map_nil, List.append_nil, List.count_reverse,
      ← List.count_filter (p := (·.verb == .delete)) hverb, hstops.deletions hbegins hprepare,
      count_deletionRequests hnames hpod, hswept]

/-- Each pod that a pass has created was named after a role of the job and an index. When a later pass
stops the job, whatever has happened in between, it accounts for the pod of that name for that role,
unless the role has no name. -/
theorem created_pods_accounted {settings settings' : PassSettings} {now now' : Instant}
    {ns name : String} {earlier later : Cluster} {faults faults' : List Fault}
    (hfaults : Failing faults) (hfaults' : Failing faults')
    (hearlier : earlier.Homed ⟨.job, ns, name⟩) (hlater : later.Homed ⟨.job, ns, name⟩)
    (hpods : ∀ key : ObjectKey, key.kind = .pod → later.Homed key)
    {space : String} {object : Pod} {answer : Except StoreError Pod}
    (hcreates : ⟨.create .pod space object, answer⟩ ∈ (program settings now ns name).history
      serverStore { cluster := earlier, faults })
    {job : Job} {pods : List Pod} (hlist : ⟨.listPods job, .ok pods⟩ ∈
      (program settings' now' ns name).history serverStore { cluster := later, faults := faults' })
    (hstop : ∃ pod ∈ pods, pod.requestsStop = true) :
    ∃ creator role definition index, earlier.job? ns name = some creator ∧
      creator.spec.roles.get? role = some definition ∧ index < definition.desiredReplicas ∧
      space = ns ∧ object.name = Names.pod name role (Int32.ofNat index) ∧
      (role ≠ "" → ∀ pod ∈ pods, pod.name = object.name → Accounted ns name job pods pod role
        ((program settings' now' ns name).history serverStore
          { cluster := later, faults := faults' })
        (((program settings' now' ns name).run serverStore
          { cluster := later, faults := faults' }).2.log.map (·.request))) := by
  obtain ⟨creator, identity, t, role, definition, index, hbegins, hid, hrole, hindex, rfl, hname⟩ :=
    replica_of_mem_history hcreates
  obtain ⟨rfl, rfl⟩ := hbegins.identity_eq hfaults hearlier hid
  refine ⟨creator, role, definition, index, hbegins.job?_eq hfaults, hrole, hindex, rfl, hname, ?_⟩
  intro hnamed pod hpod heq
  have hlt : index < 2 ^ 31 := Nat.lt_trans hindex definition.desiredReplicas_lt
  have hread : Names.role? identity.name pod.name = some role := by
    rw [heq, hname, replicaName, Names.role?_pod hlt, if_neg hnamed]
  exact accounted_of_stops hfaults' hlater hpods hlist hstop hpod hread

theorem listed_halting :
    ((program {} Sample.later "default" "train").history serverStore
      { cluster := Sample.halting })[5]? =
        some ⟨.listPods Sample.job, .ok (ownedPods Sample.halting "default" Sample.job)⟩ := by
  rfl

/-- The first replica of the small job is accounted for when the second one asks for the job to
stop. -/
theorem created_pods_accounted_halting :
    (∃ a ∈ (program {} Sample.now "default" "train").history serverStore
        { cluster := Sample.posted },
      a.call.verb = .post ∧ a.call.key? = some ⟨.pod, "default", "train-worker-0"⟩) ∧
    ∃ pod ∈ ownedPods Sample.halting "default" Sample.job, pod.name = "train-worker-0" ∧
      Accounted "default" "train" Sample.job (ownedPods Sample.halting "default" Sample.job) pod
        "worker"
        ((program {} Sample.later "default" "train").history serverStore
          { cluster := Sample.halting })
        (((program {} Sample.later "default" "train").run serverStore
          { cluster := Sample.halting }).2.log.map (·.request)) := by
  have hposts : ∃ a ∈ (program {} Sample.now "default" "train").history serverStore
      { cluster := Sample.posted },
      a.call.verb = .post ∧ a.call.key? = some ⟨.pod, "default", "train-worker-0"⟩ := by
    decide +kernel
  have hpods : ∃ pod ∈ ownedPods Sample.halting "default" Sample.job,
      pod.name = "train-worker-0" := by
    decide +kernel
  have hstop : ∃ pod ∈ ownedPods Sample.halting "default" Sample.job, pod.requestsStop = true := by
    decide +kernel
  refine ⟨hposts, ?_⟩
  obtain ⟨⟨c, answer⟩, hmem, hpost, hkey⟩ := hposts
  cases c with
  | create kind ns object =>
    obtain ⟨rfl, rfl, hname⟩ := ObjectKey.mk.inj (Option.some.inj hkey)
    obtain ⟨creator, role, definition, index, -, -, hindex, -, hpod, haccounts⟩ :=
      created_pods_accounted failing_nil failing_nil Sample.homed_posted (Sample.homed_halting _)
        (fun key _ => Sample.homed_halting key) hmem (List.mem_of_getElem? listed_halting) hstop
    obtain ⟨pod, hlisted, hcalled⟩ := hpods
    have hsame : pod.name = object.name := hcalled.trans hname.symm
    have hread : Names.role? "train" "train-worker-0" = some "worker" := by decide +kernel
    rw [← hcalled, hsame, hpod,
      Names.role?_pod (Nat.lt_trans hindex definition.desiredReplicas_lt)] at hread
    obtain ⟨hnamed, hrole⟩ := Option.ite_none_left_eq_some.1 hread
    obtain rfl : role = "worker" := Option.some.inj hrole
    exact ⟨pod, hlisted, hcalled, haccounts hnamed pod hlisted hsame⟩
  | _ => cases hpost

end Pass

namespace Sample

/-- A job with a role that has no name, and one that has. -/
def nameless : Json := .obj
  [("metadata", .obj [("name", .str "train"), ("namespace", .str "default"), ("uid", .str "u1")]),
    ("spec", .obj [("roles", .obj [("", .obj []), ("worker", .obj [])])])]

/-- That job with its pods, of which the one with a role's name asks for it to stop. -/
def namelessHalting : Cluster :=
  (stopping.insert ⟨.pod, "default", "train--0"⟩
    (podOf "train--0" (.obj [("phase", .str "Running")]))).insert key nameless

end Sample

namespace Pass

/-- A pod that is created for a role without a name is passed over when the job stops: it runs on, and
the role has no numbers. -/
theorem passes_over_nameless :
    let pass (now : Instant) := program {} now "default" "train"
    let created : Server := { cluster := SortedMap.insert ∅ Sample.key Sample.nameless }
    let stopped : Server := { cluster := Sample.namelessHalting }
    let after := (pass Sample.later).run serverStore stopped
    (∃ a ∈ (pass Sample.now).history serverStore created, a.call.verb = .post ∧
      a.call.key? = some ⟨.pod, "default", "train--0"⟩) ∧
    after.1 = .ok (.completed "train-worker-1") ∧
    "train--0" ∈ (ownedPods stopped.cluster "default" Sample.job).map Pod.name ∧
    (∀ exchange ∈ after.2.log, exchange.request ≠ .delete ⟨.pod, "default", "train--0"⟩) ∧
    (after.2.cluster.job? "default" "train").map (fun job =>
      (job.statusOrEmpty.roleStatuses.get? "", job.statusOrEmpty.roleStatuses.get? "worker")) =
        some (some {}, some { completed := 1 }) := by
  decide +kernel

end Pass

end JobOperator
