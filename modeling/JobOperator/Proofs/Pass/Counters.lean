import JobOperator.Proofs.Pass.Finalization
import JobOperator.Proofs.Pass.Gang
import JobOperator.Proofs.Pass.Homed

/-!
The numbers of a job that goes on. For each of its roles they are the numbers of the replicas that are
listed in the phase of each counter; with the replicas that are listed in another phase, and those that
are not listed and are posted instead, they make up all that the role should have. Pods under any other
name count nowhere.
-/

namespace JobOperator

open Client

namespace Counter

/-- The phase of the pods that are counted as this. -/
def phase : Counter → String
  | running => "Running"
  | completed => "Succeeded"
  | failed => "Failed"

theorem ofPhase?_eq_some {phase : Option String} {c : Counter} :
    ofPhase? phase = some c ↔ phase = some c.phase := by
  constructor
  · intro h
    unfold ofPhase? at h
    split at h
    all_goals cases h
    all_goals rfl
  · rintro rfl
    cases c <;> rfl

end Counter

namespace Pod

/-- Whether a pod is in a phase. -/
def inPhase (phase : String) (pod : Pod) : Bool := pod.phase? == some phase

/-- Whether a pod is in no phase, or in one that is not counted. -/
def uncounted (pod : Pod) : Bool :=
  !(pod.inPhase "Running" || pod.inPhase "Succeeded" || pod.inPhase "Failed")

theorem ofPhase?_beq_some (pod : Pod) (c : Counter) :
    (Counter.ofPhase? pod.phase? == some c) = pod.inPhase c.phase := by
  rw [Bool.eq_iff_iff, beq_iff_eq, Counter.ofPhase?_eq_some, inPhase, beq_iff_eq]

/-- A pod is in one phase at most. -/
theorem phases_add_up (pod : Pod) :
    (if pod.inPhase "Running" then 1 else 0) + (if pod.inPhase "Succeeded" then 1 else 0) +
      (if pod.inPhase "Failed" then 1 else 0) + (if pod.uncounted then 1 else 0) = 1 := by
  unfold uncounted inPhase
  cases hrunning : pod.phase? == some "Running" with
  | true =>
    rw [eq_of_beq hrunning]
    rfl
  | false =>
    cases hsucceeded : pod.phase? == some "Succeeded" with
    | true =>
      rw [eq_of_beq hsucceeded]
      rfl
    | false => cases pod.phase? == some "Failed" <;> rfl

end Pod

namespace Pass

variable {job : Job} {identity : Identity} {images : Images} {now : Instant} {pods : List Pod}
  {exchanges : List Exchange} {role : String} {index n : Nat}

/-! ### What is listed -/

/-- How many of the first `n` replicas of a role are listed as a pod of which `p` holds. -/
def listed (pods : List Pod) (job role : String) (n : Nat) (p : Pod → Bool) : Nat :=
  (List.range n).countP fun i => pods.any fun pod => pod.name == replicaName job role i && p pod

/-- How many of the first `n` replicas of a role are not listed. -/
def missing (pods : List Pod) (job role : String) (n : Nat) : Nat :=
  (List.range n).countP fun i => !pods.any (·.name == replicaName job role i)

/-- Whether numbers of a role that should have `n` replicas are those of its replicas in the phases
that are counted, which leaves those in another phase and those that are not listed. -/
structure Census (pods : List Pod) (job role : String) (n : Nat) (numbers : RoleStatus) : Prop where
  running : numbers.running.toInt = listed pods job role n (·.inPhase "Running")
  completed : numbers.completed.toInt = listed pods job role n (·.inPhase "Succeeded")
  failed : numbers.failed.toInt = listed pods job role n (·.inPhase "Failed")
  whole : numbers.running.toInt + numbers.completed.toInt + numbers.failed.toInt +
    listed pods job role n Pod.uncounted + missing pods job role n = n

/-- Where names are distinct, a pod is the one that is found under its name. -/
theorem podNamed?_of_mem (hdistinct : (pods.map Pod.name).Nodup) {pod : Pod} (hpod : pod ∈ pods) :
    podNamed? pods pod.name = some pod := by
  obtain ⟨found, hfound⟩ := Option.isSome_iff_exists.1 (podNamed?_isSome.2 ⟨pod, hpod, rfl⟩)
  obtain ⟨hmem, hname⟩ := name_of_podNamed? hfound
  rw [hfound, List.inj_on_of_nodup_map hdistinct hmem hpod hname]

theorem any_named (hdistinct : (pods.map Pod.name).Nodup) (name : String) (p : Pod → Bool) :
    pods.any (fun pod => pod.name == name && p pod) = (podNamed? pods name).any p := by
  rw [Bool.eq_iff_iff, List.any_eq_true, Option.any_eq_true]
  constructor
  · rintro ⟨pod, hpod, hp⟩
    obtain ⟨hname, hp⟩ := Bool.and_eq_true_iff.1 hp
    exact ⟨pod, eq_of_beq hname ▸ podNamed?_of_mem hdistinct hpod, hp⟩
  · rintro ⟨pod, hfound, hp⟩
    obtain ⟨hmem, hname⟩ := name_of_podNamed? hfound
    exact ⟨pod, hmem, by rw [hname, hp, beq_self_eq_true, Bool.and_self]⟩

theorem not_any_name (pods : List Pod) (name : String) :
    (!pods.any (·.name == name)) = (podNamed? pods name).isNone := by
  have hfound : (podNamed? pods name).isSome = pods.any (·.name == name) := by
    rw [Bool.eq_iff_iff, podNamed?_isSome, List.any_eq_true]
    simp only [beq_iff_eq]
  rw [← Option.not_isSome, hfound]

/-- What is found is in one of the phases that are counted, or in none of them. -/
theorem found_whole (found : Nat → Option Pod) (indices : List Nat) :
    indices.countP (fun i => (found i).any (·.inPhase "Running")) +
      indices.countP (fun i => (found i).any (·.inPhase "Succeeded")) +
      indices.countP (fun i => (found i).any (·.inPhase "Failed")) +
      indices.countP (fun i => (found i).any Pod.uncounted) +
      indices.countP (fun i => (found i).isNone) = indices.length := by
  induction indices with
  | nil => rfl
  | cons i rest ih =>
    simp only [List.countP_cons, List.length_cons]
    cases found i with
    | none =>
      simp only [Option.any_none, Option.isNone_none, Bool.false_eq_true, if_false, if_true]
      omega
    | some pod =>
      have hone := pod.phases_add_up
      simp only [Option.any_some, Option.isNone_some, Bool.false_eq_true, if_false]
      omega

theorem listed_whole (hdistinct : (pods.map Pod.name).Nodup) (job role : String) (n : Nat) :
    listed pods job role n (·.inPhase "Running") + listed pods job role n (·.inPhase "Succeeded") +
      listed pods job role n (·.inPhase "Failed") + listed pods job role n Pod.uncounted +
        missing pods job role n = n := by
  simp only [listed, missing, any_named hdistinct, not_any_name]
  rw [found_whole, List.length_range]

/-! ### What is counted -/

theorem number_countReplicas (pods : List Pod) (job role : String) (n index : Nat)
    (numbers : RoleStatus) (c : Counter) :
    (countReplicas pods job role n index numbers).number c = numbers.number c +
      Int32.ofNat ((List.range' index n).countP fun i =>
        counterOf pods (replicaName job role i) == some c) := by
  induction n generalizing index numbers with
  | zero => simp [countReplicas]
  | succ n ih =>
    rw [countReplicas_succ, ih, List.range'_succ, List.countP_cons]
    cases hcounter : counterOf pods (replicaName job role index) with
    | none => simp [RoleStatus.countSome]
    | some counter =>
      rw [RoleStatus.countSome, RoleStatus.number_count, Int32.add_assoc, ← Int32.ofNat_add,
        Nat.add_comm]
      simp

theorem toInt_countReplicas (hdistinct : (pods.map Pod.name).Nodup) (job role : String)
    (hn : n < 2 ^ 31) (c : Counter) :
    ((countReplicas pods job role n 0 {}).number c).toInt =
      listed pods job role n (·.inPhase c.phase) := by
  have hlisted : ((List.range' 0 n).countP fun i =>
      counterOf pods (replicaName job role i) == some c) = listed pods job role n (·.inPhase c.phase) := by
    rw [← List.range_eq_range', listed]
    refine List.countP_congr fun i _ => ?_
    rw [any_named hdistinct, counterOf]
    cases podNamed? pods (replicaName job role i) with
    | none => simp
    | some pod => rw [Option.bind_some, Pod.ofPhase?_beq_some, Option.any_some]
  have hle : listed pods job role n (·.inPhase c.phase) ≤ n := by
    refine Nat.le_trans List.countP_le_length ?_
    rw [List.length_range]
  have hzero : RoleStatus.number {} c = 0 := by cases c <;> rfl
  rw [number_countReplicas, hlisted, hzero, Int32.zero_add, Int32.toInt_ofNat_of_lt (by omega)]

theorem census_countReplicas (hdistinct : (pods.map Pod.name).Nodup) (job role : String)
    (hn : n < 2 ^ 31) : Census pods job role n (countReplicas pods job role n 0 {}) := by
  have hrunning := toInt_countReplicas hdistinct job role hn .running
  have hcompleted := toInt_countReplicas hdistinct job role hn .completed
  have hfailed := toInt_countReplicas hdistinct job role hn .failed
  refine ⟨hrunning, hcompleted, hfailed, ?_⟩
  have hwhole := listed_whole hdistinct job role n
  simp only [RoleStatus.number, Counter.phase] at hrunning hcompleted hfailed
  omega

/-- Pods under other names are counted nowhere. -/
theorem listed_filter (wanted : String → Bool)
    (hwanted : ∀ i < n, wanted (replicaName job.name role i) = true) (pods : List Pod)
    (p : Pod → Bool) : listed (pods.filter fun pod => wanted pod.name) job.name role n p =
      listed pods job.name role n p := by
  refine List.countP_congr fun i hi => ?_
  have hname := hwanted i (List.mem_range.1 hi)
  have hsame (pod : Pod) :
      (wanted pod.name && (pod.name == replicaName job.name role i && p pod)) =
        (pod.name == replicaName job.name role i && p pod) := by
    cases hpod : pod.name == replicaName job.name role i with
    | false => simp
    | true => rw [eq_of_beq hpod, hname, Bool.true_and]
  simp only [List.any_filter, hsame]

/-! ### The step -/

/-- Whether a conversation starts with a list of these pods of a job. -/
def ShowsPods (job : Job) (exchanges : List Exchange) (pods : List Pod) : Prop :=
  ∃ listing, exchanges.head? = some listing ∧ answerTo (.listPods job) listing.response = .ok pods

theorem of_syncPods_quiet (hid : Identity.ofJob job = .ok identity) {status status' : JobStatus}
    {outcome : PodsOutcome}
    (h : Converses (syncPods job identity images now status) exchanges (.ok (outcome, status')))
    (hshows : ShowsPods job exchanges pods) (hquiet : ∀ pod ∈ pods, pod.requestsStop = false) :
    (∃ created, outcome = .progressing created) ∧
      status' = { status with
        roleStatuses := countRoles pods job.name job.spec.roles.toList status.roleStatuses } ∧
      exchanges.map (·.request) = podsRequest job identity.namespace ::
        creationRequests job identity images pods := by
  obtain ⟨hns, -, -⟩ := Identity.ofJob_eq_ok.1 hid
  obtain ⟨listing, hhead, hshown⟩ := hshows
  rw [syncPods] at h
  rcases h.of_bind with ⟨e, he, -⟩ | ⟨found, first, rest, rfl, hlist, htail⟩
  · cases he
  rcases hlist.of_perform with ⟨request, response, hasks, rfl, hanswer⟩ | ⟨-, -, hfails⟩
  swap
  · cases hfails
  cases hhead
  obtain rfl : found = pods :=
    Except.ok.inj ((mapError_eq_ok.1 hanswer.symm).symm.trans hshown)
  obtain ⟨ns, hns', hasks⟩ := Option.bind_eq_some_iff.1 hasks
  obtain rfl : identity.namespace = ns := Option.some.inj (hns.symm.trans hns')
  obtain ⟨hpath, hasks⟩ := Option.ite_none_right_eq_some.1 hasks
  cases hasks
  rw [show found.find? Pod.requestsStop = none from
    List.find?_eq_none.2 fun pod hpod => by simp [hquiet pod hpod]] at htail
  rcases htail.of_bind with ⟨e, he, -⟩ | ⟨⟨numbers, created⟩, roles, _, rfl, hroles, hdone⟩
  · cases he
  cases hdone
  have hnumbers : numbers = countRoles found identity.name job.spec.roles.toList
      status.roleStatuses := hroles.of_within (within_syncRoles fun _ he => he)
  let findings : Findings := ⟨fun _ => true, [], status⟩
  have hcarries : CarriesOut (findings.Agrees job) _ roles none :=
    carriesOut_syncRoles hpath (get?_roles job) hroles
  refine ⟨⟨created, rfl⟩, ?_, ?_⟩
  · rw [hnumbers, Identity.name_of_ofJob hid]
  · rw [List.append_nil, ← map_missingPods, ← hcarries.requests_eq]
    rfl

theorem createdNames_of_quiet (hid : Identity.ofJob job = .ok identity)
    (h : exchanges.map (·.request) = podsRequest job identity.namespace ::
      creationRequests job identity images pods) :
    createdNames exchanges = (podNames job).filter fun name => !pods.any (·.name == name) := by
  rw [createdNames, h, List.filter_cons_of_neg (by simp [postsPod, podsRequest]),
    filter_postsPod_creationRequests, map_name_creationRequests hid]

theorem mem_podNames {definition : Role} (hrole : job.spec.roles.get? role = some definition)
    (hindex : index < definition.desiredReplicas) : replicaName job.name role index ∈ podNames job := by
  have hmem : (role, index) ∈ replicas job :=
    List.mem_flatMap.2 ⟨(role, definition), SortedMap.get?_eq_some_iff.1 hrole,
      List.mem_map.2 ⟨index, List.mem_range.2 hindex, rfl⟩⟩
  exact List.mem_map.2 ⟨_, hmem, rfl⟩

theorem get?_countRoles_role {definition : Role}
    (hrole : job.spec.roles.get? role = some definition) (pods : List Pod) (name : String)
    (statuses : StringMap RoleStatus) :
    (countRoles pods name job.spec.roles.toList statuses).get? role =
      some (countReplicas pods name role definition.desiredReplicas 0 {}) := by
  have hmem : (role, definition) ∈ job.spec.roles.toList := SortedMap.get?_eq_some_iff.1 hrole
  obtain ⟨numbers, hnumbers⟩ :=
    exists_lastValue?_roles pods name (List.mem_map.2 ⟨_, hmem, rfl⟩)
  obtain ⟨r, hr, heq⟩ := List.mem_map.1 (SortedMap.mem_of_lastValue? hnumbers)
  cases heq
  obtain rfl : r.2 = definition := Option.some.inj ((get?_roles job r hr).symm.trans hrole)
  rw [get?_countRoles, hnumbers]
  rfl

theorem get?_countRoles_other (hrole : job.spec.roles.get? role = none) (pods : List Pod)
    (name : String) (statuses : StringMap RoleStatus) :
    (countRoles pods name job.spec.roles.toList statuses).get? role = statuses.get? role := by
  refine get?_countRoles_of_notMem fun hmem => ?_
  obtain ⟨r, hr, rfl⟩ := List.mem_map.1 hmem
  rw [get?_roles job r hr] at hrole
  cases hrole

/-- A replica that is not listed is posted once, and one that is listed is not posted. -/
theorem count_createdNames
    (h : createdNames exchanges = (podNames job).filter fun name => !pods.any (·.name == name))
    {name : String} (hname : name ∈ podNames job) : (createdNames exchanges).count name =
      if ∃ pod ∈ pods, pod.name = name then 0 else 1 := by
  rw [h]
  split
  · rename_i hlisted
    obtain ⟨pod, hpod, rfl⟩ := hlisted
    refine List.count_eq_zero.2 fun hmem => ?_
    have hnot := (List.mem_filter.1 hmem).2
    rw [Bool.not_eq_true', List.any_eq_false] at hnot
    exact hnot pod hpod (beq_self_eq_true _)
  · rename_i hlisted
    have hnot : (!pods.any (·.name == name)) = true := by
      rw [Bool.not_eq_true', List.any_eq_false]
      exact fun pod hpod heq => hlisted ⟨pod, hpod, eq_of_beq heq⟩
    rw [List.count_filter (p := fun name => !pods.any (·.name == name)) hnot]
    exact List.count_eq_one_of_mem (nodup_podNames job) hname

theorem Census.eq_of_listed {pods' : List Pod} {numbers numbers' : RoleStatus} {job : String}
    (h : Census pods job role n numbers) (h' : Census pods' job role n numbers')
    (hlisted : ∀ p, listed pods job role n p = listed pods' job role n p) : numbers = numbers' := by
  obtain ⟨running, completed, failed⟩ := numbers
  obtain ⟨running', completed', failed'⟩ := numbers'
  have hrunning : running = running' :=
    Int32.toInt_inj.1 (h.running.trans ((congrArg Int.ofNat (hlisted _)).trans h'.running.symm))
  have hcompleted : completed = completed' :=
    Int32.toInt_inj.1 (h.completed.trans ((congrArg Int.ofNat (hlisted _)).trans h'.completed.symm))
  have hfailed : failed = failed' :=
    Int32.toInt_inj.1 (h.failed.trans ((congrArg Int.ofNat (hlisted _)).trans h'.failed.symm))
  rw [hrunning, hcompleted, hfailed]

/-- The numbers of a job follow from the pods under the names of its replicas. -/
theorem countRoles_of_filter_eq {pods' : List Pod} (hdistinct : (pods.map Pod.name).Nodup)
    (hdistinct' : (pods'.map Pod.name).Nodup)
    (hsame : pods.filter (·.name ∈ podNames job) = pods'.filter (·.name ∈ podNames job))
    (statuses : StringMap RoleStatus) :
    countRoles pods job.name job.spec.roles.toList statuses =
      countRoles pods' job.name job.spec.roles.toList statuses := by
  refine SortedMap.ext_get? fun role => ?_
  cases hrole : job.spec.roles.get? role with
  | some definition =>
    have hlt := definition.desiredReplicas_lt
    have hwanted : ∀ i < definition.desiredReplicas,
        decide (replicaName job.name role i ∈ podNames job) = true :=
      fun i hi => decide_eq_true (mem_podNames hrole hi)
    have hlisted (p : Pod → Bool) : listed pods job.name role definition.desiredReplicas p =
        listed pods' job.name role definition.desiredReplicas p := by
      rw [← listed_filter (· ∈ podNames job) hwanted pods, hsame,
        listed_filter (· ∈ podNames job) hwanted]
    rw [get?_countRoles_role hrole, get?_countRoles_role hrole,
      (census_countReplicas hdistinct job.name role hlt).eq_of_listed
        (census_countReplicas hdistinct' job.name role hlt) hlisted]
  | none => rw [get?_countRoles_other hrole, get?_countRoles_other hrole]

end Pass

namespace Sample

/-- The small job with its first replica, which runs. -/
def startedHalf : Cluster :=
  posted.insert ⟨.pod, "default", "train-worker-0"⟩
    (podOf "train-worker-0" (.obj [("phase", .str "Running")]))

/-- The same with a failed pod beyond the replicas that the job should have. -/
def scaledDown : Cluster :=
  startedHalf.insert ⟨.pod, "default", "train-worker-2"⟩
    (podOf "train-worker-2" (.obj [("phase", .str "Failed")]))

end Sample

namespace Pass

/-- Whatever is answered to it, a step that ends well on pods of distinct names none of which asks for
the job to stop has the job go on. The numbers of each role in the job are then a census of its
replicas: those that are not listed are posted once each, and nothing is posted for the others. Numbers
of roles that are not in the job stay, and pods under other names do not matter. -/
theorem progressing_counters (hid : Identity.ofJob job = .ok identity) {status status' : JobStatus}
    {outcome : PodsOutcome}
    (h : Converses (syncPods job identity images now status) exchanges (.ok (outcome, status')))
    (hshows : ShowsPods job exchanges pods) (hdistinct : (pods.map Pod.name).Nodup)
    (hquiet : ∀ pod ∈ pods, pod.requestsStop = false) :
    (∃ created, outcome = .progressing created) ∧
      (∀ role definition, job.spec.roles.get? role = some definition →
        ∀ n : Nat, (n : Int) = max definition.replicas.toInt 0 →
          (∃ numbers, status'.roleStatuses.get? role = some numbers ∧
            Census pods job.name role n numbers) ∧
          ∀ i < n, (createdNames exchanges).count (replicaName job.name role i) =
            if ∃ pod ∈ pods, pod.name = replicaName job.name role i then 0 else 1) ∧
      (∀ role, job.spec.roles.get? role = none →
        status'.roleStatuses.get? role = status.roleStatuses.get? role) ∧
      ∀ exchanges' outcome' status'' pods',
        Converses (syncPods job identity images now status) exchanges' (.ok (outcome', status'')) →
        ShowsPods job exchanges' pods' → (pods'.map Pod.name).Nodup →
        (∀ pod ∈ pods', pod.requestsStop = false) →
        pods'.filter (·.name ∈ podNames job) = pods.filter (·.name ∈ podNames job) →
        status''.roleStatuses = status'.roleStatuses := by
  obtain ⟨hgoes, rfl, hrequests⟩ := of_syncPods_quiet hid h hshows hquiet
  have hcreated := createdNames_of_quiet hid hrequests
  refine ⟨hgoes, fun role definition hrole n hn => ?_, fun role hrole => ?_, ?_⟩
  · obtain rfl : n = definition.desiredReplicas := by
      rw [Role.desiredReplicas]
      omega
    refine ⟨⟨_, get?_countRoles_role hrole pods _ _,
      census_countReplicas hdistinct job.name role definition.desiredReplicas_lt⟩, fun i hi => ?_⟩
    exact count_createdNames hcreated (mem_podNames hrole hi)
  · exact get?_countRoles_other hrole pods job.name status.roleStatuses
  · intro exchanges' outcome' status'' pods' h' hshows' hdistinct' hquiet' hsame
    obtain ⟨-, rfl, -⟩ := of_syncPods_quiet hid h' hshows' hquiet'
    exact countRoles_of_filter_eq hdistinct' hdistinct hsame _

/-- One replica of the small job runs, the other is missing, and the pod beyond them does not matter. -/
theorem progressing_counters_scaledDown :
    let identity : Identity := ⟨"train", "default", "u1"⟩
    let status : JobStatus := { roleStatuses := SortedMap.ofList [("old", { failed := 3 })] }
    let step := syncPods Sample.job identity {} Sample.now status
    let run := step.run serverStore (Server.forget { cluster := Sample.scaledDown })
    let pods := ownedPods Sample.scaledDown "default" Sample.job
    pods.map Pod.name = ["train-worker-0", "train-worker-2"] ∧
      ∃ status' numbers, run.1 = .ok (.progressing 1, status') ∧
        status'.roleStatuses.get? "worker" = some numbers ∧
        Census pods "train" "worker" 2 numbers ∧ numbers = { running := 1 } ∧
        (createdNames run.2.exchanges).count "train-worker-1" = 1 ∧
        status'.roleStatuses.get? "old" = some { failed := 3 } ∧
        ∃ created status'',
          (step.run serverStore (Server.forget { cluster := Sample.startedHalf })).1 =
            .ok (.progressing created, status'') ∧ status''.roleStatuses = status'.roleStatuses := by
  intro identity status step run pods
  let other := step.run serverStore (Server.forget { cluster := Sample.startedHalf })
  let others := ownedPods Sample.startedHalf "default" Sample.job
  let numbers : StringMap RoleStatus := SortedMap.ofList
    [("old", { failed := 3 }), ("worker", { running := 1 })]
  let ended : JobStatus := { roleStatuses := numbers }
  have hends : run.1 = .ok (.progressing 1, ended) ∧ other.1 = .ok (.progressing 1, ended) := by
    decide +kernel
  have hlists :
      run.2.exchanges.head?.map (fun e => answerTo (.listPods Sample.job) e.response) =
        some (.ok pods) ∧
      other.2.exchanges.head?.map (fun e => answerTo (.listPods Sample.job) e.response) =
        some (.ok others) := by
    decide +kernel
  have hnames : pods.map Pod.name = ["train-worker-0", "train-worker-2"] ∧
      others.map Pod.name = ["train-worker-0"] := by decide +kernel
  have hquiet : (∀ pod ∈ pods, pod.requestsStop = false) ∧
      ∀ pod ∈ others, pod.requestsStop = false := by decide +kernel
  have hsame : others.filter (·.name ∈ podNames Sample.job) =
      pods.filter (·.name ∈ podNames Sample.job) := by decide +kernel
  have hrun : Converses step run.2.exchanges run.1 := .of_server step _
  have hother : Converses step other.2.exchanges other.1 := .of_server step _
  rw [hends.1] at hrun
  rw [hends.2] at hother
  obtain ⟨-, hroles, hkept, hothers⟩ := progressing_counters rfl hrun
    (Option.map_eq_some_iff.1 hlists.1) (by rw [hnames.1]; decide) hquiet.1
  obtain ⟨⟨counted, hcounted, hcensus⟩, hposts⟩ := hroles "worker" _ rfl 2 (by decide)
  have hsecond : (createdNames run.2.exchanges).count "train-worker-1" = 1 := by
    refine (hposts 1 (by decide)).trans (if_neg ?_)
    rintro ⟨pod, hpod, hname⟩
    have hmem := List.mem_map_of_mem (f := Pod.name) hpod
    rw [hnames.1, hname] at hmem
    revert hmem
    decide +kernel
  exact ⟨hnames.1, ended, counted, hends.1, hcounted, hcensus, Option.some.inj (hcounted.symm.trans rfl),
    hsecond, hkept "old" rfl, 1, ended, hends.2,
    hothers _ _ _ _ hother (Option.map_eq_some_iff.1 hlists.2) (by rw [hnames.2]; decide) hquiet.2
      hsame⟩

end Pass

end JobOperator
