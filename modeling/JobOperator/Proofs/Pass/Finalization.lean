import JobOperator.Proofs.Pass.Progress
import JobOperator.Proofs.Store.History

/-!
The accounts of a job that stops. Each pod that belongs to a role is counted once: by the exit code
that it ended with, or by what became of the attempt to delete it. Whatever the store answers, the
pods are gone through to the end, and the numbers that are found are those of these pods alone.
-/

namespace JobOperator

namespace Counter

theorem ofExitCode_eq_completed {code : Int32} :
    ofExitCode code = completed ↔ code = 0 ∨ code = stopExitCode := by
  unfold ofExitCode
  split <;> simp_all

theorem ofExitCode_eq_failed {code : Int32} :
    ofExitCode code = failed ↔ ¬ (code = 0 ∨ code = stopExitCode) := by
  unfold ofExitCode
  split <;> simp_all

theorem ofExitCode_ne_running (code : Int32) : ofExitCode code ≠ running := by
  unfold ofExitCode
  split <;> nofun

end Counter

namespace RoleStatus

/-- The number of pods that were counted as this. -/
def number (status : RoleStatus) : Counter → Int32
  | .running => status.running
  | .completed => status.completed
  | .failed => status.failed

theorem number_count (status : RoleStatus) (counter c : Counter) :
    (status.count counter).number c =
      status.number c + Int32.ofNat (if counter = c then 1 else 0) := by
  cases counter <;> cases c <;> simp [count, number]

end RoleStatus

namespace Pod

/-- Whether a pod belongs to a role of a job, by its name. -/
def hasRole (job role : String) (pod : Pod) : Bool := Names.role? job pod.name == some role

/-- Whether a pod has ended with success or with a request to stop. -/
def endedWell (pod : Pod) : Bool :=
  pod.exitCode? == some 0 || pod.exitCode? == some stopExitCode

/-- Whether a pod has ended with any other exit code. -/
def endedBadly (pod : Pod) : Bool := pod.exitCode?.isSome && !pod.endedWell

/-- Whether a pod has ended with an exit code that counts as this. -/
def endedAs (counter : Counter) (pod : Pod) : Bool :=
  pod.exitCode?.map Counter.ofExitCode == some counter

@[simp] theorem endedAs_running (pod : Pod) : pod.endedAs .running = false := by
  unfold endedAs
  cases pod.exitCode? with
  | none => rfl
  | some code => simp [Counter.ofExitCode_ne_running]

theorem endedAs_completed (pod : Pod) : pod.endedAs .completed = pod.endedWell := by
  rw [Bool.eq_iff_iff]
  simp only [endedAs, endedWell]
  cases pod.exitCode? <;> simp [Counter.ofExitCode_eq_completed]

theorem endedAs_failed (pod : Pod) : pod.endedAs .failed = pod.endedBadly := by
  rw [Bool.eq_iff_iff]
  simp only [endedAs, endedBadly, endedWell]
  cases pod.exitCode? <;> simp [Counter.ofExitCode_eq_failed]

end Pod

namespace Pass

variable {σ : Type} {handler : Handler σ} {s s' : σ} {job : Job} {identity : Identity}
  {images : Images} {now : Instant} {status : JobStatus} {pods : List Pod}

/-! ### Deletions -/

/-- An attempt to delete a pod. -/
structure Deletion where
  pod : Pod
  answer : Except StoreError Unit

namespace Deletion

/-- Whether the pod is gone after an attempt to delete it. -/
def gone (deletion : Deletion) : Bool :=
  match deletion.answer with
  | .ok () => true
  | .error e => e.isNotFound

/-- What the pod is counted as. -/
def counter (deletion : Deletion) : Counter := if deletion.gone then .completed else .failed

/-- The call by which a pod of a job is deleted, with its answer. -/
def answered (identity : Identity) (deletion : Deletion) : Answered :=
  ⟨.delete .pod identity.namespace deletion.pod.name, deletion.answer⟩

end Deletion

/-- Whether a pod is deleted when the job stops: it belongs to a role and has not ended. -/
def outlives (identity : Identity) (pod : Pod) : Bool :=
  (Names.role? identity.name pod.name).isSome && pod.exitCode?.isNone

theorem outlives_iff {pod : Pod} : outlives identity pod = true ↔
    Names.role? identity.name pod.name ≠ none ∧ pod.exitCode? = none := by
  simp only [outlives, Bool.and_eq_true, Option.isSome_iff_ne_none, Option.isNone_iff_eq_none]

/-- A pod that asks for the job to stop has ended. -/
theorem outlives_of_requestsStop {pod : Pod} (h : pod.requestsStop = true) :
    outlives identity pod = false := by
  simp only [Pod.requestsStop, Bool.and_eq_true, beq_iff_eq] at h
  simp only [outlives, h.2, Option.isNone_some, Bool.and_false]

/-- The way through the pods of a job that stops: which of them were deleted, and what was counted
for which role. -/
inductive Finalizes (identity : Identity) :
    List Pod → List Deletion → List (String × Counter) → Prop
  | nil : Finalizes identity [] [] []
  | foreign {pod : Pod} {rest : List Pod} {deletions : List Deletion}
      {verdicts : List (String × Counter)} (role : Names.role? identity.name pod.name = none)
      (tail : Finalizes identity rest deletions verdicts) :
      Finalizes identity (pod :: rest) deletions verdicts
  | ended {pod : Pod} {rest : List Pod} {deletions : List Deletion}
      {verdicts : List (String × Counter)} {r : String} {code : Int32}
      (role : Names.role? identity.name pod.name = some r) (exit : pod.exitCode? = some code)
      (tail : Finalizes identity rest deletions verdicts) :
      Finalizes identity (pod :: rest) deletions ((r, .ofExitCode code) :: verdicts)
  | deleted {pod : Pod} {rest : List Pod} {deletions : List Deletion}
      {verdicts : List (String × Counter)} {r : String} (answer : Except StoreError Unit)
      (role : Names.role? identity.name pod.name = some r) (exit : pod.exitCode? = none)
      (tail : Finalizes identity rest deletions verdicts) :
      Finalizes identity (pod :: rest) (⟨pod, answer⟩ :: deletions)
        ((r, Deletion.counter ⟨pod, answer⟩) :: verdicts)

/-- The numbers of all roles with these verdicts counted. -/
def tally (statuses : StringMap RoleStatus) (verdicts : List (String × Counter)) :
    StringMap RoleStatus :=
  verdicts.foldl (fun statuses v => statuses.alter v.1 {} (·.count v.2)) statuses

/-- Whatever the store answers, the pods are gone through, and what is found is counted. -/
theorem run_finalize (handler : Handler σ) (identity : Identity) (pods : List Pod)
    (statuses : StringMap RoleStatus) (s : σ) :
    ∃ deletions verdicts s', Finalizes identity pods deletions verdicts ∧
      (finalize identity pods statuses).run handler s = (.ok (tally statuses verdicts), s') ∧
      (finalize identity pods statuses).history handler s =
        deletions.map (·.answered identity) := by
  induction pods generalizing statuses s with
  | nil => exact ⟨[], [], s, .nil, rfl, rfl⟩
  | cons pod rest ih =>
    cases hrole : Names.role? identity.name pod.name with
    | none =>
      obtain ⟨deletions, verdicts, s', hpods, hrun, hhistory⟩ := ih statuses s
      refine ⟨deletions, verdicts, s', .foreign hrole hpods, ?_⟩
      simp only [finalize, hrole]
      exact ⟨hrun, hhistory⟩
    | some role =>
      cases hexit : pod.exitCode? with
      | some code =>
        obtain ⟨deletions, verdicts, s', hpods, hrun, hhistory⟩ :=
          ih (statuses.alter role {} (·.count (.ofExitCode code))) s
        refine ⟨deletions, _, s', .ended hrole hexit hpods, ?_⟩
        simp only [finalize, hrole, hexit]
        exact ⟨hrun, hhistory⟩
      | none =>
        let c : Call := .delete .pod identity.namespace pod.name
        let deletion : Deletion := ⟨pod, (handler c s).1⟩
        obtain ⟨deletions, verdicts, s', hpods, hrun, hhistory⟩ :=
          ih (statuses.alter role {} (·.count deletion.counter)) (handler c s).2
        refine ⟨deletion :: deletions, _, s', .deleted _ hrole hexit hpods, ?_⟩
        simp only [finalize, hrole, hexit]
        rw [Program.run_call, Program.history_call, List.map_cons, ← hhistory]
        cases hanswer : (handler c s).1 with
        | ok u =>
          simp only [deletion, Deletion.counter, Deletion.gone, Deletion.answered, hanswer] at hrun ⊢
          exact ⟨hrun, rfl⟩
        | error e =>
          simp only [deletion, Deletion.counter, Deletion.gone, Deletion.answered, hanswer] at hrun ⊢
          exact ⟨hrun, rfl⟩

/-! ### What is counted -/

/-- The verdicts on a role are those of each sort. -/
theorem length_filter_role (verdicts : List (String × Counter)) (r : String) :
    (verdicts.filter (·.1 == r)).length =
      verdicts.count (r, .running) + (verdicts.count (r, .completed) + verdicts.count (r, .failed)) := by
  induction verdicts with
  | nil => rfl
  | cons v rest ih =>
    obtain ⟨r', c⟩ := v
    simp only [← List.countP_eq_length_filter, List.countP_cons, List.count_cons] at ih ⊢
    rw [ih]
    by_cases hr : r' = r
    · subst hr
      cases c <;> simp <;> omega
    · simp [hr]

/-- A role has numbers if it had some or there is a verdict on it. -/
theorem isSome_tally (statuses : StringMap RoleStatus) (verdicts : List (String × Counter))
    (r : String) : ((tally statuses verdicts).get? r).isSome = true ↔
      (statuses.get? r).isSome = true ∨ r ∈ verdicts.map (·.1) := by
  induction verdicts generalizing statuses with
  | nil => simp [tally]
  | cons v rest ih =>
    rw [tally, List.foldl_cons, ← tally, ih, SortedMap.alter, SortedMap.get?_insert]
    by_cases hr : r = v.1
    · simp [hr]
    · simp [hr]

/-- The verdicts on a role are added to its numbers. -/
theorem get?_tally {statuses : StringMap RoleStatus} {verdicts : List (String × Counter)}
    {r : String} {numbers : RoleStatus} (h : (tally statuses verdicts).get? r = some numbers)
    (c : Counter) :
    numbers.number c =
      ((statuses.get? r).getD {}).number c + Int32.ofNat (verdicts.count (r, c)) := by
  induction verdicts generalizing statuses with
  | nil =>
    rw [show statuses.get? r = some numbers from h]
    simp
  | cons v rest ih =>
    obtain ⟨r', c'⟩ := v
    rw [tally, List.foldl_cons, ← tally] at h
    rw [ih h, SortedMap.alter, SortedMap.get?_insert, List.count_cons]
    by_cases hr : r = r'
    · subst hr
      rw [if_pos rfl, Option.getD_some, RoleStatus.number_count, Int32.add_assoc, ← Int32.ofNat_add,
        Nat.add_comm]
      simp
    · simp [hr, Ne.symm hr]

namespace Finalizes

variable {deletions : List Deletion} {verdicts : List (String × Counter)}

/-- A deletion is attempted once for each pod that outlives the job, in their order. -/
theorem pods_eq (h : Finalizes identity pods deletions verdicts) :
    deletions.map (·.pod) = pods.filter (outlives identity) := by
  induction h with
  | nil => rfl
  | foreign role tail ih => simp [outlives, role, ih]
  | ended role exit tail ih => simp [outlives, role, exit, ih]
  | deleted answer role exit tail ih => simp [outlives, role, exit, ih]

theorem mem_roles_iff (h : Finalizes identity pods deletions verdicts) (r : String) :
    r ∈ verdicts.map (·.1) ↔ ∃ pod ∈ pods, Names.role? identity.name pod.name = some r := by
  induction h with
  | nil => simp
  | foreign role tail ih => simp [role, ih]
  | ended role exit tail ih => simp [role, ih, eq_comm]
  | deleted answer role exit tail ih => simp [role, ih, eq_comm]

/-- What is counted for a role: its pods by how they ended, and the rest by whether they are gone. -/
theorem count_eq (h : Finalizes identity pods deletions verdicts) (r : String) (c : Counter) :
    verdicts.count (r, c) =
      pods.countP (fun pod => pod.hasRole identity.name r && pod.endedAs c) +
        deletions.countP (fun d => d.pod.hasRole identity.name r && d.counter == c) := by
  induction h with
  | nil => rfl
  | foreign role tail ih => simp [Pod.hasRole, role, ih]
  | @ended pod rest deletions verdicts r' code role exit tail ih =>
    have hverdict : ((r', Counter.ofExitCode code) == (r, c)) =
        (pod.hasRole identity.name r && pod.endedAs c) := by
      rw [Bool.eq_iff_iff]
      simp [Pod.hasRole, Pod.endedAs, role, exit]
    rw [List.count_cons, List.countP_cons, ih, hverdict]
    omega
  | @deleted pod rest deletions verdicts r' answer role exit tail ih =>
    have hverdict : ((r', Deletion.counter ⟨pod, answer⟩) == (r, c)) =
        (pod.hasRole identity.name r && Deletion.counter ⟨pod, answer⟩ == c) := by
      rw [Bool.eq_iff_iff]
      simp [Pod.hasRole, role]
    have hpod : (pod.hasRole identity.name r && pod.endedAs c) = false := by
      simp [Pod.endedAs, exit]
    rw [List.count_cons, List.countP_cons, List.countP_cons, ih, hverdict, hpod]
    simp only [Bool.false_eq_true, if_false]
    omega

theorem count_running (h : Finalizes identity pods deletions verdicts) (r : String) :
    verdicts.count (r, .running) = 0 := by
  have hcounter (d : Deletion) : (d.counter == Counter.running) = false := by
    simp only [Deletion.counter]
    split <;> rfl
  simp [h.count_eq, hcounter]

theorem count_completed (h : Finalizes identity pods deletions verdicts) (r : String) :
    verdicts.count (r, .completed) =
      pods.countP (fun pod => pod.hasRole identity.name r && pod.endedWell) +
        deletions.countP (fun d => d.pod.hasRole identity.name r && d.gone) := by
  have hcounter (d : Deletion) : (d.counter == Counter.completed) = d.gone := by
    simp only [Deletion.counter]
    cases d.gone <;> rfl
  simp only [h.count_eq, Pod.endedAs_completed, hcounter]

theorem count_failed (h : Finalizes identity pods deletions verdicts) (r : String) :
    verdicts.count (r, .failed) =
      pods.countP (fun pod => pod.hasRole identity.name r && pod.endedBadly) +
        deletions.countP (fun d => d.pod.hasRole identity.name r && !d.gone) := by
  have hcounter (d : Deletion) : (d.counter == Counter.failed) = !d.gone := by
    simp only [Deletion.counter]
    cases d.gone <;> rfl
  simp only [h.count_eq, Pod.endedAs_failed, hcounter]

/-- Each pod of a role is counted once. -/
theorem length_eq (h : Finalizes identity pods deletions verdicts) (r : String) :
    (verdicts.filter (·.1 == r)).length = pods.countP (Pod.hasRole identity.name r) := by
  induction h with
  | nil => rfl
  | foreign role tail ih => simp [Pod.hasRole, role, ih]
  | ended role exit tail ih =>
    simp only [← List.countP_eq_length_filter, List.countP_cons, Pod.hasRole, role] at ih ⊢
    simp [ih]
  | deleted answer role exit tail ih =>
    simp only [← List.countP_eq_length_filter, List.countP_cons, Pod.hasRole, role] at ih ⊢
    simp [ih]

theorem count_total (h : Finalizes identity pods deletions verdicts) (r : String) :
    verdicts.count (r, .completed) + verdicts.count (r, .failed) =
      pods.countP (Pod.hasRole identity.name r) := by
  rw [← h.length_eq, length_filter_role, h.count_running, Nat.zero_add]

end Finalizes

/-! ### The accounts -/

/-- The accounts of a job that stops: the numbers of its roles, given its pods and what became of
those that were deleted. Only these are counted, each pod of a role once, and none is running. -/
structure Accounts (job : Job) (identity : Identity) (pods : List Pod) (deletions : List Deletion)
    (roleStatuses : StringMap RoleStatus) : Prop where
  roles : ∀ r, (roleStatuses.get? r).isSome = true ↔
    (job.spec.roles.get? r).isSome = true ∨
      ∃ pod ∈ pods, Names.role? identity.name pod.name = some r
  running : ∀ r numbers, roleStatuses.get? r = some numbers → numbers.running = 0
  completed : ∀ r numbers, roleStatuses.get? r = some numbers → numbers.completed.toInt =
    pods.countP (fun pod => pod.hasRole identity.name r && pod.endedWell) +
      deletions.countP (fun d => d.pod.hasRole identity.name r && d.gone)
  failed : ∀ r numbers, roleStatuses.get? r = some numbers → numbers.failed.toInt =
    pods.countP (fun pod => pod.hasRole identity.name r && pod.endedBadly) +
      deletions.countP (fun d => d.pod.hasRole identity.name r && !d.gone)
  total : ∀ r numbers, roleStatuses.get? r = some numbers →
    numbers.completed.toInt + numbers.failed.toInt =
      pods.countP (Pod.hasRole identity.name r)

/-- What a job that stops starts to count from: nothing, for each of its roles. -/
abbrev noNumbers (job : Job) : StringMap RoleStatus := job.spec.roles.map fun _ _ => {}

theorem getD_noNumbers (job : Job) (r : String) : ((noNumbers job).get? r).getD {} = {} := by
  rw [noNumbers, SortedMap.get?_map]
  cases job.spec.roles.get? r <;> rfl

/-- A job that stops counts from nothing. -/
theorem number_tally {verdicts : List (String × Counter)}
    {r : String} {numbers : RoleStatus}
    (h : (tally (noNumbers job) verdicts).get? r = some numbers) (c : Counter) :
    numbers.number c = Int32.ofNat (verdicts.count (r, c)) := by
  rw [get?_tally h, getD_noNumbers]
  cases c <;> exact Int32.zero_add _

/-- A job that stops counts no pod as running. -/
theorem Finalizes.running_eq {deletions : List Deletion} {verdicts : List (String × Counter)}
    (h : Finalizes identity pods deletions verdicts) {r : String} {numbers : RoleStatus}
    (hr : (tally (noNumbers job) verdicts).get? r = some numbers) : numbers.running = 0 := by
  rw [show numbers.running = _ from number_tally hr .running, h.count_running]
  rfl

theorem accounts_tally {deletions : List Deletion} {verdicts : List (String × Counter)}
    (h : Finalizes identity pods deletions verdicts) (hsize : pods.length < 2 ^ 31) :
    Accounts job identity pods deletions (tally (noNumbers job) verdicts) := by
  -- no number overflows, as each counts pods of the list
  have hbound (r : String) :
      verdicts.count (r, .completed) + verdicts.count (r, .failed) < 2 ^ 31 := by
    rw [h.count_total]
    exact Nat.lt_of_le_of_lt List.countP_le_length hsize
  have hcompleted {r : String} {numbers : RoleStatus}
      (hr : (tally (noNumbers job) verdicts).get? r = some numbers) :
      numbers.completed.toInt = verdicts.count (r, .completed) := by
    have hlt := hbound r
    rw [show numbers.completed = _ from number_tally hr .completed, Int32.toInt_ofNat_of_lt (by omega)]
  have hfailed {r : String} {numbers : RoleStatus}
      (hr : (tally (noNumbers job) verdicts).get? r = some numbers) :
      numbers.failed.toInt = verdicts.count (r, .failed) := by
    have hlt := hbound r
    rw [show numbers.failed = _ from number_tally hr .failed, Int32.toInt_ofNat_of_lt (by omega)]
  refine ⟨fun r => ?_, fun r numbers hr => h.running_eq hr, fun r numbers hr => ?_,
    fun r numbers hr => ?_, fun r numbers hr => ?_⟩
  · rw [isSome_tally, h.mem_roles_iff, noNumbers, SortedMap.get?_map, Option.isSome_map]
  · rw [hcompleted hr, h.count_completed, Int.natCast_add]
  · rw [hfailed hr, h.count_failed, Int.natCast_add]
  · rw [hcompleted hr, hfailed hr, ← h.count_total, Int.natCast_add]

end Pass

namespace Sample

/-- A store with these pods, whose deletions are answered in turn. -/
def answering (pods : List Pod) : Handler (List (Except StoreError Unit))
  | .listPods _, answers => (.ok pods, answers)
  | .delete .., answer :: answers => (answer, answers)
  | _, answers => (.error (.rejected .job "train" "not in this store"), answers)

/-- A pod of the small job that asks for it to stop. -/
def asking : Pod :=
  { metadata := { name := some "train-worker-1" }
    status := some
      { phase := some "Failed"
        containerStatuses := some
          [{ name := "main", state := some { terminated := some { exitCode := stopExitCode } } }] } }

/-- A pod of the small job that has not ended. -/
def lasting : Pod := { metadata := { name := some "train-worker-0" } }

end Sample

namespace Pass

variable {σ : Type}

/-- A job stops as soon as one of its pods asks for it, whatever becomes of the deletions: all pods
are accounted for, those that have not ended are deleted once each, and the first pod that asked is
named. -/
theorem finalization_accounting (handler : Handler σ) (s : σ) (job : Job) (identity : Identity)
    (images : Images) (now : Instant) (status : JobStatus) {pods : List Pod}
    (hlist : (handler (.listPods job) s).1 = .ok pods) (hsize : pods.length < 2 ^ 31)
    (hstop : ∃ pod ∈ pods, pod.requestsStop = true) :
    ∃ first deletions roleStatuses,
      pods.find? Pod.requestsStop = some first ∧
      deletions.map (·.pod) = pods.filter (outlives identity) ∧
      (syncPods job identity images now status).history handler s =
        ⟨.listPods job, .ok pods⟩ :: deletions.map (·.answered identity) ∧
      ((syncPods job identity images now status).run handler s).1 =
        .ok (.stopped first.name, { status with roleStatuses, completionTime := some now }) ∧
      Accounts job identity pods deletions roleStatuses := by
  obtain ⟨first, hfirst⟩ := Option.isSome_iff_exists.1 (List.find?_isSome.2 hstop)
  have hperform : (Program.perform (.listPods job) PassError.listPods).run handler s =
      (.ok pods, (handler (.listPods job) s).2) :=
    Program.run_perform_eq_ok.2 (Prod.ext hlist rfl)
  obtain ⟨deletions, verdicts, s', hpods, hrun, hhistory⟩ :=
    run_finalize handler identity pods (noNumbers job) (handler (.listPods job) s).2
  refine ⟨first, deletions, tally (noNumbers job) verdicts, hfirst, hpods.pods_eq, ?_, ?_,
    accounts_tally hpods hsize⟩
  · rw [syncPods, Program.history_bind_of_ok hperform, Program.history_perform, hlist]
    simp only [hfirst]
    rw [Program.history_bind_of_ok hrun, hhistory]
    simp
  · rw [syncPods, Program.run_bind_of_ok hperform]
    simp only [hfirst]
    rw [Program.run_bind_of_ok hrun]
    rfl

/-- A pod asks for the job to stop, and the other one cannot be deleted. -/
theorem finalization_accounting_asking :
    let identity : Identity := ⟨"train", "default", "u1"⟩
    let pods := [Sample.lasting, Sample.asking]
    let refused : Except StoreError Unit := .error (.rejected .pod "train-worker-0" "forbidden")
    ∃ deletions roleStatuses,
      deletions.map (·.pod) = [Sample.lasting] ∧
      ((syncPods Sample.job identity {} Sample.now {}).run (Sample.answering pods) [refused]).1 =
        .ok (.stopped "train-worker-1", { roleStatuses, completionTime := some Sample.now }) ∧
      Accounts Sample.job identity pods deletions roleStatuses := by
  intro identity pods refused
  have hstop : ∃ pod ∈ pods, pod.requestsStop = true :=
    ⟨Sample.asking, List.mem_cons_of_mem _ List.mem_cons_self, rfl⟩
  obtain ⟨first, deletions, roleStatuses, hfirst, hpods, -, hrun, haccounts⟩ :=
    finalization_accounting (Sample.answering pods) [refused] Sample.job identity {} Sample.now {}
      rfl (by decide) hstop
  have hname : first.name = "train-worker-1" := by
    cases hfirst
    rfl
  have hlasting : pods.filter (outlives identity) = [Sample.lasting] := by decide +kernel
  exact ⟨deletions, roleStatuses, hpods.trans hlasting, by rw [hrun, hname], haccounts⟩

end Pass

end JobOperator
