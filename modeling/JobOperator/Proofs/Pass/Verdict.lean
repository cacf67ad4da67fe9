import JobOperator.Proofs.Api.Deletion
import JobOperator.Proofs.Pass.Counters

/-!
Two verdicts on a pod that has ended. While the job goes on, a pod counts by its phase; when the job
stops, by the exit code of its first container, and as completed if there is none and the pod is
deleted. Either way a pod that joins the others adds one to one number of its role and changes nothing
else, so the verdicts can be compared.
-/

namespace JobOperator

open Client

namespace RoleStatus

theorem ext_number {a b : RoleStatus} (h : ∀ c, a.number c = b.number c) : a = b := by
  obtain ⟨running, completed, failed⟩ := a
  obtain ⟨running', completed', failed'⟩ := b
  obtain rfl : running = running' := h .running
  obtain rfl : completed = completed' := h .completed
  obtain rfl : failed = failed' := h .failed
  rfl

theorem count_comm (status : RoleStatus) (c c' : Counter) :
    (status.count c).count c' = (status.count c').count c := by
  cases c <;> cases c' <;> rfl

end RoleStatus

/-- Of what has ended, one number tells which. -/
theorem Counter.eq_iff_of_ended {a b : Counter} (ha : a = .completed ∨ a = .failed)
    (hb : b = .completed ∨ b = .failed) : a = b ↔ (a = .completed ↔ b = .completed) := by
  rcases ha with rfl | rfl
  · rw [eq_comm]
    exact (iff_true_left rfl).symm
  · rcases hb with rfl | rfl <;> decide

namespace Pod

/-- What a pod counts as for good, once it is deleted if it has not ended. -/
def verdict (pod : Pod) : Counter :=
  match pod.exitCode? with
  | some code => .ofExitCode code
  | none => .completed

theorem verdict_ended (pod : Pod) : pod.verdict = .completed ∨ pod.verdict = .failed := by
  unfold verdict
  split
  · unfold Counter.ofExitCode
    split
    · exact .inl rfl
    · exact .inr rfl
  · exact .inl rfl

/-- A pod that has ended counts while the job goes on, as completed after success. -/
theorem counter_of_ended {pod : Pod}
    (h : pod.phase? = some "Succeeded" ∨ pod.phase? = some "Failed") :
    ∃ c, Counter.ofPhase? pod.phase? = some c ∧ (c = .completed ∨ c = .failed) ∧
      (c = .completed ↔ pod.phase? = some "Succeeded") := by
  rcases h with h | h
  · rw [h]
    exact ⟨.completed, rfl, .inl rfl, by decide⟩
  · rw [h]
    exact ⟨.failed, rfl, .inr rfl, by decide⟩

theorem verdict_eq_completed {pod : Pod} (h : pod.exitCode? ≠ some stopExitCode) :
    pod.verdict = .completed ↔ pod.exitCode? = none ∨ pod.exitCode? = some 0 := by
  unfold verdict
  cases hexit : pod.exitCode? with
  | none => simp
  | some code =>
    have hcode : code ≠ stopExitCode := fun heq => h (hexit.trans (congrArg some heq))
    simp [Counter.ofExitCode_eq_completed, hcode]

end Pod

namespace Pass

variable {job : Job} {identity : Identity} {status : JobStatus} {pods before after : List Pod}
  {pod : Pod} {role name : String} {index n : Nat} {c : Counter}

/-! ### One more pod of a job that stops -/

/-- The verdict on a pod of a job that stops, with the role that it counts for. -/
def roleVerdict (identity : Identity) (pod : Pod) : Option (String × Counter) :=
  (Names.role? identity.name pod.name).map (·, pod.verdict)

/-- When all that is deleted is gone, the verdicts are those on the pods. -/
theorem Finalizes.verdicts_eq {deletions : List Deletion} {verdicts : List (String × Counter)}
    (h : Finalizes identity pods deletions verdicts) (hgone : ∀ d ∈ deletions, d.gone = true) :
    verdicts = pods.filterMap (roleVerdict identity) := by
  induction h with
  | nil => rfl
  | foreign role tail ih => simp [roleVerdict, role, ih hgone]
  | ended role exit tail ih => simp [roleVerdict, Pod.verdict, role, exit, ih hgone]
  | deleted answer role exit tail ih =>
    have hfirst := hgone _ List.mem_cons_self
    simp [roleVerdict, Pod.verdict, Deletion.counter, role, exit, hfirst,
      ih fun d hd => hgone d (List.mem_cons_of_mem _ hd)]

theorem alter_comm (statuses : StringMap RoleStatus) (v w : String × Counter) :
    (statuses.alter v.1 {} (·.count v.2)).alter w.1 {} (·.count w.2) =
      (statuses.alter w.1 {} (·.count w.2)).alter v.1 {} (·.count v.2) := by
  refine SortedMap.ext_get? fun k => ?_
  simp only [SortedMap.alter, SortedMap.get?_insert]
  by_cases hsame : v.1 = w.1
  · by_cases hk : k = w.1
    · simp [hsame, hk, RoleStatus.count_comm]
    · simp [hsame, hk]
  · by_cases hv : k = v.1
    · simp [hv, hsame]
    · by_cases hw : k = w.1
      · simp [hw, Ne.symm hsame]
      · simp [hv, hw]

/-- It does not matter when a verdict is counted. -/
theorem tally_insert (statuses : StringMap RoleStatus) (first rest : List (String × Counter))
    (v : String × Counter) : tally statuses (first ++ v :: rest) =
      (tally statuses (first ++ rest)).alter v.1 {} (·.count v.2) := by
  have hperm : (first ++ v :: rest).Perm ((first ++ rest) ++ [v]) :=
    List.perm_middle.trans (List.perm_append_singleton v _).symm
  have : RightCommutative fun (statuses : StringMap RoleStatus) (v : String × Counter) =>
      statuses.alter v.1 {} (·.count v.2) := ⟨alter_comm⟩
  rw [tally, hperm.foldl_eq, List.foldl_append]
  rfl

/-! ### One more pod of a job that goes on -/

/-- Where two tests differ in one number only, which the first one refuses, the second one counts at
most that one more. -/
theorem countP_range_of_one {p q : Nat → Bool} (hindex : index < n) (hp : p index = false)
    (hother : ∀ i < n, i ≠ index → p i = q i) :
    (List.range n).countP q = (List.range n).countP p + if q index then 1 else 0 := by
  induction n with
  | zero => omega
  | succ n ih =>
    rw [List.range_succ, List.countP_append, List.countP_append, List.countP_singleton,
      List.countP_singleton]
    by_cases hlast : index = n
    · subst hlast
      have hsame : (List.range index).countP q = (List.range index).countP p :=
        List.countP_congr fun i hi => by
          have hlt := List.mem_range.1 hi
          rw [hother i (by omega) (by omega)]
      rw [hsame, hp]
      simp
    · rw [ih (by omega) fun i hi => hother i (by omega), hother n (by omega) (Ne.symm hlast)]
      omega

theorem counterOf_insert_ne (hne : pod.name ≠ name) :
    counterOf (before ++ pod :: after) name = counterOf (before ++ after) name := by
  rw [counterOf, counterOf, podNamed?_congr]
  simp [List.filter_append, hne]

theorem counterOf_insert_self (hdistinct : ((before ++ pod :: after).map Pod.name).Nodup) :
    counterOf (before ++ pod :: after) pod.name = Counter.ofPhase? pod.phase? ∧
      counterOf (before ++ after) pod.name = none := by
  have hmem : pod ∈ before ++ pod :: after := List.mem_append_right _ List.mem_cons_self
  have hnone : podNamed? (before ++ after) pod.name = none := by
    rw [← Option.not_isSome_iff_eq_none, podNamed?_isSome]
    rintro ⟨other, hother, hname⟩
    have hmiddle : (before ++ pod :: after).Perm (pod :: (before ++ after)) := List.perm_middle
    have hperm := hmiddle.map Pod.name
    have hnot := (List.nodup_cons.1 (hperm.nodup_iff.1 hdistinct)).1
    exact hnot (hname ▸ List.mem_map_of_mem hother)
  rw [counterOf, counterOf, podNamed?_of_mem hdistinct hmem, hnone]
  exact ⟨rfl, rfl⟩

/-- A replica that joins the others is counted for its role. -/
theorem countReplicas_insert (hdistinct : ((before ++ pod :: after).map Pod.name).Nodup)
    (hname : pod.name = replicaName name role index) (hindex : index < n) (hn : n < 2 ^ 31)
    (hphase : Counter.ofPhase? pod.phase? = some c) :
    countReplicas (before ++ pod :: after) name role n 0 {} =
      (countReplicas (before ++ after) name role n 0 {}).count c := by
  obtain ⟨hself, hwithout⟩ := counterOf_insert_self hdistinct
  rw [hname] at hself hwithout
  refine RoleStatus.ext_number fun c' => ?_
  have hother : ∀ i < n, i ≠ index →
      (counterOf (before ++ after) (replicaName name role i) == some c') =
        (counterOf (before ++ pod :: after) (replicaName name role i) == some c') := by
    intro i hi hne
    rw [counterOf_insert_ne]
    rw [hname]
    intro heq
    exact hne (Names.pod_injective (by omega) (by omega) heq).2.symm
  have hcount := countP_range_of_one hindex (by simp [hwithout]) hother
  rw [RoleStatus.number_count, number_countReplicas, number_countReplicas, ← List.range_eq_range',
    hcount, hself, hphase, Int32.ofNat_add, Int32.add_assoc]
  simp

/-- A replica of one role that joins the others does not matter to another role. -/
theorem countReplicas_insert_ne {role' : String} (hrole : role' ≠ role)
    (hname : pod.name = replicaName name role index) (hindex : index < 2 ^ 31) (hn : n < 2 ^ 31) :
    countReplicas (before ++ pod :: after) name role' n 0 {} =
      countReplicas (before ++ after) name role' n 0 {} := by
  refine RoleStatus.ext_number fun c' => ?_
  rw [number_countReplicas, number_countReplicas]
  refine congrArg (fun k => _ + Int32.ofNat k) (List.countP_congr fun i hi => ?_)
  rw [counterOf_insert_ne]
  rw [hname]
  intro heq
  have hlt := List.mem_range'_1.1 hi
  exact hrole (Names.pod_injective (by omega) hindex heq.symm).1

theorem countRoles_insert {definition : Role}
    (hdistinct : ((before ++ pod :: after).map Pod.name).Nodup)
    (hrole : job.spec.roles.get? role = some definition) (hindex : index < definition.desiredReplicas)
    (hname : pod.name = replicaName name role index)
    (hphase : Counter.ofPhase? pod.phase? = some c) (statuses : StringMap RoleStatus) :
    countRoles (before ++ pod :: after) name job.spec.roles.toList statuses =
      (countRoles (before ++ after) name job.spec.roles.toList statuses).alter role {} (·.count c) := by
  have hn := definition.desiredReplicas_lt
  refine SortedMap.ext_get? fun k => ?_
  rw [SortedMap.alter, SortedMap.get?_insert]
  by_cases hk : k = role
  · rw [if_pos hk, hk, get?_countRoles_role hrole, get?_countRoles_role hrole,
      countReplicas_insert hdistinct hname hindex hn hphase, Option.getD_some]
  · rw [if_neg hk]
    cases hother : job.spec.roles.get? k with
    | none => rw [get?_countRoles_other hother, get?_countRoles_other hother]
    | some other =>
      rw [get?_countRoles_role hother, get?_countRoles_role hother,
        countReplicas_insert_ne hk hname (by omega) other.desiredReplicas_lt]

/-! ### The step -/

/-- Whether looking after these pods of a job, from this status on, can leave these numbers of its
roles: it does so in some store, which has nothing left of what it is told to delete. -/
def Leaves (job : Job) (identity : Identity) (status : JobStatus) (pods : List Pod)
    (numbers : StringMap RoleStatus) : Prop :=
  ∃ (σ : Type) (handler : Handler σ) (s : σ) (images : Images) (now : Instant)
    (outcome : PodsOutcome) (status' : JobStatus),
    (handler (.listPods job) s).1 = .ok pods ∧
    ((syncPods job identity images now status).run handler s).1 = .ok (outcome, status') ∧
    (∀ a ∈ (syncPods job identity images now status).history handler s, a.LeavesNothing) ∧
    status'.roleStatuses = numbers

/-- The numbers of the roles of a job after looking after these pods. -/
def settled (job : Job) (identity : Identity) (status : JobStatus) (pods : List Pod) :
    StringMap RoleStatus :=
  if pods.any Pod.requestsStop then tally (noNumbers job) (pods.filterMap (roleVerdict identity))
  else countRoles pods identity.name job.spec.roles.toList status.roleStatuses

theorem of_run_syncRoles {σ : Type} {handler : Handler σ} {s s' : σ} {images : Images}
    {roles : List (String × Role)} {statuses numbers : StringMap RoleStatus} {created created' : Nat}
    (h : (syncRoles job identity images pods roles statuses created).run handler s =
      (.ok (numbers, created'), s')) : numbers = countRoles pods identity.name roles statuses :=
  ((within_syncRoles fun _ he => he).run (I := fun _ => True) (fun _ _ _ _ => trivial) trivial).2 _
    (congrArg Prod.fst h)

theorem gone_of_leavesNothing {d : Deletion} (h : (d.answered identity).LeavesNothing) :
    d.gone = true := by
  obtain ⟨pod, answer⟩ := d
  cases answer with
  | ok u => rfl
  | error e => exact h

theorem Leaves.eq_settled {numbers : StringMap RoleStatus}
    (h : Leaves job identity status pods numbers) : numbers = settled job identity status pods := by
  obtain ⟨σ, handler, s, images, now, outcome, status', hlist, hrun, hgone, rfl⟩ := h
  have hperform : (Program.perform (.listPods job) PassError.listPods).run handler s =
      (.ok pods, (handler (.listPods job) s).2) :=
    Program.run_perform_eq_ok.2 (Prod.ext hlist rfl)
  rw [syncPods, Program.history_bind_of_ok hperform] at hgone
  rw [syncPods, Program.run_bind_of_ok hperform] at hrun
  have hstops : pods.any Pod.requestsStop = (pods.find? Pod.requestsStop).isSome := by
    rw [Bool.eq_iff_iff, List.find?_isSome, List.any_eq_true]
  rw [settled, hstops]
  cases hfind : pods.find? Pod.requestsStop with
  | some first =>
    obtain ⟨deletions, verdicts, s', hpods, hfinalize, hhistory⟩ :=
      run_finalize handler identity pods (noNumbers job) (handler (.listPods job) s).2
    simp only [hfind] at hrun hgone
    rw [Program.run_bind_of_ok hfinalize] at hrun
    rw [Program.history_bind_of_ok hfinalize, hhistory] at hgone
    cases hrun
    rw [Option.isSome_some, if_pos rfl, hpods.verdicts_eq fun d hd => gone_of_leavesNothing <|
      hgone _ (List.mem_append_right _ (List.mem_append_left _ (List.mem_map_of_mem hd)))]
  | none =>
    simp only [hfind] at hrun
    obtain ⟨⟨numbers, created⟩, t, hroles, hend⟩ := Program.run_bind_eq_ok.1 (Prod.ext hrun rfl)
    cases hend
    rw [Option.isSome_none, if_neg (by decide), of_run_syncRoles hroles]

end Pass

namespace Sample

/-- A store that lists these pods, and does all that it is told. -/
def obliging (pods : List Pod) : Handler Unit
  | .get .., s => (.ok none, s)
  | .create _ _ object, s => (.ok object, s)
  | .delete .., s => (.ok (), s)
  | .listPods _, s => (.ok pods, s)
  | .writeStatus _, s => (.ok (), s)

end Sample

namespace Pass

section Obliging

variable (identity : Identity) (images : Images) (pods : List Pod)

theorem run_createReplica_obliging {definition : Role}
    (hrole : job.spec.roles.get? role = some definition) :
    (createReplica job identity images role (Int32.ofNat index)).run (Sample.obliging pods) () =
      (.ok true, ()) := by
  obtain ⟨pod, hpod⟩ := replica_eq_ok hrole (Int32.ofNat index) images
  simp only [createReplica, hpod]
  rfl

theorem run_syncReplicas_obliging {definition : Role}
    (hrole : job.spec.roles.get? role = some definition) (remaining index : Nat)
    (counters : RoleStatus) (created : Nat) :
    ∃ r, (syncReplicas job identity images pods role remaining index counters created).run
      (Sample.obliging pods) () = (.ok r, ()) := by
  induction remaining generalizing index counters created with
  | zero => exact ⟨_, rfl⟩
  | succ remaining ih =>
    rw [syncReplicas]
    split
    · exact ih _ _ _
    · rw [Program.run_bind_of_ok (run_createReplica_obliging identity images pods hrole)]
      exact ih _ _ _

theorem run_syncRoles_obliging {roles : List (String × Role)}
    (hroles : ∀ r ∈ roles, job.spec.roles.get? r.1 = some r.2) (statuses : StringMap RoleStatus)
    (created : Nat) : ∃ r, (syncRoles job identity images pods roles statuses created).run
      (Sample.obliging pods) () = (.ok r, ()) := by
  induction roles generalizing statuses created with
  | nil => exact ⟨_, rfl⟩
  | cons r roles ih =>
    obtain ⟨⟨counters, created'⟩, hfirst⟩ := run_syncReplicas_obliging identity images pods
      (hroles _ List.mem_cons_self) r.2.desiredReplicas 0 {} created
    rw [syncRoles, Program.run_bind_of_ok hfirst]
    exact ih (fun r hr => hroles r (List.mem_cons_of_mem _ hr)) _ _

end Obliging

/-- The step can be taken on any pods. -/
theorem exists_leaves (job : Job) (identity : Identity) (status : JobStatus) (pods : List Pod) :
    ∃ numbers, Leaves job identity status pods numbers := by
  have hperform : (Program.perform (.listPods job) PassError.listPods).run (Sample.obliging pods) () =
      (.ok pods, ()) := rfl
  have hgone : ∀ a ∈ (syncPods job identity {} Sample.now status).history (Sample.obliging pods) (),
      a.LeavesNothing := by
    rintro ⟨call, answer⟩ ha
    obtain ⟨t, hanswer⟩ := Program.answer_of_mem_history ha
    change answer = (Sample.obliging pods call t).1 at hanswer
    subst hanswer
    cases call <;> trivial
  have hends : ∃ outcome status', ((syncPods job identity {} Sample.now status).run
      (Sample.obliging pods) ()).1 = .ok (outcome, status') := by
    rw [syncPods, Program.run_bind_of_ok hperform]
    split
    · obtain ⟨_, verdicts, _, _, hfinalize, _⟩ := run_finalize (Sample.obliging pods) identity pods
        (noNumbers job) ()
      rw [Program.run_bind_of_ok hfinalize]
      exact ⟨_, _, rfl⟩
    · obtain ⟨⟨numbers, created⟩, hroles⟩ := run_syncRoles_obliging identity {} pods
        (get?_roles job) status.roleStatuses 0
      rw [Program.run_bind_of_ok hroles]
      exact ⟨_, _, rfl⟩
  obtain ⟨outcome, status', hends⟩ := hends
  exact ⟨status'.roleStatuses, Unit, Sample.obliging pods, (), {}, Sample.now, outcome, status', rfl,
    hends, hgone, rfl⟩

theorem leaves_iff {numbers : StringMap RoleStatus} :
    Leaves job identity status pods numbers ↔ numbers = settled job identity status pods := by
  refine ⟨Leaves.eq_settled, ?_⟩
  rintro rfl
  obtain ⟨numbers, hleaves⟩ := exists_leaves job identity status pods
  exact hleaves.eq_settled ▸ hleaves

/-- Whether a pod of a role counts as this among others: looking after it with the others leaves the
numbers that looking after the others leaves, and one more. -/
def CountsAs (job : Job) (identity : Identity) (status : JobStatus) (before after : List Pod)
    (pod : Pod) (role : String) (c : Counter) : Prop :=
  ∃ numbers, (∀ m, Leaves job identity status (before ++ after) m ↔ m = numbers) ∧
    ∀ m, Leaves job identity status (before ++ pod :: after) m ↔
      m = numbers.alter role {} (·.count c)

theorem countsAs_of_settled
    (h : settled job identity status (before ++ pod :: after) =
      (settled job identity status (before ++ after)).alter role {} (·.count c)) :
    CountsAs job identity status before after pod role c :=
  ⟨_, fun _ => leaves_iff, fun _ => h ▸ leaves_iff⟩

/-- A pod counts as one thing only. -/
theorem CountsAs.unique {c' : Counter} (h : CountsAs job identity status before after pod role c)
    (h' : CountsAs job identity status before after pod role c') : c = c' := by
  obtain ⟨numbers, hothers, hall⟩ := h
  obtain ⟨numbers', hothers', hall'⟩ := h'
  obtain rfl : numbers = numbers' := (hothers' numbers).1 ((hothers numbers).2 rfl)
  have heq : numbers.alter role {} (·.count c) = numbers.alter role {} (·.count c') :=
    (hall' _).1 ((hall _).2 rfl)
  have hrole := congrArg (fun m => (m.get? role).map (RoleStatus.number · c)) heq
  simp only [SortedMap.alter, SortedMap.get?_insert_self, Option.map_some, Option.some.injEq,
    RoleStatus.number_count, Int32.add_right_inj] at hrole
  by_contra hne
  rw [if_pos trivial, if_neg (Ne.symm hne)] at hrole
  exact absurd hrole (by decide)

theorem countsAs_of_quiet {definition : Role} (hrole : job.spec.roles.get? role = some definition)
    (hindex : index < definition.desiredReplicas)
    (hname : pod.name = replicaName identity.name role index)
    (hphase : Counter.ofPhase? pod.phase? = some c)
    (hdistinct : ((before ++ pod :: after).map Pod.name).Nodup)
    (hquiet : ∀ other ∈ before ++ pod :: after, other.requestsStop = false) :
    CountsAs job identity status before after pod role c := by
  have hall : (before ++ pod :: after).any Pod.requestsStop = false :=
    List.any_eq_false.2 fun other hother => by simp [hquiet other hother]
  have hothers : (before ++ after).any Pod.requestsStop = false := by
    simp only [List.any_append, List.any_cons, Bool.or_eq_false_iff] at hall ⊢
    exact ⟨hall.1, hall.2.2⟩
  refine countsAs_of_settled ?_
  rw [settled, settled, hall, hothers, if_neg (by decide), if_neg (by decide),
    countRoles_insert hdistinct hrole hindex hname hphase]

theorem countsAs_of_stop (hrole : Names.role? identity.name pod.name = some role)
    (hstop : ∃ other ∈ before ++ after, other.requestsStop = true) :
    CountsAs job identity status before after pod role pod.verdict := by
  have hothers : (before ++ after).any Pod.requestsStop = true := List.any_eq_true.2 hstop
  have hall : (before ++ pod :: after).any Pod.requestsStop = true := by
    simp only [List.any_append, List.any_cons, Bool.or_eq_true] at hothers ⊢
    exact hothers.imp_right .inr
  have hverdict : roleVerdict identity pod = some (role, pod.verdict) := by
    rw [roleVerdict, hrole]
    rfl
  refine countsAs_of_settled ?_
  rw [settled, settled, hall, hothers, if_pos rfl, if_pos rfl, List.filterMap_append,
    List.filterMap_cons_some hverdict, tally_insert, List.filterMap_append]

end Pass

namespace Sample

/-- The first replica of the small job in this phase, with the exit codes of its containers. -/
def endedPod (phase : String) (codes : List Int32) : Pod :=
  { metadata := { name := some "train-worker-0" }
    status := some
      { phase := some phase
        containerStatuses := some <| codes.map fun code =>
          { name := "main", state := some { terminated := some { exitCode := code } } } } }

end Sample

namespace Pass

/-- A pod of a role that has succeeded or failed, and does not ask for the job to stop, counts as
completed or failed: while the job goes on as completed if its phase is that of success, and when the
job stops as completed if its first container has ended well or not at all. So it counts as the same
thing either way just when the phase and the first container agree. -/
theorem verdicts_compared (job : Job) (identity : Identity) {definition : Role}
    (hrole : job.spec.roles.get? role = some definition) (hnamed : role ≠ "")
    (hindex : index < definition.desiredReplicas) (hname : pod.name = replicaName identity.name role index)
    (hphase : pod.phase? = some "Succeeded" ∨ pod.phase? = some "Failed")
    (hcode : pod.exitCode? ≠ some stopExitCode) :
    ∃ ordinary final : Counter,
      (ordinary = .completed ∨ ordinary = .failed) ∧ (final = .completed ∨ final = .failed) ∧
      (ordinary = .completed ↔ pod.phase? = some "Succeeded") ∧
      (final = .completed ↔ pod.exitCode? = none ∨ pod.exitCode? = some 0) ∧
      (∀ status before after, ((before ++ pod :: after).map Pod.name).Nodup →
        (∀ other ∈ before ++ after, other.requestsStop = false) →
        CountsAs job identity status before after pod role ordinary) ∧
      (∀ status before after, (∃ other ∈ before ++ after, other.requestsStop = true) →
        CountsAs job identity status before after pod role final) ∧
      (ordinary = final ↔
        (pod.phase? = some "Succeeded" ↔ pod.exitCode? = none ∨ pod.exitCode? = some 0)) := by
  obtain ⟨ordinary, hcounter, hended, hsucceeded⟩ := Pod.counter_of_ended hphase
  have hfound : Names.role? identity.name pod.name = some role := by
    have hlt := definition.desiredReplicas_lt
    rw [hname, replicaName, Names.role?_pod (by omega), if_neg hnamed]
  have hquiet : pod.requestsStop = false := by simp [Pod.requestsStop, hcode]
  have hcompleted := Pod.verdict_eq_completed hcode
  refine ⟨ordinary, pod.verdict, hended, pod.verdict_ended, hsucceeded, hcompleted,
    fun status before after hdistinct hothers => ?_,
    fun status before after hstop => countsAs_of_stop hfound hstop, ?_⟩
  · refine countsAs_of_quiet hrole hindex hname hcounter hdistinct fun other hother => ?_
    rcases List.mem_cons.1 (List.perm_middle.mem_iff.1 hother) with rfl | hother
    · exact hquiet
    · exact hothers other hother
  · rw [← hsucceeded, ← hcompleted]
    exact Counter.eq_iff_of_ended hended pod.verdict_ended

/-- A pod whose only container has crashed counts as the same thing either way. -/
theorem verdicts_compared_crashed :
    let identity : Identity := ⟨"train", "default", "u1"⟩
    let pod := Sample.endedPod "Failed" [1]
    pod.phase? = some "Failed" ∧ pod.exitCode? = some 1 ∧
      ∃ c, CountsAs Sample.job identity {} [] [] pod "worker" c ∧
        CountsAs Sample.job identity {} [] [Sample.asking] pod "worker" c := by
  intro identity pod
  have hrole : Sample.job.spec.roles.get? "worker" = some { replicas := 2 } := rfl
  have hends : pod.name = replicaName identity.name "worker" 0 ∧ pod.phase? = some "Failed" ∧
      pod.exitCode? = some 1 := by decide +kernel
  obtain ⟨hname, hphase, hexit⟩ := hends
  obtain ⟨ordinary, final, -, -, -, -, hordinary, hfinal, hsame⟩ :=
    verdicts_compared Sample.job identity hrole (by decide) (by decide) hname (.inr hphase)
      (by rw [hexit]; decide)
  obtain rfl : ordinary = final := by
    rw [hsame, hphase, hexit]
    decide
  exact ⟨hphase, hexit, ordinary,
    hordinary {} [] [] (List.nodup_singleton _) fun _ hother => absurd hother List.not_mem_nil,
    hfinal {} [] [Sample.asking] ⟨Sample.asking, List.mem_singleton_self _, rfl⟩⟩

/-- Two pods that have failed: one lost its first container with the code of success, the other one was
evicted and has no containers to tell of. They count as failed while the job goes on, and as completed
when it stops. -/
theorem verdicts_differ :
    let identity : Identity := ⟨"train", "default", "u1"⟩
    ∀ pod ∈ [Sample.endedPod "Failed" [0, 1], Sample.endedPod "Failed" []],
      pod.name = replicaName "train" "worker" 0 ∧ pod.phase? = some "Failed" ∧
        pod.exitCode? ≠ some stopExitCode ∧
        ¬ ∃ c, CountsAs Sample.job identity {} [] [] pod "worker" c ∧
          CountsAs Sample.job identity {} [] [Sample.asking] pod "worker" c := by
  intro identity pod hpod
  have hrole : Sample.job.spec.roles.get? "worker" = some { replicas := 2 } := rfl
  have hends : pod.name = replicaName identity.name "worker" 0 ∧ pod.phase? = some "Failed" ∧
      pod.exitCode? ≠ some stopExitCode ∧ pod.requestsStop = false ∧ pod.verdict = .completed ∧
      Names.role? identity.name pod.name = some "worker" := by
    revert pod
    decide +kernel
  obtain ⟨hname, hphase, hcode, hquiet, hverdict, hfound⟩ := hends
  have hordinary : CountsAs Sample.job identity {} [] [] pod "worker" .failed :=
    countsAs_of_quiet hrole (by decide) hname (by rw [hphase]; rfl) (List.nodup_singleton _)
      fun other hother => by rw [List.mem_singleton.1 hother, hquiet]
  have hfinal : CountsAs Sample.job identity {} [] [Sample.asking] pod "worker" .completed :=
    hverdict ▸ countsAs_of_stop hfound ⟨Sample.asking, List.mem_singleton_self _, rfl⟩
  refine ⟨hname, hphase, hcode, ?_⟩
  rintro ⟨c, hc, hc'⟩
  cases (hordinary.unique hc).trans (hc'.unique hfinal)

end Pass

end JobOperator
