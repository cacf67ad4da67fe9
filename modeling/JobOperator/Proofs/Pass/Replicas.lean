import JobOperator.Pass.Pods
import JobOperator.Proofs.Job.Names
import JobOperator.Proofs.Pass.Children

/-!
The pods of a job's replicas. Going through the replicas counts those that are seen, by what they
report, and creates the others; how they are counted depends on the pods only through the counter of
each name.
-/

namespace JobOperator

open Client

namespace Pass

variable {job : Job} {identity : Identity} {images : Images} {pods : List Pod}
  {cluster cluster' : Cluster}

/-! ### Counting -/

/-- What the pod of this name counts as, if it is seen and counts. -/
def counterOf (pods : List Pod) (name : String) : Option Counter :=
  (podNamed? pods name).bind fun pod => Counter.ofPhase? pod.phase?

/-- The name of a replica. -/
def replicaName (job role : String) (index : Nat) : String :=
  Names.pod job role (Int32.ofNat index)

/-- The numbers after going through replicas from `index` on. -/
def countReplicas (pods : List Pod) (job role : String) (remaining index : Nat)
    (counters : RoleStatus) : RoleStatus :=
  (List.range' index remaining).foldl
    (fun counters i => counters.countSome (counterOf pods (replicaName job role i))) counters

/-- The numbers of all roles after going through them. -/
def countRoles (pods : List Pod) (job : String) (roles : List (String × Role))
    (statuses : StringMap RoleStatus) : StringMap RoleStatus :=
  roles.foldl (fun statuses r =>
    statuses.insert r.1 (countReplicas pods job r.1 r.2.desiredReplicas 0 {})) statuses

theorem countRoles_eq (pods : List Pod) (job : String) (roles : List (String × Role))
    (statuses : StringMap RoleStatus) : countRoles pods job roles statuses =
      (roles.map fun r => (r.1, countReplicas pods job r.1 r.2.desiredReplicas 0 {})).foldl
        (fun statuses e => statuses.insert e.1 e.2) statuses := by
  rw [List.foldl_map]
  rfl

/-- A role that is gone through has its new numbers, any other the ones that it had. -/
theorem get?_countRoles (pods : List Pod) (job : String) (roles : List (String × Role))
    (statuses : StringMap RoleStatus) (k : String) :
    (countRoles pods job roles statuses).get? k =
      (SortedMap.lastValue? k (roles.map fun r =>
        (r.1, countReplicas pods job r.1 r.2.desiredReplicas 0 {}))).or (statuses.get? k) := by
  rw [countRoles_eq, SortedMap.get?_insertAll]

theorem exists_lastValue?_roles (pods : List Pod) (job : String) {roles : List (String × Role)}
    {k : String} (hk : k ∈ roles.map (·.1)) : ∃ numbers, SortedMap.lastValue? k (roles.map fun r =>
      (r.1, countReplicas pods job r.1 r.2.desiredReplicas 0 {})) = some numbers := by
  obtain ⟨r, hr, rfl⟩ := List.mem_map.1 hk
  have hmem : (r.1, countReplicas pods job r.1 r.2.desiredReplicas 0 {}) ∈ roles.map fun r =>
      (r.1, countReplicas pods job r.1 r.2.desiredReplicas 0 {}) := List.mem_map.2 ⟨r, hr, rfl⟩
  exact Option.isSome_iff_exists.1 (SortedMap.lastValue?_isSome hmem)

theorem isSome_countRoles {pods : List Pod} {job : String} {roles : List (String × Role)}
    {statuses : StringMap RoleStatus} {k : String} (hk : k ∈ roles.map (·.1)) :
    ((countRoles pods job roles statuses).get? k).isSome = true := by
  obtain ⟨numbers, hnumbers⟩ := exists_lastValue?_roles pods job hk
  rw [get?_countRoles, hnumbers]
  rfl

theorem get?_countRoles_of_notMem {pods : List Pod} {job : String} {roles : List (String × Role)}
    {statuses : StringMap RoleStatus} {k : String} (hk : k ∉ roles.map (·.1)) :
    (countRoles pods job roles statuses).get? k = statuses.get? k := by
  have hnone : SortedMap.lastValue? k (roles.map fun r =>
      (r.1, countReplicas pods job r.1 r.2.desiredReplicas 0 {})) = none := by
    refine SortedMap.lastValue?_eq_none ?_
    rw [List.map_map]
    exact hk
  rw [get?_countRoles, hnone, Option.none_or]

/-- The numbers follow from what counts under each name, and from the numbers of other roles. -/
theorem countRoles_congr {pods pods' : List Pod} {job : String} {roles : List (String × Role)}
    {statuses statuses' : StringMap RoleStatus}
    (hpods : ∀ name, counterOf pods name = counterOf pods' name)
    (hstatuses : ∀ k, k ∉ roles.map (·.1) → statuses.get? k = statuses'.get? k) :
    countRoles pods job roles statuses = countRoles pods' job roles statuses' := by
  have hcount : countReplicas pods = countReplicas pods' := by
    funext job role remaining index counters
    simp only [countReplicas, hpods]
  refine SortedMap.ext_get? fun k => ?_
  by_cases hk : k ∈ roles.map (·.1)
  · obtain ⟨numbers, hnumbers⟩ := exists_lastValue?_roles pods' job hk
    rw [get?_countRoles, get?_countRoles, hcount, hnumbers]
    rfl
  · rw [get?_countRoles_of_notMem hk, get?_countRoles_of_notMem hk, hstatuses k hk]

/-! ### Creating -/

/-- The pod of a replica of a known role, as a cluster keeps it. -/
def replicaEntry (job : Job) (identity : Identity) (images : Images) (role : String)
    (index : Nat) : List (ObjectKey × Json) :=
  match job.replica role (Int32.ofNat index) images with
  | .ok pod => [identity.entry .pod pod]
  | .error _ => []

/-- The pods of replicas from `index` on that are not seen. -/
def missingReplicas (job : Job) (identity : Identity) (images : Images) (pods : List Pod)
    (role : String) (remaining index : Nat) : List (ObjectKey × Json) :=
  (List.range' index remaining).flatMap fun i =>
    if (podNamed? pods (replicaName identity.name role i)).isSome then []
    else replicaEntry job identity images role i

/-- The pods of all roles that are not seen. -/
def missingPods (job : Job) (identity : Identity) (images : Images) (pods : List Pod)
    (roles : List (String × Role)) : List (ObjectKey × Json) :=
  roles.flatMap fun r => missingReplicas job identity images pods r.1 r.2.desiredReplicas 0

theorem replica_eq_ok {role : String} {definition : Role}
    (hrole : job.spec.roles.get? role = some definition) (index : Int32) (images : Images) :
    ∃ pod, job.replica role index images = .ok pod := by
  simp only [Job.replica, hrole]
  exact ⟨_, rfl⟩

theorem countReplicas_succ (pods : List Pod) (job role : String) (remaining index : Nat)
    (counters : RoleStatus) : countReplicas pods job role (remaining + 1) index counters =
      countReplicas pods job role remaining (index + 1)
        (counters.countSome (counterOf pods (replicaName job role index))) := rfl

theorem missingReplicas_succ (job : Job) (identity : Identity) (images : Images) (pods : List Pod)
    (role : String) (remaining index : Nat) :
    missingReplicas job identity images pods role (remaining + 1) index =
      (if (podNamed? pods (replicaName identity.name role index)).isSome then []
        else replicaEntry job identity images role index) ++
        missingReplicas job identity images pods role remaining (index + 1) := by
  simp only [missingReplicas, List.range'_succ, List.flatMap_cons]

theorem missing_replicaEntry_le (job : Job) (identity : Identity) (images : Images)
    (role : String) (index : Nat) (cluster : Cluster) :
    cluster.missing (replicaEntry job identity images role index) ≤ 1 := by
  simp only [replicaEntry]
  split
  · simp only [Cluster.missing]
    split <;> omega
  · exact Nat.zero_le 1

theorem run_createReplica (hns : identity.namespace.toList.all mayStandInPath = true)
    {role : String} {definition : Role} (hrole : job.spec.roles.get? role = some definition)
    (index : Nat) (cluster : Cluster) :
    (createReplica job identity images role (Int32.ofNat index)).run store cluster =
      (.ok (cluster.missing (replicaEntry job identity images role index) = 1 : Bool),
        cluster.addAll (replicaEntry job identity images role index)) := by
  obtain ⟨pod, hpod⟩ := replica_eq_ok hrole (Int32.ofNat index) images
  simp only [createReplica, replicaEntry, hpod]
  rw [run_createOwned (by decide) hns, Cluster.addAll_cons, Cluster.addAll_nil]
  cases h : cluster.contains (identity.entry .pod pod).1 <;> simp [Cluster.missing, h]

theorem run_syncReplicas (hns : identity.namespace.toList.all mayStandInPath = true)
    {role : String} {definition : Role} (hrole : job.spec.roles.get? role = some definition)
    (remaining index : Nat) (counters : RoleStatus) (created : Nat) (cluster : Cluster) :
    (syncReplicas job identity images pods role remaining index counters created).run store
        cluster =
      (.ok (countReplicas pods identity.name role remaining index counters,
        created + cluster.missing (missingReplicas job identity images pods role remaining index)),
        cluster.addAll (missingReplicas job identity images pods role remaining index)) := by
  induction remaining generalizing index counters created cluster with
  | zero => rfl
  | succ remaining ih =>
    rw [syncReplicas, countReplicas_succ, missingReplicas_succ]
    split
    · rename_i pod hpod
      have hseen : podNamed? pods (replicaName identity.name role index) = some pod := hpod
      simp only [ih, counterOf, hseen, Option.isSome_some, if_true, List.nil_append,
        Option.bind_some]
    · rename_i hpod
      have hseen : podNamed? pods (replicaName identity.name role index) = none := hpod
      simp only [Program.run_bind_of_ok (run_createReplica hns hrole index cluster), ih, counterOf,
        hseen, Option.isSome_none, Bool.false_eq_true, if_false, Option.bind_none,
        RoleStatus.countSome, Cluster.addAll_append, Cluster.missing_append]
      have hle := missing_replicaEntry_le job identity images role index cluster
      have hcreated : (if decide (cluster.missing (replicaEntry job identity images role index) = 1)
          then created + 1 else created) =
          created + cluster.missing (replicaEntry job identity images role index) := by
        by_cases h : cluster.missing (replicaEntry job identity images role index) = 1
        · simp [h]
        · simp only [h, decide_false, Bool.false_eq_true, if_false]
          omega
      rw [hcreated, Nat.add_assoc]

theorem run_syncRoles (hns : identity.namespace.toList.all mayStandInPath = true)
    {roles : List (String × Role)} (hroles : ∀ r ∈ roles, job.spec.roles.get? r.1 = some r.2)
    (statuses : StringMap RoleStatus) (created : Nat) (cluster : Cluster) :
    (syncRoles job identity images pods roles statuses created).run store cluster =
      (.ok (countRoles pods identity.name roles statuses,
        created + cluster.missing (missingPods job identity images pods roles)),
        cluster.addAll (missingPods job identity images pods roles)) := by
  induction roles generalizing statuses created cluster with
  | nil => rfl
  | cons r roles ih =>
    obtain ⟨name, role⟩ := r
    have hrole := hroles _ List.mem_cons_self
    rw [syncRoles, Program.run_bind_of_ok (run_syncReplicas hns hrole _ _ _ _ _),
      ih fun r hr => hroles r (List.mem_cons_of_mem _ hr)]
    simp only [missingPods, List.flatMap_cons, Cluster.addAll_append, Cluster.missing_append,
      Nat.add_assoc]
    rfl

end Pass

end JobOperator
