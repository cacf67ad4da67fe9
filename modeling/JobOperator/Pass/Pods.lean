import JobOperator.Job.Names
import JobOperator.Pass.Children

/-!
The pods of a job. As long as none of them asks for the job to stop, missing replicas are created
and the pods of each role are counted by phase. Once one asks, every pod is counted as completed or
failed, and those that have not ended are deleted.
-/

namespace JobOperator

/-- The exit code with which a pod asks for the whole job to stop. -/
def stopExitCode : Int32 := 25

namespace Pod

/-- The name of a pod. -/
def name (pod : Pod) : String := pod.metadata.nameAny

/-- Whether a pod asks for the whole job to stop. -/
def requestsStop (pod : Pod) : Bool :=
  pod.phase? == some "Failed" && pod.exitCode? == some stopExitCode

end Pod

/-- What a pod is counted as. -/
inductive Counter where
  | running
  | completed
  | failed
  deriving DecidableEq, Repr

namespace Counter

/-- What a pod in a phase is counted as, if it is counted. -/
def ofPhase? : Option String → Option Counter
  | some "Running" => some running
  | some "Succeeded" => some completed
  | some "Failed" => some failed
  | _ => none

/-- What a pod that has ended is counted as: completed after success or a request to stop. -/
def ofExitCode (code : Int32) : Counter :=
  if code = 0 ∨ code = stopExitCode then completed else failed

end Counter

/-- The numbers with one more pod. -/
def RoleStatus.count (status : RoleStatus) : Counter → RoleStatus
  | .running => { status with running := status.running + 1 }
  | .completed => { status with completed := status.completed + 1 }
  | .failed => { status with failed := status.failed + 1 }

/-- The numbers with one more pod if it is counted at all. -/
def RoleStatus.countSome (status : RoleStatus) (counter : Option Counter) : RoleStatus :=
  match counter with
  | some counter => status.count counter
  | none => status

namespace Pass

/-- The last pod of this name. -/
def podNamed? (pods : List Pod) (name : String) : Option Pod :=
  pods.reverse.find? (·.name == name)

/-- Creates the replica `index` of a role, and tells whether it did. -/
def createReplica (job : Job) (identity : Identity) (images : Images) (role : String)
    (index : Int32) : Program PassError Bool :=
  match job.replica role index images with
  | .error e =>
    .fail (.buildPod
      (String.ofList (role.toList ++ '/' :: Decimal.ofInt index.toInt)) e)
  | .ok pod =>
    createOwned identity .pod pod (.createPod (pod.metadata.name.getD ""))

/-- Goes through the last `remaining` replicas of a role from `index` on: counts those that are
there and creates the others. Gives the numbers and how many were created. -/
def syncReplicas (job : Job) (identity : Identity) (images : Images) (pods : List Pod)
    (role : String) : (remaining index : Nat) → (counters : RoleStatus) → (created : Nat) →
    Program PassError (RoleStatus × Nat)
  | 0, _, counters, created => .done (counters, created)
  | remaining + 1, index, counters, created =>
    match podNamed? pods (Names.pod identity.name role (Int32.ofNat index)) with
    | some pod =>
      syncReplicas job identity images pods role remaining (index + 1)
        (counters.countSome (Counter.ofPhase? pod.phase?)) created
    | none => do
      let isNew ← createReplica job identity images role (Int32.ofNat index)
      syncReplicas job identity images pods role remaining (index + 1) counters
        (if isNew then created + 1 else created)

/-- Goes through roles in the order of their names. -/
def syncRoles (job : Job) (identity : Identity) (images : Images) (pods : List Pod) :
    List (String × Role) → (statuses : StringMap RoleStatus) → (created : Nat) →
    Program PassError (StringMap RoleStatus × Nat)
  | [], statuses, created => .done (statuses, created)
  | (name, role) :: rest, statuses, created => do
    let (counters, created) ←
      syncReplicas job identity images pods name role.desiredReplicas 0 {} created
    syncRoles job identity images pods rest (statuses.insert name counters) created

/-- Counts pods for good. Those that have ended count by exit code; any other is deleted, and counts
as completed unless that fails. A pod that belongs to no role is passed over. -/
def finalize (identity : Identity) : List Pod → (statuses : StringMap RoleStatus) →
    Program PassError (StringMap RoleStatus)
  | [], statuses => .done statuses
  | pod :: rest, statuses =>
    match Names.role? identity.name pod.name with
    | none => finalize identity rest statuses
    | some role =>
      let counted (counter : Counter) := statuses.alter role {} (·.count counter)
      match pod.exitCode? with
      | some code => finalize identity rest (counted (.ofExitCode code))
      | none =>
        .call (.delete .pod identity.namespace pod.name) fun
          | .ok () => finalize identity rest (counted .completed)
          | .error e =>
            finalize identity rest (counted (if e.isNotFound then .completed else .failed))

/-- What became of the pods. -/
inductive PodsOutcome where
  /-- The job goes on, and this many pods were created. -/
  | progressing (created : Nat)
  /-- The job stops, as this pod asked. -/
  | stopped (requestedBy : String)
  deriving DecidableEq, Repr

/-- Looks after the pods of a job, and gives its status after that. -/
def syncPods (job : Job) (identity : Identity) (images : Images) (now : Instant)
    (status : JobStatus) : Program PassError (PodsOutcome × JobStatus) := do
  let pods ← Program.perform (.listPods job) .listPods
  match pods.find? Pod.requestsStop with
  | some pod =>
    let roleStatuses ← finalize identity pods (job.spec.roles.map (fun _ _ => {}))
    return (.stopped pod.name, { status with roleStatuses, completionTime := some now })
  | none =>
    let (roleStatuses, created) ←
      syncRoles job identity images pods job.spec.roles.toList status.roleStatuses 0
    return (.progressing created, { status with roleStatuses })

end Pass

end JobOperator
