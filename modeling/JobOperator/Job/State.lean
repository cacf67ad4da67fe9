import JobOperator.Job.Basic

/-! What follows from a job: how far it has come, and how many pods it should have. -/

namespace JobOperator

/-- How far a job has come. -/
inductive JobState where
  | pending
  | running
  | complete
  deriving DecidableEq, Repr

/-- The state that a status speaks of: complete with a completion time, else running with a start
time, else pending. -/
def JobStatus.state (status : JobStatus) : JobState :=
  if status.completionTime.isSome then .complete
  else if status.startTime.isSome then .running
  else .pending

namespace Job

/-- The state of a job, which is pending as long as it has no status. -/
def state (job : Job) : JobState := (job.status.map JobStatus.state).getD .pending

/-- The largest number of replicas that can be written down. -/
def maxReplicas : Nat := 2147483647

/-- The pods that all roles should have, added up, at most `maxReplicas`. -/
def totalReplicas (job : Job) : Nat :=
  job.spec.roles.values.foldl (fun total role => min (total + role.desiredReplicas) maxReplicas) 0

end Job

end JobOperator
