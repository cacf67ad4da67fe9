import JobOperator.Pass.Pods

/-!
A pass over one job: it reads the job, creates what is missing, and writes the status that follows
from what it saw. The status is written last, and only when every step before succeeded. A job with
a completion time is not touched again.
-/

namespace JobOperator

/-- How a pass ends. -/
inductive Outcome where
  /-- There is no such job. -/
  | missing
  /-- The job was complete before. -/
  | alreadyComplete
  /-- The job goes on, and this many pods were created. -/
  | progressing (created : Nat)
  /-- The job was completed, as this pod asked. -/
  | completed (requestedBy : String)
  deriving DecidableEq, Repr

namespace Outcome

/-- Whether the job needs no further pass. -/
def isTerminal : Outcome → Bool
  | progressing _ => false
  | _ => true

end Outcome

/-- What a pass is told by its configuration. -/
structure PassSettings where
  images : Images := {}
  servicePort : Int32 := 8001
  deriving DecidableEq, Repr

namespace Pass

/-- The status of a job at the start of a pass: the first pass starts it. -/
def begin (now : Instant) (status : JobStatus) : JobStatus :=
  { status with
    startTime := status.startTime.or (some now)
    lastReconcileTime := some now }

/-- The outcome that follows from what became of the pods. -/
def outcome : PodsOutcome → Outcome
  | .progressing created => .progressing created
  | .stopped requestedBy => .completed requestedBy

/-- A pass over a job that is not complete. -/
def ofJob (settings : PassSettings) (now : Instant) (job : Job) : Program PassError Outcome := do
  let identity ← Program.ofExcept (Identity.ofJob job)
  syncChildren job identity settings.servicePort
  let (pods, status) ←
    syncPods job identity settings.images now (begin now (job.status.getD {}))
  Program.perform (.writeStatus { job with status := some status }) .persistStatus
  return outcome pods

/-- A pass over the job of this namespace and name, at the time `now`. -/
def program (settings : PassSettings) (now : Instant) (ns name : String) :
    Program PassError Outcome := do
  match ← Program.perform (.get .job ns name) .loadJob with
  | none => return .missing
  | some job =>
    if JobState.complete = Job.state job then return .alreadyComplete
    else ofJob settings now job

end Pass

end JobOperator
