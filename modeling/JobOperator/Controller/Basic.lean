import JobOperator.Config.Basic
import JobOperator.Pass.Basic

/-!
What a controller does about a job after a pass over it: it makes another pass after a delay, or
waits until the job changes. It only waits where a pass found nothing left to do.
-/

namespace JobOperator

/-- What passes are told by a configuration. -/
def Config.passSettings (config : Config) : PassSettings :=
  { images := config.images, servicePort := config.servicePort }

/-- What is done after a pass. -/
inductive Decision where
  /-- No pass is made until the job changes. -/
  | awaitChange
  /-- Another pass is made after this delay. -/
  | requeue (delay : Duration)
  deriving DecidableEq, Repr

namespace Decision

/-- What is done after a pass that ended like this. -/
def ofPass (requeue : Requeue) : Except PassError Outcome → Decision
  | .ok outcome => if outcome.isTerminal then .awaitChange else .requeue requeue.running
  | .error _ => .requeue requeue.error

end Decision

/-- The pass that a controller makes over a job it knows of: one over the job as it is stored by
then. A job is looked up by its namespace, so it must have one. -/
def Controller.pass (config : Config) (now : Instant) (job : Job) : Program PassError Outcome :=
  match job.metadata.namespace with
  | some ns => Pass.program config.passSettings now ns job.name
  | none => .fail (.missingNamespace job.name)

end JobOperator
