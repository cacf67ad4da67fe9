import JobOperator.Job.Replica
import JobOperator.Store.Call

/-! How a pass fails. A pass stops at its first failure. -/

namespace JobOperator

/-- The step of a pass that failed, with its cause. -/
inductive PassError where
  | missingNamespace (job : String)
  | missingUid (job : String)
  | loadJob (cause : StoreError)
  | syncConfigMap (cause : StoreError)
  | syncService (cause : StoreError)
  | syncPodGroup (cause : StoreError)
  | listPods (cause : StoreError)
  | buildPod (replica : String) (cause : ReplicaError)
  | createPod (pod : String) (cause : StoreError)
  | persistStatus (cause : StoreError)
  deriving DecidableEq, Repr

namespace PassError

/-- The failure of the store behind a failure of a pass. -/
def storeError? : PassError → Option StoreError
  | loadJob cause | syncConfigMap cause | syncService cause | syncPodGroup cause
  | listPods cause | createPod _ cause | persistStatus cause => some cause
  | missingNamespace _ | missingUid _ | buildPod .. => none

/-- The words of a failure, given those of the client's own failures. -/
def message (clientText : ClientError → String) : PassError → String
  | missingNamespace job => "LpJob '" ++ job ++ "' has no namespace"
  | missingUid job => "LpJob '" ++ job ++ "' has no uid, cannot own child objects"
  | loadJob cause => "Failed to load LpJob: " ++ cause.message clientText
  | syncConfigMap cause => "Failed to sync config map: " ++ cause.message clientText
  | syncService cause => "Failed to sync service: " ++ cause.message clientText
  | syncPodGroup cause => "Failed to sync pod group: " ++ cause.message clientText
  | listPods cause => "Failed to list pods: " ++ cause.message clientText
  | buildPod replica cause => "Failed to build pod '" ++ replica ++ "': " ++ cause.message
  | createPod pod cause => "Failed to create pod '" ++ pod ++ "': " ++ cause.message clientText
  | persistStatus cause => "Failed to persist status: " ++ cause.message clientText

end PassError

end JobOperator
