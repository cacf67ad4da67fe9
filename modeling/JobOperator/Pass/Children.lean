import JobOperator.Job.Ownership
import JobOperator.Job.State
import JobOperator.Pass.Error
import JobOperator.Store.Program

/-!
The objects that a job has one of: a config map with the programs of its roles, a service that makes
its pods known to each other, and a pod group when its pods are to be admitted together. Each is
looked up by the name of the job and created when it is missing; one that exists is left alone.
-/

namespace JobOperator

/-- What everything that belongs to a job refers to. -/
structure Identity where
  name : String
  «namespace» : String
  uid : String
  deriving DecidableEq, Repr

namespace Identity

/-- The identity of a job, which needs a namespace, and then a name and a uid of its own. -/
def ofJob (job : Job) : Except PassError Identity :=
  match job.metadata.namespace with
  | none => .error (.missingNamespace job.name)
  | some ns =>
    match job.metadata.name, job.metadata.uid with
    | some name, some uid => .ok { name, «namespace» := ns, uid }
    | _, _ => .error (.missingUid job.name)

/-- The metadata of an object that the job controls. -/
def adopt (identity : Identity) (metadata : ObjectMeta) : ObjectMeta :=
  { metadata with
    ownerReferences := some [Job.controllerReference identity.name identity.uid] }

/-- The name and namespace of an object that is named after the job. -/
def namesake (identity : Identity) : ObjectMeta :=
  { name := some identity.name, «namespace» := some identity.namespace }

end Identity

namespace Job

/-- The config map of a job: the program of each role. -/
def configMap (job : Job) (identity : Identity) : ConfigMap :=
  { metadata := identity.namesake
    binaryData := some (job.spec.roles.map (fun _ role => role.executable)) }

/-- The service of a job: it has no address of its own and stands for the job's pods. -/
def service (identity : Identity) (port : Int32) : Service :=
  let selector := (∅ : StringMap String).insert appLabel identity.name
  { metadata := { identity.namesake with labels := some selector }
    spec := some
      { ports := some [{ name := some identity.name, port }]
        selector := some selector
        clusterIP := some "None" } }

/-- The pod group of a job: it needs every replica, and has the annotations of the job. -/
def podGroup (job : Job) (identity : Identity) : PodGroup :=
  { metadata := { identity.namesake with annotations := job.metadata.annotations }
    spec := { minMember := Int32.ofNat job.totalReplicas } }

end Job

namespace Pass

/-- Creates an object that the job controls, and tells whether it did: the name may have been taken
in the meantime. -/
def createOwned (identity : Identity) (kind : Kind) (object : kind.Object)
    (onError : StoreError → PassError) : Program PassError Bool :=
  let owned := kind.withMetadata (identity.adopt (kind.metadata object)) object
  .call (.create kind identity.namespace owned) fun
    | .ok _ => .done true
    | .error e => if e.isAlreadyExists then .done false else .fail (onError e)

/-- Creates an object named after the job unless there is one, and tells whether it did. -/
def ensure (identity : Identity) (kind : Kind) (object : kind.Object)
    (onError : StoreError → PassError) : Program PassError Bool := do
  match ← Program.perform (.get kind identity.namespace identity.name) onError with
  | some _ => return false
  | none => createOwned identity kind object onError

/-- Creates the missing ones of the objects that the job has one of. -/
def syncChildren (job : Job) (identity : Identity) (port : Int32) : Program PassError Unit := do
  let _ ← ensure identity .configMap (job.configMap identity) .syncConfigMap
  let _ ← ensure identity .service (Job.service identity port) .syncService
  if job.spec.enableGangScheduling then
    let _ ← ensure identity .podGroup (job.podGroup identity) .syncPodGroup

end Pass

end JobOperator
