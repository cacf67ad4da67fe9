import JobOperator.Job.Basic

/-! Which objects a job controls. -/

namespace JobOperator

namespace Job

/-- The reference by which a job of this name and uid controls an object. -/
def controllerReference (name uid : String) : OwnerReference :=
  { apiVersion, kind, name, uid, controller := some true }

/-- Whether a reference says that the job controls the object: it names a controller of the job's
kind and name, and of its uid if it has one. -/
def isControllerIn (job : Job) (owner : OwnerReference) : Bool :=
  owner.controller == some true && owner.kind == kind && owner.apiVersion == apiVersion &&
    owner.name == job.name && job.metadata.uid.all (· == owner.uid)

/-- Whether the job controls the object with this metadata. -/
def controls (job : Job) (metadata : ObjectMeta) : Bool :=
  (metadata.ownerReferences.getD []).any job.isControllerIn

end Job

end JobOperator
