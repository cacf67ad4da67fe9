import JobOperator.Job.Names
import JobOperator.Job.Source

/-!
The pod of one replica of a role: the template of the role, with a name, a host name and the labels
that the job knows it by, and with the volumes that hold its program and its source code.
-/

namespace JobOperator

/-- Why a replica has no pod. -/
inductive ReplicaError where
  | unknownRole (role : String)
  deriving DecidableEq, Repr

/-- The words of a failure. -/
def ReplicaError.message : ReplicaError → String
  | .unknownRole role => "Role '" ++ role ++ "' is not defined in the job"

/-- The label whose value is the name of the job that an object belongs to. -/
def appLabel : String := "app"

/-- The annotation that keeps other containers from being added to a pod. -/
def sidecarAnnotation : String := "sidecar.istio.io/inject"

/-- The annotation that names the pod group of a pod. -/
def groupAnnotation : String := "scheduling.k8s.io/group-name"

/-- The annotation that names the role of a pod in its group. -/
def taskAnnotation : String := "volcano.sh/task-spec"

/-- The scheduler that admits pod groups. -/
def gangScheduler : String := "volcano"

/-- The volume that holds the programs of a job. -/
def configVolume : String := "config"

namespace Job

/-- The volumes that a pod of the job has besides those of its template. -/
def volumes (job : Job) : List Volume :=
  { name := configVolume, configMap := some { name := job.name } } ::
  if job.spec.source.isSome then
    [ { name := sourceVolume, emptyDir := some {} },
      { name := dependencyVolume, emptyDir := some {} } ]
  else []

/-- The mounts that every container of a pod has besides those of its template. -/
def mounts (job : Job) : List VolumeMount :=
  { name := configVolume, mountPath := "/etc/config", readOnly := some true } ::
  if job.spec.source.isSome then
    [ { name := sourceVolume, mountPath := "/workdir" },
      { name := dependencyVolume, mountPath := sitePackages } ]
  else []

/-- The labels of a pod, given those of its template. -/
def podLabels (job : Job) (labels : StringMap String) : StringMap String :=
  labels.insert appLabel job.name

/-- The annotations of a pod of a role, given those of its template. -/
def podAnnotations (job : Job) (role : String) (annotations : StringMap String) :
    StringMap String :=
  let annotations := annotations.insert sidecarAnnotation "false"
  if job.spec.enableGangScheduling then
    (annotations.insert groupAnnotation job.name).insert taskAnnotation role
  else annotations

/-- What the replica `index` of a role runs, given the specification of its template. -/
def podSpec (job : Job) (role : String) (index : Int32) (images : Images) (spec : PodSpec) :
    PodSpec :=
  { spec with
    containers := spec.containers.map (fun c =>
      { c with volumeMounts := some (c.volumeMounts.getD [] ++ job.mounts) })
    initContainers :=
      match job.spec.source with
      | some source => some (spec.initContainers.getD [] ++ source.containers images)
      | none => spec.initContainers
    volumes := some (spec.volumes.getD [] ++ job.volumes)
    hostname := some (Names.host role index)
    subdomain := some job.name
    restartPolicy := some "Never"
    schedulerName :=
      if job.spec.enableGangScheduling then some gangScheduler else spec.schedulerName }

/-- The pod of the replica `index` of a role. -/
def replica (job : Job) (role : String) (index : Int32) (images : Images) :
    Except ReplicaError Pod :=
  match job.spec.roles.get? role with
  | none => .error (.unknownRole role)
  | some definition =>
    let metadata := definition.template.metadata.getD {}
    .ok
      { metadata :=
          { name := some (Names.pod job.name role index)
            «namespace» := job.metadata.namespace
            labels := some (job.podLabels (metadata.labels.getD {}))
            annotations := some (job.podAnnotations role (metadata.annotations.getD {})) }
        spec := some (job.podSpec role index images (definition.template.spec.getD {})) }

end Job

end JobOperator
