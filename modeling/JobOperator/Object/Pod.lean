import JobOperator.Object.Meta
import JobOperator.Text.Decimal

/-! Pods: their templates, what runs in them, and how their containers fare. -/

namespace JobOperator

/-- An amount of a resource, kept as written. -/
structure Quantity where
  text : String
  deriving DecidableEq, Repr

namespace Quantity

/-- A quantity is text, or an integer that stands for its digits. -/
def codec : Codec Quantity where
  encode q := .str q.text
  decode
    | .str text => .ok ⟨text⟩
    | .num (.int n) => .ok ⟨String.ofList (Decimal.ofInt n)⟩
    | other => Codec.refuse other

end Quantity

/-- A variable in the environment of a container. -/
structure EnvVar where
  name : String
  value : Option String := none
  deriving DecidableEq, Repr

namespace EnvVar

def fields := Fields.cons (.zeroed "name" "" .string) <| .cons (.optional "value" .string) .nil

def codec : Codec EnvVar :=
  .lenientRecord fields (fun (name, value, ()) => { name, value })
    (fun v => (v.name, v.value, ()))

end EnvVar

/-- A port that a container opens. -/
structure ContainerPort where
  containerPort : Int32
  name : Option String
  protocol : Option String
  deriving DecidableEq, Repr

namespace ContainerPort

def fields := Fields.cons (.zeroed "containerPort" 0 .int32) <|
  .cons (.optional "name" .string) <|
  .cons (.optional "protocol" .string) .nil

def codec : Codec ContainerPort :=
  .lenientRecord fields
    (fun (containerPort, name, protocol, ()) => { containerPort, name, protocol })
    (fun p => (p.containerPort, p.name, p.protocol, ()))

end ContainerPort

/-- The resources a container may use and asks for. -/
structure ResourceRequirements where
  limits : Option (StringMap Quantity)
  requests : Option (StringMap Quantity)
  deriving DecidableEq, Repr

namespace ResourceRequirements

def fields := Fields.cons (.optional "limits" (.stringMap Quantity.codec)) <|
  .cons (.optional "requests" (.stringMap Quantity.codec)) .nil

def codec : Codec ResourceRequirements :=
  .lenientRecord fields (fun (limits, requests, ()) => { limits, requests })
    (fun r => (r.limits, r.requests, ()))

end ResourceRequirements

/-- A volume at a path of a container. -/
structure VolumeMount where
  name : String
  mountPath : String
  readOnly : Option Bool := none
  subPath : Option String := none
  deriving DecidableEq, Repr

namespace VolumeMount

def fields := Fields.cons (.zeroed "name" "" .string) <|
  .cons (.zeroed "mountPath" "" .string) <|
  .cons (.optional "readOnly" .bool) <|
  .cons (.optional "subPath" .string) .nil

def codec : Codec VolumeMount :=
  .lenientRecord fields
    (fun (name, mountPath, readOnly, subPath, ()) => { name, mountPath, readOnly, subPath })
    (fun m => (m.name, m.mountPath, m.readOnly, m.subPath, ()))

end VolumeMount

/-- A container of a pod. -/
structure Container where
  name : String
  image : Option String := none
  command : Option (List String) := none
  args : Option (List String) := none
  workingDir : Option String := none
  imagePullPolicy : Option String := none
  env : Option (List EnvVar) := none
  ports : Option (List ContainerPort) := none
  resources : Option ResourceRequirements := none
  volumeMounts : Option (List VolumeMount) := none
  deriving DecidableEq, Repr

namespace Container

def fields := Fields.cons (.zeroed "name" "" .string) <|
  .cons (.optional "image" .string) <|
  .cons (.optional "command" (.list .string)) <|
  .cons (.optional "args" (.list .string)) <|
  .cons (.optional "workingDir" .string) <|
  .cons (.optional "imagePullPolicy" .string) <|
  .cons (.optional "env" (.list EnvVar.codec)) <|
  .cons (.optional "ports" (.list ContainerPort.codec)) <|
  .cons (.optional "resources" ResourceRequirements.codec) <|
  .cons (.optional "volumeMounts" (.list VolumeMount.codec)) .nil

def codec : Codec Container :=
  .lenientRecord fields
    (fun (name, image, command, args, workingDir, imagePullPolicy, env, ports, resources,
        volumeMounts, ()) =>
      { name, image, command, args, workingDir, imagePullPolicy, env, ports, resources,
        volumeMounts })
    (fun c => (c.name, c.image, c.command, c.args, c.workingDir, c.imagePullPolicy, c.env, c.ports,
      c.resources, c.volumeMounts, ()))

end Container

/-- An empty directory that lives as long as its pod. -/
structure EmptyDirSource where
  medium : Option String := none
  sizeLimit : Option Quantity := none
  deriving DecidableEq, Repr

namespace EmptyDirSource

def fields := Fields.cons (.optional "medium" .string) <|
  .cons (.optional "sizeLimit" Quantity.codec) .nil

def codec : Codec EmptyDirSource :=
  .lenientRecord fields (fun (medium, sizeLimit, ()) => { medium, sizeLimit })
    (fun s => (s.medium, s.sizeLimit, ()))

end EmptyDirSource

/-- A path of the machine that runs the pod. -/
structure HostPathSource where
  path : String
  type : Option String
  deriving DecidableEq, Repr

namespace HostPathSource

def fields := Fields.cons (.zeroed "path" "" .string) <| .cons (.optional "type" .string) .nil

def codec : Codec HostPathSource :=
  .lenientRecord fields (fun (path, type, ()) => { path, type }) (fun s => (s.path, s.type, ()))

end HostPathSource

/-- The files of a config map. -/
structure ConfigMapSource where
  name : String
  «optional» : Option Bool := none
  deriving DecidableEq, Repr

namespace ConfigMapSource

def fields := Fields.cons (.zeroed "name" "" .string) <| .cons (.optional "optional" .bool) .nil

def codec : Codec ConfigMapSource :=
  .lenientRecord fields (fun (name, isOptional, ()) => ⟨name, isOptional⟩)
    (fun s => (s.name, s.optional, ()))

end ConfigMapSource

/-- The files of a secret. -/
structure SecretSource where
  secretName : Option String
  deriving DecidableEq, Repr

namespace SecretSource

def fields := Fields.cons (.optional "secretName" .string) .nil

def codec : Codec SecretSource :=
  .lenientRecord fields (fun (secretName, ()) => { secretName }) (fun s => (s.secretName, ()))

end SecretSource

/-- A volume of a pod, with what it holds. -/
structure Volume where
  name : String
  emptyDir : Option EmptyDirSource := none
  hostPath : Option HostPathSource := none
  configMap : Option ConfigMapSource := none
  secret : Option SecretSource := none
  deriving DecidableEq, Repr

namespace Volume

def fields := Fields.cons (.zeroed "name" "" .string) <|
  .cons (.optional "emptyDir" EmptyDirSource.codec) <|
  .cons (.optional "hostPath" HostPathSource.codec) <|
  .cons (.optional "configMap" ConfigMapSource.codec) <|
  .cons (.optional "secret" SecretSource.codec) .nil

def codec : Codec Volume :=
  .lenientRecord fields
    (fun (name, emptyDir, hostPath, configMap, secret, ()) =>
      { name, emptyDir, hostPath, configMap, secret })
    (fun v => (v.name, v.emptyDir, v.hostPath, v.configMap, v.secret, ()))

end Volume

/-- A taint that a pod tolerates. -/
structure Toleration where
  key : Option String
  operator : Option String
  value : Option String
  effect : Option String
  tolerationSeconds : Option Int64
  deriving DecidableEq, Repr

namespace Toleration

def fields := Fields.cons (.optional "key" .string) <|
  .cons (.optional "operator" .string) <|
  .cons (.optional "value" .string) <|
  .cons (.optional "effect" .string) <|
  .cons (.optional "tolerationSeconds" .int64) .nil

def codec : Codec Toleration :=
  .lenientRecord fields
    (fun (key, operator, value, effect, tolerationSeconds, ()) =>
      { key, operator, value, effect, tolerationSeconds })
    (fun t => (t.key, t.operator, t.value, t.effect, t.tolerationSeconds, ()))

end Toleration

/-- A reference to an object by its name. -/
structure LocalReference where
  name : String
  deriving DecidableEq, Repr

namespace LocalReference

def fields := Fields.cons (.zeroed "name" "" .string) .nil

def codec : Codec LocalReference :=
  .lenientRecord fields (fun (name, ()) => { name }) (fun r => (r.name, ()))

end LocalReference

/-- What a pod runs and where. -/
structure PodSpec where
  containers : List Container := []
  initContainers : Option (List Container) := none
  volumes : Option (List Volume) := none
  hostname : Option String := none
  subdomain : Option String := none
  restartPolicy : Option String := none
  schedulerName : Option String := none
  nodeSelector : Option (StringMap String) := none
  serviceAccountName : Option String := none
  priorityClassName : Option String := none
  hostNetwork : Option Bool := none
  terminationGracePeriodSeconds : Option Int64 := none
  imagePullSecrets : Option (List LocalReference) := none
  tolerations : Option (List Toleration) := none
  deriving DecidableEq, Repr

namespace PodSpec

def fields := Fields.cons (.zeroed "containers" [] (.list Container.codec)) <|
  .cons (.optional "initContainers" (.list Container.codec)) <|
  .cons (.optional "volumes" (.list Volume.codec)) <|
  .cons (.optional "hostname" .string) <|
  .cons (.optional "subdomain" .string) <|
  .cons (.optional "restartPolicy" .string) <|
  .cons (.optional "schedulerName" .string) <|
  .cons (.optional "nodeSelector" (.stringMap .string)) <|
  .cons (.optional "serviceAccountName" .string) <|
  .cons (.optional "priorityClassName" .string) <|
  .cons (.optional "hostNetwork" .bool) <|
  .cons (.optional "terminationGracePeriodSeconds" .int64) <|
  .cons (.optional "imagePullSecrets" (.list LocalReference.codec)) <|
  .cons (.optional "tolerations" (.list Toleration.codec)) .nil

def codec : Codec PodSpec :=
  .lenientRecord fields
    (fun (containers, initContainers, volumes, hostname, subdomain, restartPolicy, schedulerName,
        nodeSelector, serviceAccountName, priorityClassName, hostNetwork,
        terminationGracePeriodSeconds, imagePullSecrets, tolerations, ()) =>
      { containers, initContainers, volumes, hostname, subdomain, restartPolicy, schedulerName,
        nodeSelector, serviceAccountName, priorityClassName, hostNetwork,
        terminationGracePeriodSeconds, imagePullSecrets, tolerations })
    (fun s => (s.containers, s.initContainers, s.volumes, s.hostname, s.subdomain, s.restartPolicy,
      s.schedulerName, s.nodeSelector, s.serviceAccountName, s.priorityClassName, s.hostNetwork,
      s.terminationGracePeriodSeconds, s.imagePullSecrets, s.tolerations, ()))

end PodSpec

/-- What the pods of a role are made from. -/
structure PodTemplate where
  metadata : Option ObjectMeta := none
  spec : Option PodSpec := none
  deriving DecidableEq, Repr

namespace PodTemplate

def fields := Fields.cons (.optional "metadata" ObjectMeta.codec) <|
  .cons (.optional "spec" PodSpec.codec) .nil

def codec : Codec PodTemplate :=
  .lenientRecord fields (fun (metadata, spec, ()) => { metadata, spec })
    (fun t => (t.metadata, t.spec, ()))

end PodTemplate

/-- A container that runs. -/
structure RunningState where
  deriving DecidableEq, Repr

/-- A container that waits. -/
structure WaitingState where
  reason : Option String
  deriving DecidableEq, Repr

/-- A container that has ended. -/
structure TerminatedState where
  exitCode : Int32
  deriving DecidableEq, Repr

/-- The state of a container. -/
structure ContainerState where
  running : Option RunningState := none
  waiting : Option WaitingState := none
  terminated : Option TerminatedState := none
  deriving DecidableEq, Repr

namespace ContainerState

/-- Running states as objects. -/
def runningCodec : Codec RunningState := .lenientRecord .nil (fun () => {}) (fun _ => ())

/-- Waiting states as objects. -/
def waitingCodec : Codec WaitingState :=
  .lenientRecord (.cons (.optional "reason" .string) .nil) (fun (reason, ()) => { reason })
    (fun s => (s.reason, ()))

/-- Terminated states as objects. -/
def terminatedCodec : Codec TerminatedState :=
  .lenientRecord (.cons (.zeroed "exitCode" 0 .int32) .nil) (fun (exitCode, ()) => { exitCode })
    (fun s => (s.exitCode, ()))

def fields := Fields.cons (.optional "running" runningCodec) <|
  .cons (.optional "waiting" waitingCodec) <|
  .cons (.optional "terminated" terminatedCodec) .nil

def codec : Codec ContainerState :=
  .lenientRecord fields
    (fun (running, waiting, terminated, ()) => { running, waiting, terminated })
    (fun s => (s.running, s.waiting, s.terminated, ()))

end ContainerState

/-- How a container fares. -/
structure ContainerStatus where
  name : String
  image : String := ""
  imageID : String := ""
  ready : Bool := false
  restartCount : Int32 := 0
  state : Option ContainerState := none
  lastState : Option ContainerState := none
  deriving DecidableEq, Repr

namespace ContainerStatus

def fields := Fields.cons (.zeroed "name" "" .string) <|
  .cons (.zeroed "image" "" .string) <|
  .cons (.zeroed "imageID" "" .string) <|
  .cons (.zeroed "ready" false .bool) <|
  .cons (.zeroed "restartCount" 0 .int32) <|
  .cons (.optional "state" ContainerState.codec) <|
  .cons (.optional "lastState" ContainerState.codec) .nil

def codec : Codec ContainerStatus :=
  .lenientRecord fields
    (fun (name, image, imageID, ready, restartCount, state, lastState, ()) =>
      { name, image, imageID, ready, restartCount, state, lastState })
    (fun s => (s.name, s.image, s.imageID, s.ready, s.restartCount, s.state, s.lastState, ()))

end ContainerStatus

/-- How a pod fares. -/
structure PodStatus where
  phase : Option String := none
  reason : Option String := none
  message : Option String := none
  containerStatuses : Option (List ContainerStatus) := none
  initContainerStatuses : Option (List ContainerStatus) := none
  deriving DecidableEq, Repr

namespace PodStatus

def fields := Fields.cons (.optional "phase" .string) <|
  .cons (.optional "reason" .string) <|
  .cons (.optional "message" .string) <|
  .cons (.optional "containerStatuses" (.list ContainerStatus.codec)) <|
  .cons (.optional "initContainerStatuses" (.list ContainerStatus.codec)) .nil

def codec : Codec PodStatus :=
  .lenientRecord fields
    (fun (phase, reason, message, containerStatuses, initContainerStatuses, ()) =>
      { phase, reason, message, containerStatuses, initContainerStatuses })
    (fun s => (s.phase, s.reason, s.message, s.containerStatuses, s.initContainerStatuses, ()))

end PodStatus

/-- A pod. -/
structure Pod where
  metadata : ObjectMeta := {}
  spec : Option PodSpec := none
  status : Option PodStatus := none
  deriving DecidableEq, Repr

namespace Pod

def fields := Fields.cons (.constant "apiVersion" "v1") <|
  .cons (.constant "kind" "Pod") <|
  .cons (.zeroed "metadata" {} ObjectMeta.codec) <|
  .cons (.optional "spec" PodSpec.codec) <|
  .cons (.optional "status" PodStatus.codec) .nil

def codec : Codec Pod :=
  .lenientRecord fields
    (fun ((), (), metadata, spec, status, ()) => { metadata, spec, status })
    (fun p => ((), (), p.metadata, p.spec, p.status, ()))

/-- The phase of a pod that reports one. -/
def phase? (pod : Pod) : Option String := do (← pod.status).phase

/-- The exit code of the first container, once it has ended. -/
def exitCode? (pod : Pod) : Option Int32 := do
  let first ← (← (← pod.status).containerStatuses).head?
  return (← (← first.state).terminated).exitCode

end Pod

end JobOperator
