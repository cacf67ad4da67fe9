import JobOperator.Instant.Timestamp
import JobOperator.Json.Reader
import JobOperator.Object.ConfigMap
import JobOperator.Object.Pod

/-!
Jobs: worker pods grouped into named roles. Each role has a pod template, a number of replicas and a
program that its pods run. As a custom resource a job is strict: a field is given once, and a field
with a default may be missing but not `null`.
-/

namespace JobOperator

/-- Points in time, as timestamps. -/
def Codec.instant : Codec Instant where
  encode instant := .str instant.text
  decode
    | .str text =>
      match Instant.ofText? text with
      | some instant => .ok instant
      | none => .error .mismatch
    | other => refuse other

/-- A repository of source code. -/
structure GitSource where
  url : String
  username : String
  password : String
  deriving DecidableEq, Repr

namespace GitSource

def fields := Fields.cons (.required "url" .string) <|
  .cons (.defaulted "username" "" .string) <|
  .cons (.defaulted "password" "" .string) .nil

def codec : Codec GitSource :=
  .strictRecord fields (fun (url, username, password, ()) => { url, username, password })
    (fun s => (s.url, s.username, s.password, ()))

end GitSource

/-- An archive of source code in a bucket of an object store. -/
structure ObjectStoreSource where
  endpoint : String
  bucket : String
  path : String
  accessKey : String
  secretKey : String
  deriving DecidableEq, Repr

namespace ObjectStoreSource

def fields := Fields.cons (.required "endpoint" .string) <|
  .cons (.required "bucket" .string) <|
  .cons (.required "path" .string) <|
  .cons (.required "accessKey" .string) <|
  .cons (.required "secretKey" .string) .nil

def codec : Codec ObjectStoreSource :=
  .strictRecord fields
    (fun (endpoint, bucket, path, accessKey, secretKey, ()) =>
      { endpoint, bucket, path, accessKey, secretKey })
    (fun s => (s.endpoint, s.bucket, s.path, s.accessKey, s.secretKey, ()))

end ObjectStoreSource

/-- Where the source code of a job comes from. -/
structure SyncSource where
  git : Option GitSource
  objectStore : Option ObjectStoreSource
  deriving DecidableEq, Repr

namespace SyncSource

/-- The members of a source; an archive is also known by its older key. -/
def fields := Fields.cons (.optional "git" GitSource.codec) <|
  .cons (.optional "objectStore" ObjectStoreSource.codec ["minio"]) .nil

def codec : Codec SyncSource :=
  .strictRecord fields (fun (git, objectStore, ()) => { git, objectStore })
    (fun s => (s.git, s.objectStore, ()))

end SyncSource

/-- A group of replicas made from one template. -/
structure Role where
  replicas : Int32 := 1
  template : PodTemplate := {}
  executable : List UInt8 := []
  deriving DecidableEq, Repr

namespace Role

def fields := Fields.cons (.defaulted "replicas" 1 .int32) <|
  .cons (.defaulted "template" {} PodTemplate.codec) <|
  .cons (.defaulted "executable" [] .bytes) .nil

def codec : Codec Role :=
  .strictRecord fields
    (fun (replicas, template, executable, ()) => { replicas, template, executable })
    (fun r => (r.replicas, r.template, r.executable, ()))

/-- The number of pods a role should have: none where its replicas are negative. -/
def desiredReplicas (role : Role) : Nat := role.replicas.toInt.toNat

end Role

/-- What a job should be. -/
structure JobSpec where
  enableGangScheduling : Bool := false
  roles : StringMap Role := {}
  source : Option SyncSource := none
  deriving DecidableEq, Repr

namespace JobSpec

def fields := Fields.cons (.defaulted "enableGangScheduling" false .bool) <|
  .cons (.defaulted "roles" {} (.stringMap Role.codec)) <|
  .cons (.optional "source" SyncSource.codec) .nil

def codec : Codec JobSpec :=
  .strictRecord fields
    (fun (enableGangScheduling, roles, source, ()) => { enableGangScheduling, roles, source })
    (fun s => (s.enableGangScheduling, s.roles, s.source, ()))

end JobSpec

/-- The numbers of a role's pods. -/
structure RoleStatus where
  running : Int32 := 0
  completed : Int32 := 0
  failed : Int32 := 0
  deriving DecidableEq, Repr, Inhabited

namespace RoleStatus

def fields := Fields.cons (.required "running" .int32) <|
  .cons (.required "completed" .int32) <|
  .cons (.required "failed" .int32) .nil

def codec : Codec RoleStatus :=
  .strictRecord fields (fun (running, completed, failed, ()) => { running, completed, failed })
    (fun s => (s.running, s.completed, s.failed, ()))

end RoleStatus

/-- What is known of a job's course. -/
structure JobStatus where
  startTime : Option Instant := none
  completionTime : Option Instant := none
  lastReconcileTime : Option Instant := none
  roleStatuses : StringMap RoleStatus := {}
  deriving DecidableEq, Repr

namespace JobStatus

def fields := Fields.cons (.optional "startTime" .instant) <|
  .cons (.optional "completionTime" .instant) <|
  .cons (.optional "lastReconcileTime" .instant) <|
  .cons (.defaulted "roleStatuses" {} (.stringMap RoleStatus.codec)) .nil

def codec : Codec JobStatus :=
  .strictRecord fields
    (fun (startTime, completionTime, lastReconcileTime, roleStatuses, ()) =>
      { startTime, completionTime, lastReconcileTime, roleStatuses })
    (fun s => (s.startTime, s.completionTime, s.lastReconcileTime, s.roleStatuses, ()))

end JobStatus

/-- A job. -/
structure Job where
  metadata : ObjectMeta
  spec : JobSpec
  status : Option JobStatus := none
  deriving DecidableEq, Repr

namespace Job

/-- The version of the interface that jobs belong to. -/
def apiVersion : String := "realai.cn/v1alpha1"

/-- The kind of a job. -/
def kind : String := "LpJob"

def fields := Fields.cons (.required "metadata" ObjectMeta.codec) <|
  .cons (.required "spec" JobSpec.codec) <|
  .cons (.optionalInPlace "status" JobStatus.codec) .nil

def codec : Codec Job :=
  .withHeader [("apiVersion", apiVersion), ("kind", kind)] <|
    .strictRecord fields (fun (metadata, spec, status, ()) => { metadata, spec, status })
      (fun j => (j.metadata, j.spec, j.status, ()))

/-- Reads a job from a text. More text after the job is an error, once the job itself is read. -/
def ofText (text : Json.Text) : Except DecodeError Job := do
  let job ← codec.decode text.root
  if text.trailing then .error (.text .malformed) else return job

/-- The name of a job. -/
def name (job : Job) : String := job.metadata.nameAny

end Job

end JobOperator
