import JobOperator.Api.Request
import JobOperator.Job.Ownership
import JobOperator.Job.Replica
import JobOperator.Store.Program

/-!
A client of an API server as a store. Each call is at most one request; what the response means is
decided here, and nothing is tried again.
-/

namespace JobOperator

/-- The client's reading of an error that a server reports. -/
structure ApiStatus where
  status : String
  message : String := ""
  reason : String := ""
  code : UInt16
  deriving DecidableEq, Repr

namespace ApiStatus

def fields := Fields.cons (.required "status" .string) <|
  .cons (.defaulted "message" "" .string) <|
  .cons (.defaulted "reason" "" .string) <|
  .cons (.required "code" .uint16) .nil

def codec : Codec ApiStatus :=
  .strictRecord fields
    (fun (status, message, reason, code, ()) => { status, message, reason, code })
    (fun s => (s.status, s.message, s.reason, s.code, ()))

end ApiStatus

/-- What a list tells besides its items. -/
structure ListMeta where
  continueToken : Option String := none
  remainingItemCount : Option Int64 := none
  resourceVersion : Option String := none
  selfLink : Option String := none
  deriving DecidableEq, Repr

namespace ListMeta

def fields := Fields.cons (.optional "continue" .string) <|
  .cons (.optional "remainingItemCount" .int64) <|
  .cons (.optional "resourceVersion" .string) <|
  .cons (.optional "selfLink" .string) .nil

def codec : Codec ListMeta :=
  .lenientRecord fields
    (fun (continueToken, remainingItemCount, resourceVersion, selfLink, ()) =>
      { continueToken, remainingItemCount, resourceVersion, selfLink })
    (fun m => (m.continueToken, m.remainingItemCount, m.resourceVersion, m.selfLink, ()))

end ListMeta

namespace Client

/-! ### Reading responses -/

/-- The reason given to an error whose body says none. -/
def unparsedReason : String := "Failed to parse error data"

/-- The error of a response with an error status: the one that its body describes, else one with the
status itself. -/
def apiError (code : Nat) (body : Json) : ClientError :=
  match ApiStatus.codec.decode body with
  | .ok status => .api status.code.toNat status.reason
  | .error _ => .api code unparsedReason

/-- The body of a response that reports no error. -/
def bodyOf : Response → Except ClientError Json
  | .dropped => .error .connection
  | .reply code body => if 400 ≤ code ∧ code < 600 then .error (apiError code body) else .ok body

/-- Reads the body of a response as a value. -/
def decodeBody {α : Type} (codec : Codec α) (body : Json) : Except ClientError α :=
  match codec.decode body with
  | .ok a => .ok a
  | .error _ => .error .unreadable

/-- The object in a response. -/
def objectOf (kind : Kind) (response : Response) : Except ClientError kind.Object := do
  decodeBody kind.codec (← bodyOf response)

/-- The reason by which a server says that an object is not there. -/
def notFoundReason : String := "NotFound"

/-- The object in a response, if there is one: an error that gives this as its reason, with any
code, tells that there is none. -/
def objectOf? (kind : Kind) (response : Response) : Except ClientError (Option kind.Object) :=
  match objectOf kind response with
  | .ok object => .ok (some object)
  | .error (.api code reason) =>
    if reason = notFoundReason then .ok none else .error (.api code reason)
  | .error e => .error e

/-- The members of a list that are read. A list without objects may give `null` for them. -/
def listFields (kind : Kind) :=
  Fields.cons (.presentOr "items" [] (.list kind.codec)) <|
    .cons (.defaulted "metadata" {} ListMeta.codec) .nil

/-- Reads a list of objects. -/
def decodeList (kind : Kind) : Json → Except DecodeError (List kind.Object)
  | .obj members => ((listFields kind).readObject .refused members).map (·.1)
  | other => Codec.refuse other

/-- The objects in a response to a list. -/
def listOf (kind : Kind) (response : Response) : Except ClientError (List kind.Object) := do
  match decodeList kind (← bodyOf response) with
  | .ok objects => .ok objects
  | .error _ => .error .unreadable

/-- Whether a response tells that an object was deleted: its body is a status, or the object. -/
def deletionOf (kind : Kind) (response : Response) : Except ClientError Unit := do
  let body ← bodyOf response
  if !body.isWhole then .error .unreadable
  else if body.get? "kind" = some (.str "Status") then .ok ()
  else
    let _ ← decodeBody kind.codec body
    .ok ()

/-- The failure of a call on an object. -/
def storeError (kind : Kind) (name : String) (cause : ClientError) : StoreError :=
  match cause with
  | .api 404 _ => .notFound kind name
  | .api 409 _ => .alreadyExists kind name
  | cause => .client kind name cause

/-! ### Making requests -/

/-- Whether a character may stand in a path as it is. A blank, a control character, an angle bracket or
a backtick makes a path invalid. A `#` or a `?` would end it, and the request would be about something
else; no server gives an object a name with one of them, and there is no request for such a name. -/
def mayStandInPath (c : Char) : Bool :=
  ' ' < c && !"#<>?\x60".toList.contains c

/-- Whether there is a path for objects of this namespace and name. -/
def hasPath (ns name : String) : Bool :=
  !name.isEmpty && name.toList.all mayStandInPath && ns.toList.all mayStandInPath

/-- The body that gives a job its status. -/
def statusPatch (job : Job) : Json :=
  .obj
    [ ("apiVersion", .str Job.apiVersion), ("kind", .str Job.kind),
      ("status", (job.status.map JobStatus.codec.encode).getD .null) ]

/-- The pods that a job may have in its namespace: those with its label. -/
def podsRequest (job : Job) (ns : String) : Request :=
  .list .pod (some ns) (some (.equals appLabel job.name)) none

/-- The result of a call about an object, where `hasRequest` tells whether there is a request for
it. -/
def perform {σ α : Type} (send : Transport σ) (hasRequest : Bool) (request : Request)
    (read : Response → Except ClientError α) (onError : ClientError → StoreError) (s : σ) :
    Except StoreError α × σ :=
  if hasRequest then
    let (response, s) := send request s
    ((read response).mapError onError, s)
  else (.error (onError .noRequest), s)

/-- The namespace of a job, without which nothing can be asked about it. -/
def namespaceOf (job : Job) : Except StoreError String :=
  match job.metadata.namespace with
  | some ns => .ok ns
  | none => .error (.rejected .job job.name "object has no namespace")

/-- The store of a client. -/
def handler {σ : Type} (send : Transport σ) : Handler σ
  | .get kind ns name, s =>
    perform send (hasPath ns name) (.get ⟨kind, ns, name⟩) (objectOf? kind) (storeError kind name) s
  | .create kind ns object, s =>
    let name := (kind.metadata object).nameAny
    perform send (ns.toList.all mayStandInPath) (.post kind ns (kind.codec.encode object))
      (objectOf kind) (storeError kind name) s
  | .delete kind ns name, s =>
    perform send (hasPath ns name) (.delete ⟨kind, ns, name⟩) (deletionOf kind)
      (storeError kind name) s
  | .listPods job, s =>
    match namespaceOf job with
    | .error e => (.error e, s)
    | .ok ns =>
      let (pods, s) := perform send (ns.toList.all mayStandInPath) (podsRequest job ns)
        (listOf .pod) (storeError .pod job.name) s
      (pods.map (·.filter (fun pod => job.controls pod.metadata)), s)
  | .writeStatus job, s =>
    match namespaceOf job with
    | .error e => (.error e, s)
    | .ok ns =>
      let (updated, s) := perform send (hasPath ns job.name)
        (.patchStatus ⟨.job, ns, job.name⟩ (statusPatch job)) (objectOf .job)
        (storeError .job job.name) s
      (updated.map (fun _ => ()), s)

end Client

end JobOperator
