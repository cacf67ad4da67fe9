import JobOperator.Api.Request
import JobOperator.Json.MergePatch

/-!
The objects of a cluster, and how an API server answers requests from them. Objects are kept as they
were posted; a request that is answered with an error changes nothing.
-/

namespace JobOperator

/-- The objects of a cluster. -/
abbrev Cluster := SortedMap ObjectKey Json

namespace Cluster

/-- The body of an answer that tells how a request ended. -/
def status (outcome : String) (more : List (String × Json)) : Json :=
  .obj ([("apiVersion", .str "v1"), ("kind", .str "Status"), ("status", .str outcome)] ++ more)

/-- An answer that refuses a request. -/
def failure (code : Nat) (reason : String) : Response :=
  .reply code (status "Failure" [("reason", .str reason), ("code", .int code)])

/-- The answer to a request for an object that is not there. -/
def notFound : Response := failure 404 "NotFound"

/-- The answer to a request to create an object whose name is taken. -/
def alreadyExists : Response := failure 409 "AlreadyExists"

/-- The value of a label of an object. -/
def label? (object : Json) (label : String) : Option Json := do
  let metadata ← object.get? "metadata"
  let labels ← metadata.get? "labels"
  labels.get? label

/-- Whether an object is one that a selector asks for. -/
def selected (object : Json) : LabelSelector → Bool
  | .equals label value => label? object label == some (.str value)
  | .present label => (label? object label).isSome

/-- The objects of a list, in the order of their names. -/
def listed (cluster : Cluster) (kind : Kind) (ns : Option String)
    (selector : Option LabelSelector) : List Json :=
  (cluster.toList.filter (fun e =>
    e.1.kind == kind && ns.all (· == e.1.namespace) && selector.all (selected e.2))).map (·.2)

/-- The body of an answer that lists objects. -/
def listBody (kind : Kind) (items : List Json) : Json :=
  .obj
    [ ("apiVersion", .str kind.apiVersion), ("kind", .str (kind.name ++ "List")),
      ("metadata", .obj []), ("items", .arr items) ]

/-- Answers a request. -/
def exchange (request : Request) (cluster : Cluster) : Response × Cluster :=
  match request with
  | .get key =>
    match cluster.get? key with
    | some object => (.reply 200 object, cluster)
    | none => (notFound, cluster)
  | .list kind ns selector _ => (.reply 200 (listBody kind (cluster.listed kind ns selector)), cluster)
  | .post kind ns body =>
    let key : ObjectKey := { kind, «namespace» := ns, name := Request.postedName body }
    if cluster.contains key then (alreadyExists, cluster)
    else (.reply 201 body, cluster.insert key body)
  | .delete key =>
    if cluster.contains key then (.reply 200 (status "Success" []), cluster.erase key)
    else (notFound, cluster)
  | .patchStatus key patch =>
    match cluster.get? key with
    | some object =>
      let patched := object.mergePatch patch
      (.reply 200 patched, cluster.insert key patched)
    | none => (notFound, cluster)

/-- The cluster in which an object has another status, if it has the object. -/
def setStatus? (cluster : Cluster) (key : ObjectKey) (status : Json) : Option Cluster :=
  (cluster.get? key).map fun object =>
    cluster.insert key (.obj (Json.setMember "status" status object.membersOrNone))

end Cluster

end JobOperator
