import JobOperator.Api.Key
import JobOperator.Json.Reader

/-!
The requests of an API client and the responses to them. A request is known by what it asks; the
method, path, query and body that carry it follow from that.
-/

namespace JobOperator

/-- Which objects of a collection a list is limited to, by one of their labels. -/
inductive LabelSelector where
  /-- The label has this value. -/
  | equals (label value : String)
  /-- The label has some value. -/
  | present (label : String)
  deriving DecidableEq, Repr

namespace LabelSelector

/-- The notation of a selector. -/
def text : LabelSelector → String
  | equals label value => label ++ "=" ++ value
  | present label => label

end LabelSelector

/-- What is done to objects. A list is told apart from reading one object. -/
inductive Verb where
  | get
  | list
  | post
  | delete
  | patch
  deriving DecidableEq, Repr

namespace Verb

/-- The method of a request. -/
def method : Verb → String
  | get | list => "GET"
  | post => "POST"
  | delete => "DELETE"
  | patch => "PATCH"

/-- The name of a verb. -/
def name : Verb → String
  | list => "LIST"
  | verb => verb.method

/-- The verb of this name. -/
def ofName? (name : String) : Option Verb :=
  [get, list, post, delete, patch].find? (·.name == name)

end Verb

/-- The name under which clients of this library change objects. -/
def fieldManager : String := "lp-operator"

/-- A request to an API server. -/
inductive Request where
  /-- Reads an object. -/
  | get (key : ObjectKey)
  /-- Lists the objects of a kind, in one namespace or in all, in pages of a size if one is given. -/
  | list (kind : Kind) (ns : Option String) (selector : Option LabelSelector) (limit : Option Nat)
  /-- Creates an object. -/
  | post (kind : Kind) (ns : String) (body : Json)
  /-- Deletes an object. -/
  | delete (key : ObjectKey)
  /-- Merges a patch into the status of an object. -/
  | patchStatus (key : ObjectKey) (patch : Json)
  deriving DecidableEq

namespace Request

/-- What a request does. -/
def verb : Request → Verb
  | get _ => .get
  | list .. => .list
  | post .. => .post
  | delete _ => .delete
  | patchStatus .. => .patch

/-- The kind of the objects that a request is about. -/
def kind : Request → Kind
  | get key | delete key | patchStatus key _ => key.kind
  | list kind _ _ _ | post kind _ _ => kind

/-- The name that an object to create has: its own, else the one it is generated from, else none. -/
def postedName (body : Json) : String :=
  let metadata := (body.get? "metadata").getD .null
  let field (key : String) : Option String := (metadata.get? key).bind Json.text?
  ((field "name").or (field "generateName")).getD ""

/-- The name of the object that a request is about, empty for a list. -/
def name : Request → String
  | get key | delete key | patchStatus key _ => key.name
  | post _ _ body => postedName body
  | list .. => ""

/-- The path of a collection, in one namespace or in all. -/
def collectionPath (kind : Kind) (ns : Option String) : String :=
  (if kind.apiVersion = "v1" then "/api/" else "/apis/") ++ kind.apiVersion ++
    (match ns with
      | some ns => "/namespaces/" ++ ns
      | none => "") ++
    "/" ++ kind.plural

/-- The path of an object. -/
def objectPath (key : ObjectKey) : String :=
  collectionPath key.kind (some key.namespace) ++ "/" ++ key.name

/-- The path of a request. -/
def path : Request → String
  | get key | delete key => objectPath key
  | patchStatus key _ => objectPath key ++ "/status"
  | list kind ns _ _ => collectionPath kind ns
  | post kind ns _ => collectionPath kind (some ns)

/-- The parameters of a request. -/
def query : Request → List (String × String)
  | get _ | delete _ => []
  | post .. | patchStatus .. => [("fieldManager", fieldManager)]
  | list _ _ selector limit =>
    (selector.map (fun s => ("labelSelector", s.text))).toList ++
      (limit.map (fun n => ("limit", String.ofList (Decimal.ofNat n)))).toList

/-- The body of a request, if it has one. -/
def body? : Request → Option Json
  | get _ | list .. => none
  | delete _ => some (.obj [])
  | post _ _ body | patchStatus _ body => some body

/-- The media type of the body, where it is not plain JSON. -/
def contentType? : Request → Option String
  | patchStatus .. => some "application/merge-patch+json"
  | _ => none

end Request

/-- What becomes of a request: the connection fails, or the server answers with a status and a body,
here as it is read. -/
inductive Response where
  | dropped
  | reply (code : Nat) (body : Json)
  deriving DecidableEq

namespace Response

/-- The status of a response, zero when there is none. -/
def code : Response → Nat
  | dropped => 0
  | reply code _ => code

end Response

/-- A way to have requests answered. -/
abbrev Transport (σ : Type) := Request → σ → Response × σ

end JobOperator
