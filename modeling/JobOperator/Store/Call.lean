import JobOperator.Store.Kind

/-!
What a store can be asked, and how it fails. A call is answered once; nothing is tried again here.
-/

namespace JobOperator

/-- A call to a store. -/
inductive Call where
  /-- Reads an object. -/
  | get (kind : Kind) (ns name : String)
  /-- Creates an object, unless its name is taken. -/
  | create (kind : Kind) (ns : String) (object : kind.Object)
  /-- Deletes an object. -/
  | delete (kind : Kind) (ns name : String)
  /-- Lists the pods that a job controls. -/
  | listPods (job : Job)
  /-- Writes the status of a job. -/
  | writeStatus (job : Job)

/-- What a call is answered with when it succeeds. -/
@[reducible] def Call.Answer : Call → Type
  | .get kind _ _ => Option kind.Object
  | .create kind _ _ => kind.Object
  | .delete .. => Unit
  | .listPods _ => List Pod
  | .writeStatus _ => Unit

/-- Why a client of an API server has no result. -/
inductive ClientError where
  /-- The server answers with an error. -/
  | api (code : Nat) (reason : String)
  /-- The connection fails. -/
  | connection
  /-- The answer is not what was asked for. -/
  | unreadable
  /-- There is no request that asks this. -/
  | noRequest
  deriving DecidableEq, Repr

/-- Why a call fails on an object. -/
inductive StoreError where
  | notFound (kind : Kind) (name : String)
  | alreadyExists (kind : Kind) (name : String)
  | client (kind : Kind) (name : String) (cause : ClientError)
  | rejected (kind : Kind) (name reason : String)
  deriving DecidableEq, Repr

namespace StoreError

/-- Whether the object is not there. -/
def isNotFound : StoreError → Bool
  | notFound .. => true
  | _ => false

/-- Whether the name of the object is taken. -/
def isAlreadyExists : StoreError → Bool
  | alreadyExists .. => true
  | _ => false

/-- The kind of the object. -/
def kind : StoreError → Kind
  | notFound kind _ | alreadyExists kind _ | client kind _ _ | rejected kind _ _ => kind

/-- The name of the object. -/
def name : StoreError → String
  | notFound _ name | alreadyExists _ name | client _ name _ | rejected _ name _ => name

/-- The words of a failure, given those of the client's own failures. -/
def message (clientText : ClientError → String) : StoreError → String
  | notFound kind name => kind.name ++ " '" ++ name ++ "' not found"
  | alreadyExists kind name => kind.name ++ " '" ++ name ++ "' already exists"
  | client kind name cause =>
    "Kubernetes API error on " ++ kind.name ++ " '" ++ name ++ "': " ++ clientText cause
  | rejected kind name reason => kind.name ++ " '" ++ name ++ "' was rejected: " ++ reason

end StoreError

end JobOperator
