import JobOperator.Config.Reader

/-!
Which API server a client talks to. The configuration of clients names clusters, users, and contexts
that join the two, and says which context is in use.
-/

namespace JobOperator

open Yaml

/-- The server that a client talks to. -/
structure Access where
  server : String
  deriving DecidableEq, Repr

namespace Access

/-- The items of a list, which may be null. -/
def items? (document : Document) (node : Node) : Option (List Node) :=
  match document.resolve node with
  | .sequence items => some items
  | _ => if document.optionalText? node = some none then some [] else none

/-- A text that is required of members. -/
def requiredText? (document : Document) (members : List (String × Node)) (key : String) :
    Option String := do
  document.text? (← members.lookup key)

/-- A named thing: its name, and what stands for the thing under another key. -/
def named? (document : Document) (key : String) (node : Node) : Option (String × Option Node) := do
  let members ← document.members? node
  return (← requiredText? document members "name", members.lookup key)

/-- The members of the thing of this name. -/
def find? (document : Document) (things : List (String × Option Node)) (name : String) :
    Option (List (String × Node)) := do
  document.members? (← (← things.lookup name))

/-- The access that a configuration of clients gives: through the cluster of the context in use, as
its user if it has one. -/
def ofDocument? (document : Document) : Option Access := do
  let root ← document.members? document.root
  let list (key item : String) : Option (List (String × Option Node)) :=
    Document.member? root key [] fun node => do
      (← items? document node).mapM (named? document item)
  let contexts ← list "contexts" "context"
  let clusters ← list "clusters" "cluster"
  let users ← list "users" "user"
  let current ← (← Document.member? root "current-context" none document.optionalText?)
  let context ← find? document contexts current
  let cluster ← find? document clusters (← requiredText? document context "cluster")
  match ← Document.member? context "user" none document.optionalText? with
  | some user => let _ ← find? document users user
  | none => pure ()
  return { server := ← (← Document.member? cluster "server" none document.optionalText?) }

/-- The access that a text gives. -/
def ofText? (text : String) : Option Access := do ofDocument? (← (← Document.ofText? text))

end Access

end JobOperator
