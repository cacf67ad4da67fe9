import JobOperator.Config.Basic
import JobOperator.Yaml.Node

/-!
Reading settings from a file. A file is a YAML mapping; keys that no setting has are ignored, and a
key of a setting is given once.
-/

namespace JobOperator

namespace Yaml.Document

variable (document : Document)

/-- The entries of a mapping. An empty place is a mapping without entries. -/
def entries? (node : Node) : Option (List (Node × Node)) :=
  match document.resolve node with
  | .mapping entries => some entries
  | .scalar "" .plain _ => some []
  | _ => none

/-- The text of a scalar, however it is written. -/
def text? (node : Node) : Option String :=
  match document.resolve node with
  | .scalar text _ _ => some text
  | _ => none

/-- The entries of a mapping with their keys as texts. -/
def members? (node : Node) : Option (List (String × Node)) := do
  (← document.entries? node).mapM fun (key, value) => do return (← document.text? key, value)

/-- Whether a text is one for the absence of a value. -/
def isNull (text : String) : Bool := ["null", "Null", "NULL", "~"].contains text

/-- The name of a tag that the schema defines. -/
def coreTag (name : String) : String := "tag:yaml.org,2002:" ++ name

/-- The text of a scalar that may stand for none: a plain one that is empty or null. With a tag, only
the null one can, and must. -/
def optionalText? (node : Node) : Option (Option String) :=
  match document.resolve node with
  | .scalar text .plain none => some (if text.isEmpty || isNull text then none else some text)
  | .scalar text .plain (some tag) =>
    if tag = coreTag "null" then if isNull text then some none else none else some (some text)
  | .scalar text _ _ => some (some text)
  | _ => none

/-- The value of a digit up to 15. -/
def digit? (c : Char) : Option Nat := Scalar.hexDigit? c

/-- The number that digits of a base denote. -/
def number? (base : Nat) (digits : List Char) : Option Nat :=
  if digits.isEmpty then none
  else
    digits.foldlM (fun n c => do
      let digit ← digit? c
      if digit < base then some (n * base + digit) else none) 0

/-- The number that a text without sign denotes: decimal without leading zeros, or hexadecimal,
octal or binary after a mark. -/
def magnitude? : List Char → Option Nat
  | '0' :: 'x' :: digits => number? 16 digits
  | '0' :: 'o' :: digits => number? 8 digits
  | '0' :: 'b' :: digits => number? 2 digits
  | ['0'] => some 0
  | '0' :: _ => none
  | digits => number? 10 digits

/-- The integer that a text denotes, if it has 64 bits. -/
def integer? (text : String) : Option Int64 := do
  let n : Int ← match text.toList with
    | '-' :: digits => (magnitude? digits).map (fun n => -(n : Int))
    | '+' :: digits => (magnitude? digits).map (fun n => (n : Int))
    | digits => (magnitude? digits).map (fun n => (n : Int))
  if Int64.minValue.toInt ≤ n ∧ n ≤ Int64.maxValue.toInt then some (Int64.ofInt n) else none

/-- The integer of a scalar: a plain one, or a literal one with the tag of integers. -/
def int64? (node : Node) : Option Int64 :=
  match document.resolve node with
  | .scalar text .plain _ => integer? text
  | .scalar text .literal (some tag) => if tag = coreTag "int" then integer? text else none
  | _ => none

/-- The span of time of a scalar. -/
def duration? (node : Node) : Option Duration := do Duration.ofText? (← document.text? node)

/-- The value of a member that has a usual value, read by `read`; the member is given once. -/
def member? {α : Type} (members : List (String × Node)) (key : String) (usual : α)
    (read : Node → Option α) : Option α :=
  match members.filter (·.1 == key) with
  | [] => some usual
  | [(_, value)] => read value
  | _ => none

end Yaml.Document

open Yaml in
/-- The images of a document. -/
def ImageSettings.ofNode? (document : Document) (node : Node) : Option ImageSettings := do
  let members ← document.members? node
  let gitSync ← Document.member? members ImageKey.gitSync.name none document.optionalText?
  let objectStore ← Document.member? members ImageKey.objectStore.name none document.optionalText?
  let dependencyInstaller ←
    Document.member? members ImageKey.dependencyInstaller.name none document.optionalText?
  return { gitSync, objectStore, dependencyInstaller }

open Yaml in
/-- The delays of a document. -/
def Requeue.ofNode? (document : Document) (node : Node) : Option Requeue := do
  let usual : Requeue := {}
  let members ← document.members? node
  let running ← Document.member? members "running" usual.running document.duration?
  let error ← Document.member? members "error" usual.error document.duration?
  return { running, error }

namespace Settings

open Yaml in
/-- The settings of a document. -/
def ofDocument? (document : Document) : Option Settings := do
  let usual : Settings := {}
  let members ← document.members? document.root
  let «namespace» ← Document.member? members "namespace" none document.optionalText?
  let images ← Document.member? members "images" {} (ImageSettings.ofNode? document)
  let servicePort ← Document.member? members "servicePort" usual.servicePort document.int64?
  let requeue ← Document.member? members "requeue" {} (Requeue.ofNode? document)
  return { «namespace», images, servicePort, requeue }

/-- The settings that a text gives: none where it is blank. -/
def ofText? (text : String) : Option Settings :=
  if Text.allBlank text then some {}
  else
    match Yaml.Document.ofText? text with
    | none => none
    | some none => some {}
    | some (some document) => ofDocument? document

end Settings

/-- Why a file gives no configuration. -/
inductive ConfigError where
  /-- There is no such file. -/
  | missing
  /-- The file is not a text. -/
  | notText
  /-- The text does not give settings. -/
  | malformed
  /-- The settings cannot be used. -/
  | invalid (cause : SettingsError)
  deriving DecidableEq, Repr

namespace Config

/-- The configuration that a text gives. -/
def ofText (text : String) : Except ConfigError Config :=
  match Settings.ofText? text with
  | none => .error .malformed
  | some settings => settings.check.mapError .invalid

/-- The configuration that the bytes of a file give, if there is one. -/
def ofFile (bytes : Option ByteArray) : Except ConfigError Config :=
  match bytes with
  | none => .error .missing
  | some bytes =>
    match String.fromUTF8? bytes with
    | none => .error .notText
    | some text => ofText text

end Config

end JobOperator
