import JobOperator.Json.Codec

/-!
Records as objects. A record type is described once, by its fields in order, and the description
gives its writer and its reader. Members that no field names are ignored.
-/

namespace JobOperator

/-- One field of a record: the key of its member, other keys that name it too, how its value is read
and written, and what stands for a member that is missing from an object or from the end of an
array. A field whose writer gives `none` has no member. -/
structure Field (β : Type) where
  name : String
  aliases : List String := []
  read : Json → Except DecodeError β
  write : β → Option Json
  missing : Option β
  trailing : Option β

namespace Field

variable {β : Type}

/-- A member that must be present. -/
def required (name : String) (value : Codec β) : Field β where
  name
  read := value.decode
  write b := some (value.encode b)
  missing := none
  trailing := none

/-- A member with a default, always written. -/
def defaulted (name : String) (default : β) (value : Codec β) : Field β where
  name
  read := value.decode
  write b := some (value.encode b)
  missing := some default
  trailing := some default

/-- Reads a value for which `null` stands for none. -/
def readOption (value : Codec β) : Json → Except DecodeError (Option β)
  | .null => .ok none
  | other => (value.decode other).map some

/-- A member that may be missing or `null`, and is written when it has a value. -/
def optional (name : String) (value : Codec β) (aliases : List String := []) :
    Field (Option β) where
  name
  aliases
  read := readOption value
  write b := b.map value.encode
  missing := some none
  trailing := some none

/-- A member that may be missing or `null`, but not left off the end of an array. -/
def optionalInPlace (name : String) (value : Codec β) : Field (Option β) where
  name
  read := readOption value
  write b := b.map value.encode
  missing := some none
  trailing := none

/-- A member for which `null` and absence stand for `zero`, always written. -/
def zeroed (name : String) (zero : β) (value : Codec β) : Field β where
  name
  read json := (readOption value json).map (·.getD zero)
  write b := some (value.encode b)
  missing := some zero
  trailing := some zero

/-- A member that must be present and for which `null` stands for `zero`, always written. -/
def presentOr (name : String) (zero : β) (value : Codec β) : Field β :=
  { zeroed name zero value with missing := none, trailing := none }

/-- A member that, when present, holds one fixed text, always written. -/
def constant (name : String) (text : String) : Field Unit where
  name
  read
    | .str s => if s = text then .ok () else .error .mismatch
    | other => Codec.refuse other
  write _ := some (.str text)
  missing := some ()
  trailing := some ()

/-- Whether a key names the field. -/
def named (field : Field β) (key : String) : Bool := key == field.name || field.aliases.contains key

end Field

/-- The fields of a record, in order; the index is the product of their types. -/
inductive Fields : Type → Type 1 where
  | nil : Fields Unit
  | cons {β γ : Type} (field : Field β) (rest : Fields γ) : Fields (β × γ)

/-- What an object may do to a field more than once. -/
inductive Repetition where
  /-- A second member of a field is an error. -/
  | refused
  /-- The last member of a field counts. -/
  | lastCounts
  deriving DecidableEq, Repr

/-- A failure together with the place of the member that causes it. -/
abbrev Placed := Nat × DecodeError

/-- Both values, or the failure that comes first in the text. -/
def earliest {α β : Type} : Except Placed α → Except Placed β → Except Placed (α × β)
  | .ok a, .ok b => .ok (a, b)
  | .error e, .ok _ => .error e
  | .ok _, .error e => .error e
  | .error e, .error f => .error (if f.1 < e.1 then f else e)

/-- Reads a field from the members of an object, of which the first stands at `place`; `seen` is the
value of an earlier member. -/
def Field.readMembers {β : Type} (field : Field β) (repetition : Repetition) (place : Nat)
    (seen : Option β) : List (String × Json) → Except Placed β
  | [] =>
    match seen.or field.missing with
    | some b => .ok b
    | none => .error (place, .mismatch)
  | (key, value) :: rest =>
    if field.named key then
      if seen.isSome && repetition == .refused then .error (place, .mismatch)
      else
        match field.read value with
        | .ok b => field.readMembers repetition (place + 1) (some b) rest
        | .error e => .error (place, e)
    else field.readMembers repetition (place + 1) seen rest

namespace Fields

/-- Whether some field has this key. -/
def named {τ : Type} : Fields τ → String → Bool
  | .nil, _ => false
  | .cons field rest, key => field.named key || rest.named key

/-- Passes over the members that no field names. -/
def ignoreOthers {τ : Type} (fields : Fields τ) (place : Nat) :
    List (String × Json) → Except Placed Unit
  | [] => .ok ()
  | (key, value) :: rest =>
    if fields.named key then fields.ignoreOthers (place + 1) rest
    else
      match value.ignoredFault with
      | some fault => .error (place, .text fault)
      | none => fields.ignoreOthers (place + 1) rest

/-- Reads the fields from the members of an object. -/
def readMembers {τ : Type} (repetition : Repetition) (members : List (String × Json)) :
    Fields τ → Except Placed τ
  | .nil => .ok ()
  | .cons field rest =>
    earliest (field.readMembers repetition 0 none members) (rest.readMembers repetition members)

/-- Reads the fields from the items of an array, one after the other. -/
def readItems {τ : Type} : Fields τ → List Json → Except DecodeError τ
  | .nil, [] => .ok ()
  | .nil, .broken gap :: _ => .error (.text gap.asValue)
  | .nil, _ :: _ => .error (.text .malformed)
  | .cons field rest, [] =>
    match field.trailing with
    | some b => (rest.readItems []).map (b, ·)
    | none => .error .mismatch
  | .cons field rest, item :: items => do
    let b ← field.read item
    let bs ← rest.readItems items
    return (b, bs)

/-- The members of a record. -/
def write {τ : Type} : Fields τ → τ → List (String × Json)
  | .nil, () => []
  | .cons field rest, (b, bs) =>
    ((field.write b).map (field.name, ·)).toList ++ rest.write bs

/-- Reads a record from the members of an object. -/
def readObject {τ : Type} (repetition : Repetition) (fields : Fields τ)
    (members : List (String × Json)) : Except DecodeError τ :=
  match earliest (fields.ignoreOthers 0 members) (fields.readMembers repetition members) with
  | .ok (_, values) => .ok values
  | .error (_, e) => .error e

end Fields

namespace Codec

variable {τ α : Type}

/-- A record that may also be given as an array of its fields, and refuses repeated members. -/
def strictRecord (fields : Fields τ) (make : τ → α) (parts : α → τ) : Codec α where
  encode a := .obj (fields.write (parts a))
  decode
    | .obj members => (fields.readObject .refused members).map make
    | .arr items => (fields.readItems items).map make
    | other => refuse other

/-- A record that is always an object, where of repeated members the last counts. -/
def lenientRecord (fields : Fields τ) (make : τ → α) (parts : α → τ) : Codec α where
  encode a := .obj (fields.write (parts a))
  decode
    | .obj members => (fields.readObject .lastCounts members).map make
    | other => refuse other

end Codec

end JobOperator
