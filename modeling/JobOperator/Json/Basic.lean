/-!
JSON documents. Reading a text never fails: where the text stops being JSON the document holds
`broken`, which every reader refuses, so that of two faults the one that stands first in the text is
the one reported.
-/

namespace JobOperator

/-- How a text fails to be JSON: it breaks the grammar, or it ends too early. -/
inductive Json.Fault where
  | malformed
  | truncated
  deriving DecidableEq, Repr

/-- A place where a text is not JSON. Reading it as a value fails with `asValue`; passing over it as
part of an ignored value fails with `skipped`, or not at all, since what is passed over need not
denote anything. A gap in the key of a member stops also a reader that would ignore the member. -/
structure Json.Gap where
  asValue : Fault
  skipped : Option Fault
  inKey : Bool := false
  deriving DecidableEq, Repr

/-- A number is an integer of 64 bits, signed or not, or any other number, kept as written. -/
inductive Json.Number where
  | int (value : Int)
  | decimal (text : String)
  deriving DecidableEq, Repr

/-- A JSON document with members in the order of the text. -/
inductive Json where
  | null
  | bool (value : Bool)
  | num (value : Json.Number)
  | str (value : String)
  | arr (items : List Json)
  | obj (members : List (String × Json))
  | broken (gap : Json.Gap)
  deriving Inhabited

namespace Json

mutual

/-- Equality of documents is decided member by member, in order. -/
def decideEq : (a b : Json) → Decidable (a = b)
  | .null, .null => isTrue rfl
  | .bool a, .bool b => if h : a = b then isTrue (by rw [h]) else isFalse (by simpa using h)
  | .num a, .num b => if h : a = b then isTrue (by rw [h]) else isFalse (by simpa using h)
  | .str a, .str b => if h : a = b then isTrue (by rw [h]) else isFalse (by simpa using h)
  | .broken a, .broken b => if h : a = b then isTrue (by rw [h]) else isFalse (by simpa using h)
  | .arr a, .arr b =>
    match decideItemsEq a b with
    | isTrue h => isTrue (by rw [h])
    | isFalse h => isFalse (by simpa using h)
  | .obj a, .obj b =>
    match decideMembersEq a b with
    | isTrue h => isTrue (by rw [h])
    | isFalse h => isFalse (by simpa using h)
  | .null, .bool _ | .null, .num _ | .null, .str _ | .null, .arr _ | .null, .obj _
  | .null, .broken _ => isFalse nofun
  | .bool _, .null | .bool _, .num _ | .bool _, .str _ | .bool _, .arr _ | .bool _, .obj _
  | .bool _, .broken _ => isFalse nofun
  | .num _, .null | .num _, .bool _ | .num _, .str _ | .num _, .arr _ | .num _, .obj _
  | .num _, .broken _ => isFalse nofun
  | .str _, .null | .str _, .bool _ | .str _, .num _ | .str _, .arr _ | .str _, .obj _
  | .str _, .broken _ => isFalse nofun
  | .arr _, .null | .arr _, .bool _ | .arr _, .num _ | .arr _, .str _ | .arr _, .obj _
  | .arr _, .broken _ => isFalse nofun
  | .obj _, .null | .obj _, .bool _ | .obj _, .num _ | .obj _, .str _ | .obj _, .arr _
  | .obj _, .broken _ => isFalse nofun
  | .broken _, .null | .broken _, .bool _ | .broken _, .num _ | .broken _, .str _
  | .broken _, .arr _ | .broken _, .obj _ => isFalse nofun

/-- Equality of lists of documents. -/
def decideItemsEq : (a b : List Json) → Decidable (a = b)
  | [], [] => isTrue rfl
  | [], _ :: _ | _ :: _, [] => isFalse nofun
  | a :: as, b :: bs =>
    match decideEq a b, decideItemsEq as bs with
    | isTrue h, isTrue hs => isTrue (by rw [h, hs])
    | isFalse h, _ => isFalse (by simp [h])
    | _, isFalse hs => isFalse (by simp [hs])

/-- Equality of lists of members. -/
def decideMembersEq : (a b : List (String × Json)) → Decidable (a = b)
  | [], [] => isTrue rfl
  | [], _ :: _ | _ :: _, [] => isFalse nofun
  | (j, a) :: as, (k, b) :: bs =>
    match decEq j k, decideEq a b, decideMembersEq as bs with
    | isTrue hk, isTrue h, isTrue hs => isTrue (by rw [hk, h, hs])
    | isFalse hk, _, _ => isFalse (by simp [hk])
    | _, isFalse h, _ => isFalse (by simp [h])
    | _, _, isFalse hs => isFalse (by simp [hs])

end

instance : DecidableEq Json := decideEq

mutual

/-- The first fault that passing over a document meets. -/
def skipFault : Json → Option Fault
  | .arr items => skipItemsFault items
  | .obj members => skipMembersFault members
  | .broken gap => gap.skipped
  | _ => none

/-- The first fault that passing over the items of an array meets. -/
def skipItemsFault : List Json → Option Fault
  | [] => none
  | item :: rest => (skipFault item).or (skipItemsFault rest)

/-- The first fault that passing over the members of an object meets. -/
def skipMembersFault : List (String × Json) → Option Fault
  | [] => none
  | (_, value) :: rest => (skipFault value).or (skipMembersFault rest)

end

/-- The fault that ignoring a member with this value meets. -/
def ignoredFault : Json → Option Fault
  | .broken ⟨asValue, skipped, inKey⟩ => if inKey then some asValue else skipped
  | value => value.skipFault

mutual

/-- Whether a document has no gap: the whole of its text denotes something. -/
def isWhole : Json → Bool
  | .arr items => itemsWhole items
  | .obj members => membersWhole members
  | .broken _ => false
  | _ => true

/-- Whether items have no gap. -/
def itemsWhole : List Json → Bool
  | [] => true
  | item :: rest => isWhole item && itemsWhole rest

/-- Whether members have no gap. -/
def membersWhole : List (String × Json) → Bool
  | [] => true
  | (_, value) :: rest => isWhole value && membersWhole rest

end

/-- A gap where nothing that fits has been found. -/
def gap (fault : Fault) : Json := .broken ⟨fault, some fault, false⟩

/-- The integer `n` as a document. -/
def int (n : Int) : Json := .num (.int n)

/-- The value of the last member with this key: a later member replaces an earlier one. -/
def lastMember? (key : String) (members : List (String × Json)) : Option Json :=
  (members.reverse.find? (·.1 == key)).map (·.2)

/-- The value under a key, of an object that has it. -/
def get? (key : String) : Json → Option Json
  | .obj members => lastMember? key members
  | _ => none

/-- The members of a document that is an object, and none of any other. -/
def membersOrNone : Json → List (String × Json)
  | .obj members => members
  | _ => []

/-- The text of a document that is one. -/
def text? : Json → Option String
  | .str s => some s
  | _ => none

/-- Members with the value of a key replaced in place, or added at the end. -/
def setMember (key : String) (value : Json) : List (String × Json) → List (String × Json)
  | [] => [(key, value)]
  | (k, v) :: rest => if k = key then (k, value) :: rest else (k, v) :: setMember key value rest

/-- Members without a key. -/
def eraseMember (key : String) (members : List (String × Json)) : List (String × Json) :=
  members.filter (·.1 ≠ key)

mutual

/-- The document in which of several members with one key only the last value is left, in the place
of the first: the value a text denotes. -/
def unrepeated : Json → Json
  | .arr items => .arr (unrepeatedItems items)
  | .obj members => .obj (unrepeatedMembers [] members)
  | other => other

/-- The items of an array with repeated members merged inside. -/
def unrepeatedItems : List Json → List Json
  | [] => []
  | item :: rest => unrepeated item :: unrepeatedItems rest

/-- Adds members to those found so far, each replacing an earlier one of its key. -/
def unrepeatedMembers (found : List (String × Json)) :
    List (String × Json) → List (String × Json)
  | [] => found
  | (key, value) :: rest => unrepeatedMembers (setMember key (unrepeated value) found) rest

end

end Json

end JobOperator
