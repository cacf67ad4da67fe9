import JobOperator.Json.Basic
import JobOperator.SortedMap

/-!
Codecs pair the writer of a type with its reader. A reader reports the first fault of a document in
the order of its text: a place that is not JSON, or a value that does not fit.
-/

namespace JobOperator

/-- Why a document does not hold a value: the text is not JSON, or the value does not fit. -/
inductive DecodeError where
  | text (fault : Json.Fault)
  | mismatch
  deriving DecidableEq, Repr

/-- A writer and a reader of one type. -/
structure Codec (α : Type) where
  encode : α → Json
  decode : Json → Except DecodeError α

namespace Codec

/-- Reading gives back the value that was written. -/
def RoundTrips {α : Type} (codec : Codec α) (a : α) : Prop := codec.decode (codec.encode a) = .ok a

/-- The failure of a document that does not fit. -/
def refuse {α : Type} : Json → Except DecodeError α
  | .broken gap => .error (.text gap.asValue)
  | _ => .error .mismatch

/-- Text. -/
def string : Codec String where
  encode := .str
  decode
    | .str s => .ok s
    | other => refuse other

/-- A truth value. -/
def bool : Codec Bool where
  encode := .bool
  decode
    | .bool b => .ok b
    | other => refuse other

/-- Reads an integer between two bounds. -/
def decodeInt (low high : Int) : Json → Except DecodeError Int
  | .num (.int n) => if low ≤ n ∧ n ≤ high then .ok n else .error .mismatch
  | other => refuse other

/-- An integer of 32 bits with a sign. -/
def int32 : Codec Int32 where
  encode n := .int n.toInt
  decode value := (decodeInt Int32.minValue.toInt Int32.maxValue.toInt value).map Int32.ofInt

/-- An integer of 64 bits with a sign. -/
def int64 : Codec Int64 where
  encode n := .int n.toInt
  decode value := (decodeInt Int64.minValue.toInt Int64.maxValue.toInt value).map Int64.ofInt

/-- An integer of 16 bits without a sign. -/
def uint16 : Codec UInt16 where
  encode n := .int n.toNat
  decode value := (decodeInt 0 65535 value).map (fun n => UInt16.ofNat n.toNat)

/-- Reads the items of an array in order. -/
def decodeItems {α : Type} (decode : Json → Except DecodeError α) :
    List Json → Except DecodeError (List α)
  | [] => .ok []
  | item :: rest => do
    let a ← decode item
    let as ← decodeItems decode rest
    return a :: as

/-- An array of values. -/
def list {α : Type} (item : Codec α) : Codec (List α) where
  encode as := .arr (as.map item.encode)
  decode
    | .arr items => decodeItems item.decode items
    | other => refuse other

/-- Reads the values of the members of an object in order. -/
def decodeEntries {α : Type} (decode : Json → Except DecodeError α) :
    List (String × Json) → Except DecodeError (List (String × α))
  | [] => .ok []
  | (key, value) :: rest => do
    let a ← decode value
    let entries ← decodeEntries decode rest
    return (key, a) :: entries

/-- An object with arbitrary keys, of which the last member with a key counts. -/
def stringMap {α : Type} (value : Codec α) : Codec (StringMap α) where
  encode m := .obj (m.toList.map (fun e => (e.1, value.encode e.2)))
  decode
    | .obj members => (decodeEntries value.decode members).map SortedMap.ofList
    | other => refuse other

/-- An object written with further members in front, which its reader ignores. -/
def withHeader {α : Type} (header : List (String × String)) (codec : Codec α) : Codec α where
  encode a := .obj (header.map (fun h => (h.1, Json.str h.2)) ++ (codec.encode a).membersOrNone)
  decode := codec.decode

end Codec

end JobOperator
