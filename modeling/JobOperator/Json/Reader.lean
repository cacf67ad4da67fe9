import JobOperator.Json.Token

/-!
Reading the words of a text into a document, with the containers that are open held in a list. Each
word moves the reader one step, so reading is a fold over the words.
-/

namespace JobOperator.Json

/-- A container that waits for a value: an array with its items so far, or an object with its
members so far and the key of the value, `none` for a key that cannot be read. Items and members are
held last first. -/
inductive Frame where
  | array (done : List Json)
  | object (done : List (String × Json)) (key : Option String)

/-- What the reader waits for, in which open containers. -/
inductive Reader where
  | value (stack : List Frame)
  | firstItem (stack : List Frame)
  | afterItem (done : List Json) (stack : List Frame)
  | firstKey (stack : List Frame)
  | nextKey (done : List (String × Json)) (stack : List Frame)
  | colon (done : List (String × Json)) (key : Option String) (stack : List Frame)
  | afterMember (done : List (String × Json)) (stack : List Frame)
  | finished (root : Json)

namespace Reader

/-- A gap where a key should stand. -/
def keyGap (gap : Gap) : String × Json := ("", .broken { gap with inKey := true })

/-- The member with this key and value. A key that cannot be read still lets its value be passed
over. -/
def member (key : Option String) (value : Json) : String × Json :=
  match key with
  | some key => (key, value)
  | none => keyGap ⟨.malformed, value.skipFault, true⟩

/-- Gives the value that the innermost container waits for. -/
def give (value : Json) : List Frame → Reader
  | [] => .finished value
  | .array done :: stack => .afterItem (value :: done) stack
  | .object done key :: stack => .afterMember (member key value :: done) stack

/-- The document that is left when the text stops being JSON: the open containers end with the gap
that the innermost holds. -/
def abandon (value : Json) : List Frame → Json
  | [] => value
  | .array done :: stack => abandon (.arr (value :: done).reverse) stack
  | .object done key :: stack => abandon (.obj (member key value :: done).reverse) stack

/-- The document read so far, when the next word is a gap. -/
def stop (gap : Gap) : Reader → Json
  | value stack => abandon (.broken gap) stack
  | firstItem stack => abandon (.arr [.broken gap]) stack
  | afterItem done stack => abandon (.arr (.broken gap :: done).reverse) stack
  | firstKey stack => abandon (.obj [keyGap gap]) stack
  | nextKey done stack => abandon (.obj (keyGap gap :: done).reverse) stack
  | colon done key stack => abandon (.obj (member key (.broken gap) :: done).reverse) stack
  | afterMember done stack => abandon (.obj (keyGap gap :: done).reverse) stack
  | finished root => root

/-- A word where a value must stand: the next state, or the gap it is. -/
def startValue (stack : List Frame) : Token → Except Gap Reader
  | .openArray => .ok (.firstItem stack)
  | .openObject => .ok (.firstKey stack)
  | .null => .ok (give .null stack)
  | .bool b => .ok (give (.bool b) stack)
  | .num n => .ok (give (.num n) stack)
  | .str s => .ok (give (.str s) stack)
  | .badString gap | .badWord gap =>
    if gap.skipped.isNone then .ok (give (.broken gap) stack) else .error gap
  | .closeArray | .closeObject | .comma | .colon => .error Token.malformed

/-- A word where a key must stand. -/
def startKey (done : List (String × Json)) (stack : List Frame) : Token → Except Gap Reader
  | .str key => .ok (.colon done (some key) stack)
  | .badString gap =>
    if gap.skipped.isNone then .ok (.colon done none stack) else .error gap
  | _ => .error Token.malformed

/-- The state after a word, or the gap that the word is. -/
def advance (reader : Reader) (word : Token) : Except Gap Reader :=
  match reader, word with
  | value stack, word => startValue stack word
  | firstItem stack, .closeArray => .ok (give (.arr []) stack)
  | firstItem stack, word => startValue (.array [] :: stack) word
  | afterItem done stack, .comma => .ok (value (.array done :: stack))
  | afterItem done stack, .closeArray => .ok (give (.arr done.reverse) stack)
  | firstKey stack, .closeObject => .ok (give (.obj []) stack)
  | firstKey stack, word => startKey [] stack word
  | nextKey done stack, word => startKey done stack word
  | colon done key stack, .colon => .ok (value (.object done key :: stack))
  | afterMember done stack, .comma => .ok (nextKey done stack)
  | afterMember done stack, .closeObject => .ok (give (.obj done.reverse) stack)
  | afterItem .., _ | colon .., _ | afterMember .., _ | finished _, _ => .error Token.malformed

end Reader

/-- A text read as JSON: its document, and whether more follows the document. -/
structure Text where
  root : Json
  trailing : Bool

/-- Reads words from a state on. -/
def Reader.run : Reader → List Token → Text
  | .finished root, [] => ⟨root, false⟩
  | .finished root, _ :: _ => ⟨root, true⟩
  | reader, [] => ⟨reader.stop Token.truncated, false⟩
  | reader, word :: rest =>
    match reader.advance word with
    | .ok next => next.run rest
    | .error gap => ⟨reader.stop gap, false⟩

/-- Reads a text as JSON. -/
def Text.read (text : String) : Text := (Reader.value []).run (Token.scan text.toList)

/-- The document of a text, a gap where more follows it. -/
def ofText (text : String) : Json :=
  let read := Text.read text
  match read.root.skipFault, read.trailing with
  | none, true => gap .malformed
  | _, _ => read.root

end JobOperator.Json
