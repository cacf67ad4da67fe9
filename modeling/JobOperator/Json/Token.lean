import JobOperator.Json.Basic
import JobOperator.Text.Decimal

/-!
The words of a JSON text. Scanning never fails: a word that is not JSON becomes a gap, which says
how it fails when it is read and when it is passed over.
-/

namespace JobOperator.Json

/-- A word of a JSON text. -/
inductive Token where
  | openArray
  | closeArray
  | openObject
  | closeObject
  | comma
  | colon
  | null
  | bool (value : Bool)
  | num (value : Number)
  | str (value : String)
  /-- A string that cannot be read. -/
  | badString (gap : Gap)
  /-- Anything else that cannot be read. -/
  | badWord (gap : Gap)
  deriving DecidableEq, Repr

namespace Token

/-- A word that breaks the grammar however it is met. -/
def malformed : Gap := ⟨.malformed, some .malformed, false⟩

/-- A word that ends with the text however it is met. -/
def truncated : Gap := ⟨.truncated, some .truncated, false⟩

/-- A number cut off by the end of the text; passing over numbers does not tell this from a number
that breaks the grammar. -/
def cutNumber : Gap := ⟨.truncated, some .malformed, false⟩

/-- A word that follows the grammar but denotes nothing. -/
def meaningless : Gap := ⟨.malformed, none, false⟩

/-! ### Strings -/

/-- A part of a string: a character, or a unit of UTF-16 written as an escape. -/
inductive Piece where
  | char (c : Char)
  | unit (n : Nat)
  deriving DecidableEq, Repr

/-- The value of a hexadecimal digit. -/
def hexDigit? (c : Char) : Option Nat :=
  if '0' ≤ c ∧ c ≤ '9' then some (c.toNat - '0'.toNat)
  else if 'a' ≤ c ∧ c ≤ 'f' then some (c.toNat - 'a'.toNat + 10)
  else if 'A' ≤ c ∧ c ≤ 'F' then some (c.toNat - 'A'.toNat + 10)
  else none

/-- The value of four hexadecimal digits. -/
def hexUnit? (a b c d : Char) : Option Nat := do
  let a ← hexDigit? a
  let b ← hexDigit? b
  let c ← hexDigit? c
  let d ← hexDigit? d
  return ((a * 16 + b) * 16 + c) * 16 + d

/-- The character that a backslash and this character stand for. -/
def escaped? (c : Char) : Option Char :=
  match c with
  | '"' => some '"'
  | '\\' => some '\\'
  | '/' => some '/'
  | 'b' => some '\x08'
  | 'f' => some '\x0c'
  | 'n' => some '\n'
  | 'r' => some '\r'
  | 't' => some '\t'
  | _ => none

/-- The pieces of a string read so far, last first, how it ends (`none` at a closing quote), and
the text after it. -/
structure StringBody where
  pieces : List Piece
  fault : Option Fault
  rest : List Char

/-- How an escape `\u` ends that has fewer than four characters after it: four bytes of text are
enough to tell a wrong digit from the end of the text. -/
def shortEscapeFault (rest : List Char) : Fault :=
  if (String.ofList rest).utf8ByteSize < 4 then .truncated else .malformed

/-- Reads the body of a string up to its closing quote. -/
def stringBody (pieces : List Piece) : List Char → StringBody
  | [] => ⟨pieces, some .truncated, []⟩
  | '"' :: rest => ⟨pieces, none, rest⟩
  | '\\' :: 'u' :: a :: b :: c :: d :: rest =>
    match hexUnit? a b c d with
    | some n => stringBody (.unit n :: pieces) rest
    | none => ⟨pieces, some .malformed, []⟩
  | '\\' :: 'u' :: rest => ⟨pieces, some (shortEscapeFault rest), []⟩
  | '\\' :: c :: rest =>
    match escaped? c with
    | some c => stringBody (.char c :: pieces) rest
    | none => ⟨pieces, some .malformed, []⟩
  | '\\' :: [] => ⟨pieces, some .truncated, []⟩
  | c :: rest =>
    if c < ' ' then ⟨pieces, some .malformed, []⟩ else stringBody (.char c :: pieces) rest

/-- Whether a unit is the first of a pair that stands for one character. -/
def isHighSurrogate (n : Nat) : Bool := 0xD800 ≤ n && n ≤ 0xDBFF

/-- Whether a unit is the second of a pair that stands for one character. -/
def isLowSurrogate (n : Nat) : Bool := 0xDC00 ≤ n && n ≤ 0xDFFF

/-- The text that pieces denote, or the fault of the first that denotes nothing, where `ending` is
the fault that a pair cut off after the last piece has. -/
def denote (ending : Fault) (chars : List Char) : List Piece → Except Fault (List Char)
  | [] => .ok chars.reverse
  | .char c :: rest => denote ending (c :: chars) rest
  | .unit n :: rest =>
    if isHighSurrogate n then
      match rest with
      | [] => .error ending
      | .unit m :: rest =>
        if isLowSurrogate m then
          denote ending (Char.ofNat (0x10000 + (n - 0xD800) * 0x400 + (m - 0xDC00)) :: chars) rest
        else .error .malformed
      | .char _ :: _ => .error .malformed
    else if isLowSurrogate n then .error .malformed
    else denote ending (Char.ofNat n :: chars) rest

/-- The string whose body starts here, and the text after it. -/
def scanString (text : List Char) : Token × List Char :=
  let body := stringBody [] text
  let value := denote (body.fault.getD .malformed) [] body.pieces.reverse
  match body.fault, value with
  | none, .ok chars => (.str (String.ofList chars), body.rest)
  | none, .error _ => (.badString meaningless, body.rest)
  | some fault, .ok _ => (.badString ⟨fault, some fault, false⟩, [])
  | some fault, .error first => (.badString ⟨first, some fault, false⟩, [])

/-! ### Numbers -/

/-- Whether `significand · 10 ^ exponent` is too large for a double: it is at least half a unit
above the largest one. -/
def exceedsDouble (significand : Nat) (exponent : Int) : Bool :=
  let size : Int := (Decimal.ofNat significand).length + exponent
  let bound := Nat.pow 2 1024 - Nat.pow 2 970
  if significand = 0 || size < 300 then false
  else if size > 320 then true
  else if exponent < 0 then bound * Nat.pow 10 exponent.natAbs ≤ significand
  else bound ≤ significand * Nat.pow 10 exponent.natAbs

/-- The number with this sign, whole part, fraction and exponent as written: `none` for a part that
is not written. -/
def number (negative : Bool) (whole : List Char) (fraction exponent : Option (List Char))
    (power : Int) : Token :=
  let value : Int := if negative then -(Decimal.value whole : Int) else Decimal.value whole
  let isInteger := fraction.isNone && exponent.isNone && !(negative && value == 0) &&
    decide (Int64.minValue.toInt ≤ value) && decide (value < UInt64.size)
  if isInteger then .num (.int value)
  else
    let digits := fraction.getD []
    if exceedsDouble (Decimal.value (whole ++ digits)) (power - digits.length) then
      .badWord meaningless
    else
      let sign := if negative then ['-'] else []
      let fraction := match fraction, exponent with
        | none, none => ['.', '0']
        | some digits, _ => '.' :: digits
        | none, some _ => []
      .num (.decimal (String.ofList (sign ++ whole ++ fraction ++ exponent.getD [])))

/-- Digits, of which there is at least one, and the text after them. -/
def someDigits (text : List Char) : Except Token (List Char × List Char) :=
  match text.span Char.isDigit with
  | ([], []) => .error (.badWord cutNumber)
  | ([], _) => .error (.badWord malformed)
  | split => .ok split

/-- The number that starts after its sign, and the text after it. -/
def scanNumber (negative : Bool) (text : List Char) : Token × List Char :=
  let scanned : Except Token (Token × List Char) := do
    let (whole, rest) ← someDigits text
    if whole.head? = some '0' && whole.length > 1 then .error (.badWord malformed)
    let (fraction, rest) ← match rest with
      | '.' :: rest => do
        let (digits, rest) ← someDigits rest
        pure (some digits, rest)
      | _ => pure (none, rest)
    match rest with
    | e :: rest' =>
      if e = 'e' ∨ e = 'E' then
        let (sign, rest') := match rest' with
          | '+' :: tail => (['+'], tail)
          | '-' :: tail => (['-'], tail)
          | _ => ([], rest')
        let (digits, rest') ← someDigits rest'
        let power : Int :=
          if sign = ['-'] then -(Decimal.value digits : Int) else Decimal.value digits
        pure (number negative whole fraction (some (e :: sign ++ digits)) power, rest')
      else pure (number negative whole fraction none 0, rest)
    | [] => pure (number negative whole fraction none 0, [])
  match scanned with
  | .ok result => result
  | .error token => (token, [])

/-! ### All words -/

/-- The word `expected`, of which the text continues with `text`. -/
def scanWord (token : Token) : (expected text : List Char) → Token × List Char
  | [], rest => (token, rest)
  | _ :: _, [] => (.badWord truncated, [])
  | e :: expected, c :: rest =>
    if c = e then scanWord token expected rest else (.badWord malformed, [])

/-- Whether a character may stand between words. -/
def isBlank (c : Char) : Bool := c = ' ' || c = '\n' || c = '\t' || c = '\r'

/-- The word that starts with the character `c`, and the text after it. -/
def scanOne (c : Char) (rest : List Char) : Token × List Char :=
  match c with
  | '[' => (.openArray, rest)
  | ']' => (.closeArray, rest)
  | '{' => (.openObject, rest)
  | '}' => (.closeObject, rest)
  | ',' => (.comma, rest)
  | ':' => (.colon, rest)
  | '"' => scanString rest
  | '-' => scanNumber true rest
  | 'n' => scanWord .null ['u', 'l', 'l'] rest
  | 't' => scanWord (.bool true) ['r', 'u', 'e'] rest
  | 'f' => scanWord (.bool false) ['a', 'l', 's', 'e'] rest
  | _ => if c.isDigit then scanNumber false (c :: rest) else (.badWord malformed, [])

/-- The words of a text of at most `fuel` characters, added to the `found` ones, last first. -/
def scanFrom : (fuel : Nat) → (found : List Token) → List Char → List Token
  | 0, found, _ => found.reverse
  | _ + 1, found, [] => found.reverse
  | fuel + 1, found, c :: rest =>
    if isBlank c then scanFrom fuel found rest
    else
      let (token, rest) := scanOne c rest
      scanFrom fuel (token :: found) rest

/-- The words of a text, up to the first that cannot be read to its end. -/
def scan (text : List Char) : List Token := scanFrom text.length [] text

end Token

end JobOperator.Json
