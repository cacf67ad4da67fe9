import JobOperator.Json.Basic

/-!
Printing a document as text, without blanks. Characters other than quotes, backslashes and controls
are written as they are.
-/

namespace JobOperator.Json

/-- A hexadecimal digit. -/
def hexDigit (n : Nat) : Char :=
  if n < 10 then Char.ofNat ('0'.toNat + n) else Char.ofNat ('a'.toNat + (n - 10))

/-- A character as it stands in a string. -/
def escapeChar (c : Char) : List Char :=
  match c with
  | '"' => ['\\', '"']
  | '\\' => ['\\', '\\']
  | '\n' => ['\\', 'n']
  | '\r' => ['\\', 'r']
  | '\t' => ['\\', 't']
  | '\x08' => ['\\', 'b']
  | '\x0c' => ['\\', 'f']
  | c =>
    if c < ' ' then ['\\', 'u', '0', '0', hexDigit (c.toNat / 16), hexDigit (c.toNat % 16)]
    else [c]

/-- A text in quotes. -/
def quote (s : String) : String :=
  String.ofList ('"' :: s.toList.flatMap escapeChar ++ ['"'])

mutual

/-- Adds the text of a document to `out`. -/
def printTo (out : String) : Json → String
  | .null => out ++ "null"
  | .bool true => out ++ "true"
  | .bool false => out ++ "false"
  | .num (.int n) => out ++ toString n
  | .num (.decimal text) => out ++ text
  | .str s => out ++ quote s
  | .arr items => printItems (out ++ "[") true items ++ "]"
  | .obj members => printMembers (out ++ "\x7b") true members ++ "\x7d"
  | .broken _ => out ++ "null"

/-- Adds the text of items to `out`, with a comma before all but the `first`. -/
def printItems (out : String) (first : Bool) : List Json → String
  | [] => out
  | item :: rest => printItems (printTo (if first then out else out ++ ",") item) false rest

/-- Adds the text of members to `out`, with a comma before all but the `first`. -/
def printMembers (out : String) (first : Bool) : List (String × Json) → String
  | [] => out
  | (key, value) :: rest =>
    printMembers (printTo ((if first then out else out ++ ",") ++ quote key ++ ":") value) false rest

end

/-- The text of a document. -/
def print (document : Json) : String := printTo "" document

end JobOperator.Json
