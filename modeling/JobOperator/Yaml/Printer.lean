import JobOperator.Json.Basic

/-!
Printing a document as YAML: one line for each scalar, members under their key, items behind dashes.
A text is written plainly where that reads back as the same text, else in single quotes. Texts here
have one line.
-/

namespace JobOperator.Yaml

/-- The characters that a plain scalar does not start with. -/
def indicators : List Char := "-?:,[]\x7b\x7d#&*!|>'\"%@\x60".toList

/-- Whether a text starts as a number does. -/
def startsAsNumber : List Char → Bool
  | '+' :: rest | '-' :: rest | '.' :: rest => rest.head?.any Char.isDigit
  | text => text.head?.any Char.isDigit

/-- Whether a colon or a mark of a comment in a text would end it, when it is written plainly. -/
def endsEarly : List Char → Bool
  | [] => false
  | [':'] => true
  | ':' :: ' ' :: _ | ' ' :: '#' :: _ => true
  | _ :: rest => endsEarly rest

/-- The words that stand for something else than a text. -/
def reservedWords : List String :=
  ["~", "null", "Null", "NULL", "true", "True", "TRUE", "false", "False", "FALSE"]

/-- Whether a text can be written plainly. -/
def isPlain (text : String) : Bool :=
  match text.toList with
  | [] => false
  | first :: rest =>
    first != ' ' && rest.getLast? != some ' ' && !indicators.contains first &&
      !startsAsNumber (first :: rest) && !endsEarly (first :: rest) &&
      !reservedWords.contains text

/-- A text as a scalar. -/
def printText (text : String) : String :=
  if isPlain text then text
  else
    let quoted := text.toList.flatMap fun c => if c = '\'' then [c, c] else [c]
    String.ofList ('\'' :: quoted ++ ['\''])

/-- The lines of an item, the first behind a dash. -/
def hang : List String → List String
  | [] => []
  | first :: rest => ("- " ++ first) :: rest.map ("  " ++ ·)

/-- The lines of a member, given those of its value. -/
def place (key : String) (value : Json) (lines : List String) : List String :=
  match value with
  | .obj (_ :: _) => (printText key ++ ":") :: lines.map ("  " ++ ·)
  | .arr (_ :: _) => (printText key ++ ":") :: lines
  | _ => lines.map (printText key ++ ": " ++ ·)

mutual

/-- The lines of a document. -/
def lines : Json → List String
  | .null | .broken _ => ["null"]
  | .bool true => ["true"]
  | .bool false => ["false"]
  | .num (.int n) => [toString n]
  | .num (.decimal text) => [text]
  | .str text => [printText text]
  | .arr [] => ["[]"]
  | .obj [] => ["\x7b\x7d"]
  | .arr items => itemLines items
  | .obj members => memberLines members

/-- The lines of items. -/
def itemLines : List Json → List String
  | [] => []
  | item :: rest => hang (lines item) ++ itemLines rest

/-- The lines of members. -/
def memberLines : List (String × Json) → List String
  | [] => []
  | (key, value) :: rest => place key value (lines value) ++ memberLines rest

end

/-- The text of a document, with an end to every line. -/
def print (document : Json) : String := String.join ((lines document).map (· ++ "\n"))

end JobOperator.Yaml
