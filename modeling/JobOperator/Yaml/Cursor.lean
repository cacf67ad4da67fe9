/-!
Reading a YAML text from a place on. The line breaks of a text are made alike first, so that a break
is one character.
-/

namespace JobOperator.Yaml

/-- Whether a character may stand in a text. -/
def isAllowed (c : Char) : Bool :=
  let n := c.toNat
  n == 0x09 || n == 0x0A || n == 0x0D || (0x20 ≤ n && n ≤ 0x7E) || n == 0x85 ||
    (0xA0 ≤ n && n ≤ 0xFFFD) || 0x10000 ≤ n

/-- A text with every line break written as one line feed, save for the line and paragraph
separators, which stand for themselves. -/
def unifyBreaks : List Char → List Char
  | [] => []
  | '\r' :: '\n' :: rest => '\n' :: unifyBreaks rest
  | c :: rest => (if c = '\r' ∨ c = '\u0085' then '\n' else c) :: unifyBreaks rest

/-- Whether a character ends a line. -/
def isBreak (c : Char) : Bool := c = '\n' || c = '\u2028' || c = '\u2029'

/-- Whether a character separates words in a line. -/
def isBlank (c : Char) : Bool := c = ' ' || c = '\t'

/-- Whether a text is at its end, at a blank or at a break. -/
def atGap : List Char → Bool
  | [] => true
  | c :: _ => isBlank c || isBreak c

/-- Whether a text is at its end or at a break. -/
def atBreak : List Char → Bool
  | [] => true
  | c :: _ => isBreak c

/-- Whether a character may stand in the name of an anchor or of a tag. -/
def isWordChar (c : Char) : Bool := c.isAlphanum || c = '_' || c = '-'

/-- A place in a text: the characters before it, the lines before it, and the characters before it
in its line. -/
structure Place where
  index : Nat := 0
  line : Nat := 0
  column : Nat := 0
  deriving DecidableEq, Repr

/-- The place after a character. -/
def Place.after (place : Place) (c : Char) : Place :=
  if isBreak c then ⟨place.index + 1, place.line + 1, 0⟩
  else ⟨place.index + 1, place.line, place.column + 1⟩

/-- What is left of a text, and where it starts. -/
structure Cursor where
  place : Place := {}
  rest : List Char
  deriving Repr

namespace Cursor

/-- The cursor after `n` more characters. -/
def skip : (n : Nat) → Cursor → Cursor
  | 0, cursor => cursor
  | n + 1, ⟨place, c :: rest⟩ => skip n ⟨place.after c, rest⟩
  | _ + 1, ⟨place, []⟩ => ⟨place, []⟩

/-- Takes the characters up to the first that does not fit. -/
def takeWhile (fits : Char → Bool) (cursor : Cursor) : List Char × Cursor :=
  let taken := cursor.rest.takeWhile fits
  (taken, cursor.skip taken.length)

/-- The cursor at the first character that does not fit. -/
def skipWhile (fits : Char → Bool) (cursor : Cursor) : Cursor := (cursor.takeWhile fits).2

/-- The cursor after blanks and a comment, which go up to the end of the line. -/
def skipComment (cursor : Cursor) : Cursor :=
  let cursor := cursor.skipWhile isBlank
  match cursor.rest with
  | '#' :: _ => cursor.skipWhile (!isBreak ·)
  | _ => cursor

/-- The cursor after a break, if it is at one. -/
def skipBreak (cursor : Cursor) : Cursor :=
  match cursor.rest with
  | c :: _ => if isBreak c then cursor.skip 1 else cursor
  | [] => cursor

/-- Whether a line here starts or ends a document: it begins with the three characters `mark`. -/
def atMark (mark : Char) (place : Place) (text : List Char) : Bool :=
  place.column == 0 &&
    match text with
    | a :: b :: c :: rest => a = mark && b = mark && c = mark && atGap rest
    | _ => false

/-- Whether a document starts or ends here. -/
def atDocumentMark (place : Place) (text : List Char) : Bool :=
  atMark '-' place text || atMark '.' place text

end Cursor

end JobOperator.Yaml
