import JobOperator.Yaml.Cursor

/-!
Scalars: plain ones, ones in single or double quotes, and block scalars. In the first three a gap
between words that has line breaks is folded; in a block scalar the indentation decides which
characters belong to it.
-/

namespace JobOperator.Yaml

/-- How a scalar is written. -/
inductive Style where
  | plain
  | quoted
  | literal
  | folded
  deriving DecidableEq, Repr

/-- A gap between words, in which blanks at line ends do not count: blanks in a line, or the breaks
from the `first` on, which is missing if it was escaped. Characters are held last first. -/
inductive Gap where
  | none
  | blanks (done : List Char)
  | breaks (first : Option Char) (more : List Char)

namespace Gap

/-- The gap with one more blank. -/
def blank (c : Char) : Gap → Gap
  | none => blanks [c]
  | blanks done => blanks (c :: done)
  | breaks first more => breaks first more

/-- The gap with one more break. -/
def newline (c : Char) : Gap → Gap
  | none | blanks _ => breaks (some c) []
  | breaks first more => breaks first (c :: more)

/-- Whether a gap has breaks. -/
def hasBreak : Gap → Bool
  | breaks .. => true
  | _ => false

/-- The characters that a gap stands for, last first: one line feed is a blank, and of several the
first does not count. -/
def folded : Gap → List Char
  | none => []
  | blanks done => done
  | breaks (some '\n') [] => [' ']
  | breaks (some '\n') more => more
  | breaks first more => more ++ first.toList

end Gap

namespace Scalar

/-! ### Plain scalars -/

/-- Whether a character has a meaning of its own in a flow collection. -/
def isFlowMark (c : Char) : Bool := c = ',' || c = '[' || c = ']' || c = '\x7b' || c = '\x7d'

/-- Whether a plain scalar ends before these characters. -/
def endsPlain (inFlow : Bool) : List Char → Bool
  | [] => true
  | c :: rest => (c = ':' && atGap rest) || (inFlow && isFlowMark c)

/-- Whether a colon stands before a mark of a flow collection, where it can mean nothing. -/
def isStrayColon : List Char → Bool
  | ':' :: c :: _ => isFlowMark c || c = '?'
  | _ => false

/-- The rest of a plain scalar, whether it ends after a break, and the text after it. -/
def plainFrom (inFlow : Bool) (indent : Nat) (done : List Char) (gap : Gap) (place : Place) :
    List Char → Option (String × Bool × Cursor)
  | [] => some (String.ofList done.reverse, gap.hasBreak, ⟨place, []⟩)
  | c :: rest =>
    if isBreak c then plainFrom inFlow indent done (gap.newline c) (place.after c) rest
    else if isBlank c then
      if c = '\t' && gap.hasBreak && place.column < indent then none
      else plainFrom inFlow indent done (gap.blank c) (place.after c) rest
    else
      let afterGap := match gap with
        | .none => false
        | _ => true
      let ends := afterGap && (c = '#' || Cursor.atDocumentMark place (c :: rest) ||
        (!inFlow && place.column < indent))
      if ends then some (String.ofList done.reverse, gap.hasBreak, ⟨place, c :: rest⟩)
      else if inFlow && isStrayColon (c :: rest) then none
      else if endsPlain inFlow (c :: rest) then
        some (String.ofList done.reverse, gap.hasBreak, ⟨place, c :: rest⟩)
      else
        plainFrom inFlow indent (c :: gap.folded ++ done) .none (place.after c) rest

/-- The plain scalar that starts here, in a block of less than `indent` columns. -/
def plain (inFlow : Bool) (indent : Nat) (cursor : Cursor) : Option (String × Bool × Cursor) :=
  plainFrom inFlow indent [] .none cursor.place cursor.rest

/-! ### Quoted scalars -/

/-- The value of a hexadecimal digit. -/
def hexDigit? (c : Char) : Option Nat :=
  if '0' ≤ c ∧ c ≤ '9' then some (c.toNat - '0'.toNat)
  else if 'a' ≤ c ∧ c ≤ 'f' then some (c.toNat - 'a'.toNat + 10)
  else if 'A' ≤ c ∧ c ≤ 'F' then some (c.toNat - 'A'.toNat + 10)
  else none

/-- The character that a backslash and this character stand for. -/
def escaped? (c : Char) : Option Char :=
  match c with
  | '0' => some '\x00'
  | 'a' => some '\x07'
  | 'b' => some '\x08'
  | 't' | '\t' => some '\t'
  | 'n' => some '\n'
  | 'v' => some '\x0b'
  | 'f' => some '\x0c'
  | 'r' => some '\r'
  | 'e' => some '\x1b'
  | ' ' | '"' | '/' | '\\' => some c
  | 'N' => some '\u0085'
  | '_' => some '\u00a0'
  | 'L' => some '\u2028'
  | 'P' => some '\u2029'
  | _ => none

/-- The number of hexadecimal digits after a backslash and this character. -/
def hexLength? (c : Char) : Option Nat :=
  match c with
  | 'x' => some 2
  | 'u' => some 4
  | 'U' => some 8
  | _ => none

/-- The character of a code point. -/
def char? (n : Nat) : Option Char := if n.isValidChar then some (Char.ofNat n) else none

/-- What the reader of a scalar in quotes is in the middle of. -/
inductive Mode where
  | text
  | escape
  | hex (left value : Nat)

/-- The rest of a scalar in quotes, and the text after it. -/
def quotedFrom (quote : Char) (done : List Char) (gap : Gap) (mode : Mode) (place : Place) :
    List Char → Option (String × Cursor)
  | [] => none
  | c :: rest =>
    match mode with
    | .hex left value =>
      match hexDigit? c, left with
      | some digit, left + 2 =>
        quotedFrom quote done .none (.hex (left + 1) (value * 16 + digit)) (place.after c) rest
      | some digit, _ =>
        match char? (value * 16 + digit) with
        | some x => quotedFrom quote (x :: done) .none .text (place.after c) rest
        | none => none
      | none, _ => none
    | .escape =>
      if isBreak c then quotedFrom quote done (.breaks none []) .text (place.after c) rest
      else
        match escaped? c, hexLength? c with
        | some x, _ => quotedFrom quote (x :: done) .none .text (place.after c) rest
        | none, some length => quotedFrom quote done .none (.hex length 0) (place.after c) rest
        | none, none => none
    | .text =>
      if Cursor.atDocumentMark place (c :: rest) then none
      else if isBreak c then quotedFrom quote done (gap.newline c) .text (place.after c) rest
      else if isBlank c then quotedFrom quote done (gap.blank c) .text (place.after c) rest
      else
        let done := gap.folded ++ done
        if c = quote then
          match quote, rest with
          | '\'', '\'' :: rest =>
            quotedFrom quote ('\'' :: done) .none .text ((place.after c).after c) rest
          | _, _ => some (String.ofList done.reverse, ⟨place.after c, rest⟩)
        else if c = '\\' && quote = '"' then
          quotedFrom quote done .none .escape (place.after c) rest
        else quotedFrom quote (c :: done) .none .text (place.after c) rest

/-- The scalar in quotes that starts here. -/
def quoted (cursor : Cursor) : Option (String × Cursor) :=
  match cursor.rest with
  | quote :: rest => quotedFrom quote [] .none .text (cursor.place.after quote) rest
  | [] => none

/-! ### Block scalars -/

/-- Which of the breaks after its last line a block scalar keeps. -/
inductive Chomping where
  | strip
  | clip
  | keep
  deriving DecidableEq, Repr

/-- What the first line of a block scalar says: the breaks kept, and the indentation if it is given.
-/
structure BlockHeader where
  chomping : Chomping := .clip
  indentation : Option Nat := none

/-- Adds a mark of a header to it. A mark is said once, and an indentation is not zero. -/
def BlockHeader.add? (header : BlockHeader) (c : Char) : Option BlockHeader :=
  if c = '+' ∧ header.chomping = .clip then some { header with chomping := .keep }
  else if c = '-' ∧ header.chomping = .clip then some { header with chomping := .strip }
  else if '1' ≤ c ∧ c ≤ '9' ∧ header.indentation = none then
    some { header with indentation := some (c.toNat - '0'.toNat) }
  else none

/-- The header of a block scalar, and the text from its next line on. -/
def blockHeader (cursor : Cursor) : Option (BlockHeader × Cursor) := do
  let (marks, cursor) := cursor.takeWhile (fun c => c = '+' || c = '-' || c.isDigit)
  let header ← marks.foldlM BlockHeader.add? {}
  let cursor := cursor.skipComment
  if atBreak cursor.rest then some (header, cursor.skipBreak) else none

/-- The blank lines from here on. Gives their breaks, last first, and the largest column reached;
with `indentation`, blanks are passed over up to that column only. A tab may not indent. -/
def blankLines (indentation : Option Nat) (breaks : List Char) (widest : Nat) (place : Place) :
    List Char → Option (List Char × Nat × Cursor)
  | [] => some (breaks, max widest place.column, ⟨place, []⟩)
  | c :: rest =>
    let inIndent := indentation.all (place.column < ·)
    if c = ' ' && inIndent then blankLines indentation breaks widest (place.after c) rest
    else if c = '\t' && inIndent then none
    else if isBreak c then
      blankLines indentation (c :: breaks) (max widest place.column) (place.after c) rest
    else some (breaks, max widest place.column, ⟨place, c :: rest⟩)

/-- The state of the reader of a block scalar between two lines: the text so far, the break of the
last line, the breaks of the blank lines after it, all last first, and whether the last line starts
with a blank. -/
structure BlockLines where
  done : List Char := []
  last : Option Char := none
  blank : List Char := []
  indented : Bool := false

/-- The text so far with the breaks before a line that starts with a blank or not. -/
def BlockLines.joined (isLiteral : Bool) (lines : BlockLines) (indented : Bool) : List Char :=
  if !isLiteral && lines.last = some '\n' && !lines.indented && !indented then
    if lines.blank.isEmpty then ' ' :: lines.done else lines.blank ++ lines.done
  else lines.blank ++ (lines.last.toList ++ lines.done)

/-- The lines of a block scalar from here on. -/
def blockLines (isLiteral : Bool) (indentation : Nat) :
    (fuel : Nat) → BlockLines → Cursor → Option (BlockLines × Cursor)
  | 0, lines, cursor => some (lines, cursor)
  | fuel + 1, lines, cursor =>
    if cursor.place.column = indentation ∧ ¬ cursor.rest.isEmpty then do
      let indented := cursor.rest.head?.any isBlank
      let done := lines.joined isLiteral indented
      let (line, cursor) := cursor.takeWhile (!isBreak ·)
      let last := cursor.rest.head?
      let cursor := cursor.skipBreak
      let (blank, _, cursor) ← blankLines (some indentation) [] 0 cursor.place cursor.rest
      blockLines isLiteral indentation fuel
        { done := line.reverse ++ done, last, blank, indented } cursor
    else some (lines, cursor)

/-- The block scalar whose mark stands here, in a block of the column `parent`. -/
def block (isLiteral : Bool) (parent : Option Nat) (cursor : Cursor) : Option (String × Cursor) := do
  let (header, cursor) ← blockHeader (cursor.skip 1)
  let given := header.indentation.map (parent.getD 0 + ·)
  let (blank, widest, cursor) ← blankLines given [] 0 cursor.place cursor.rest
  let least := match parent with
    | some column => column + 1
    | none => 1
  let indentation := given.getD (max widest least)
  let (lines, cursor) ← blockLines isLiteral indentation (cursor.rest.length + 1) { blank } cursor
  let text := match header.chomping with
    | .strip => lines.done
    | .clip => lines.last.toList ++ lines.done
    | .keep => lines.blank ++ (lines.last.toList ++ lines.done)
  return (String.ofList text.reverse, cursor)

end Scalar

end JobOperator.Yaml
