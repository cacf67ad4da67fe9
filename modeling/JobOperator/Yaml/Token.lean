import JobOperator.Yaml.Scalar

/-!
The tokens of a YAML text. Blocks are shown by indentation, so the reader keeps the columns of the
open blocks and gives a token where one starts or ends. That a scalar or a collection is a key is
seen only at the colon after it: the reader leaves a slot before everything that may be a key, and
fills it at the colon.
-/

namespace JobOperator.Yaml

/-- A token. -/
inductive Token where
  | version (major minor : Nat)
  | tagHandle (handle start : String)
  | documentStart
  | documentEnd
  | blockSequence
  | blockMapping
  | blockEnd
  | flowSequence
  | flowSequenceEnd
  | flowMapping
  | flowMappingEnd
  | blockEntry
  | flowEntry
  | key
  | value
  | alias (name : String)
  | anchor (name : String)
  | tag (handle suffix : String)
  | scalar (text : String) (style : Style)
  deriving DecidableEq, Repr

/-- A slot for a key. A key that is required stands where nothing but a key can. -/
structure Slot where
  entry : Nat
  place : Place
  isRequired : Bool
  deriving Repr

/-- The reader of tokens: what is left of the text, the tokens so far (a slot is an entry, empty
until it is filled), the columns of the open blocks, innermost first, the slot that may still be
filled in each open flow collection, innermost first, and last in the block around them, and whether
a key may start here. -/
structure Reader where
  cursor : Cursor
  entries : Array (List Token) := #[]
  blocks : List Nat := []
  slots : List (Option Slot) := [none]
  keyAllowed : Bool := true

namespace Reader

/-- Whether the reader is in a flow collection, where indentation means nothing. -/
def inFlow (reader : Reader) : Bool := reader.slots.length > 1

/-- The column of the innermost block. -/
def indent? (reader : Reader) : Option Nat := reader.blocks.head?

/-- The column where the reader is. -/
def column (reader : Reader) : Nat := reader.cursor.place.column

/-- Adds a token. -/
def push (reader : Reader) (token : Token) : Reader :=
  { reader with entries := reader.entries.push [token] }

/-- Adds the token of the next `n` characters. -/
def pushMark (reader : Reader) (n : Nat) (token : Token) : Reader :=
  { reader.push token with cursor := reader.cursor.skip n }

/-- Says whether a key may start here. -/
def allowKey (reader : Reader) (allowed : Bool) : Reader := { reader with keyAllowed := allowed }

/-- Gives up the slot of the innermost collection, unless it is required. -/
def dropSlot (reader : Reader) : Option Reader :=
  match reader.slots with
  | some slot :: outer =>
    if slot.isRequired then none else some { reader with slots := none :: outer }
  | _ => some reader

/-- Leaves a slot here if a key may start here. -/
def addSlot (reader : Reader) : Option Reader :=
  if !reader.keyAllowed then some reader
  else do
    let reader ← reader.dropSlot
    let slot : Slot :=
      { entry := reader.entries.size
        place := reader.cursor.place
        isRequired := !reader.inFlow && reader.indent? == some reader.column }
    return { reader with
      entries := reader.entries.push []
      slots := some slot :: reader.slots.tail }

/-- Closes the blocks that are indented further than to the column, all without one. -/
def closeBlocks (column : Option Nat) (reader : Reader) : Reader :=
  if reader.inFlow then reader
  else
    let closes (block : Nat) : Bool := column.all (· < block)
    let closed := (reader.blocks.takeWhile closes).map (fun _ => [Token.blockEnd])
    { reader with
      entries := reader.entries ++ closed.toArray
      blocks := reader.blocks.dropWhile closes }

/-- Whether a block that starts in a column is a new one. -/
def opensBlock (reader : Reader) (column : Nat) : Bool :=
  !reader.inFlow && reader.indent?.all (· < column)

/-- Opens a block here if there is none in this column. -/
def openBlock (reader : Reader) (token : Token) : Reader :=
  if reader.opensBlock reader.column then
    { reader.push token with blocks := reader.column :: reader.blocks }
  else reader

/-- The reader at the next token: blanks, comments and breaks are passed over. Tabs are blanks only
where no key may start. After a break a key may start, outside flow collections. -/
def skipToToken : (fuel : Nat) → Reader → Reader
  | 0, reader => reader
  | fuel + 1, reader =>
    let cursor := reader.cursor.skipWhile
      (fun c => c = ' ' || (c = '\t' && (reader.inFlow || !reader.keyAllowed)))
    let cursor := match cursor.rest with
      | '#' :: _ => cursor.skipWhile (!isBreak ·)
      | _ => cursor
    match cursor.rest with
    | c :: _ =>
      if isBreak c then
        skipToToken fuel
          { reader with
            cursor := cursor.skip 1
            keyAllowed := reader.keyAllowed || !reader.inFlow }
      else { reader with cursor }
    | [] => { reader with cursor }

/-! ### Directives, anchors and tags -/

/-- Whether a character may stand in a tag. -/
def isTagChar (verbatim : Bool) (c : Char) : Bool :=
  isWordChar c || ";/?:@&=+$.!~*'()%".toList.contains c ||
    (verbatim && (c = ',' || c = '[' || c = ']'))

/-- The bytes of characters of a tag, in which two hexadecimal digits after a percent sign are a
byte. -/
def tagBytes : List Char → Option (List UInt8)
  | [] => some []
  | '%' :: a :: b :: rest => do
    let high ← Scalar.hexDigit? a
    let low ← Scalar.hexDigit? b
    return UInt8.ofNat (high * 16 + low) :: (← tagBytes rest)
  | '%' :: _ => none
  | c :: rest => do return UInt8.ofNat c.toNat :: (← tagBytes rest)

/-- The text of the characters of a tag from here on. -/
def tagText (verbatim : Bool) (cursor : Cursor) : Option (String × Cursor) := do
  let (chars, cursor) := cursor.takeWhile (isTagChar verbatim)
  let text ← String.fromUTF8? ⟨(← tagBytes chars).toArray⟩
  return (text, cursor)

/-- The tag that starts here: a handle and what follows it. The handle of a verbatim tag is empty. -/
def tag (inFlow : Bool) (cursor : Cursor) : Option (Token × Cursor) := do
  let (token, cursor) ← match cursor.rest with
    | '!' :: '<' :: _ => do
      let (text, cursor) ← tagText true (cursor.skip 2)
      if text.isEmpty ∨ cursor.rest.head? ≠ some '>' then none
      else pure (Token.tag "" text, cursor.skip 1)
    | _ => do
      let (word, after) := (cursor.skip 1).takeWhile isWordChar
      if after.rest.head? = some '!' then do
        let (text, cursor) ← tagText false (after.skip 1)
        if text.isEmpty then none
        else pure (Token.tag (String.ofList ('!' :: word ++ ['!'])) text, cursor)
      else do
        let (text, cursor) ← tagText false (cursor.skip 1)
        if text.isEmpty then pure (Token.tag "" "!", cursor)
        else pure (Token.tag "!" text, cursor)
  if atGap cursor.rest ∨ (inFlow ∧ cursor.rest.head? = some ',') then some (token, cursor)
  else none

/-- The name of the anchor or alias that starts here. -/
def anchorName (cursor : Cursor) : Option (String × Cursor) :=
  let (name, cursor) := (cursor.skip 1).takeWhile isWordChar
  let ends := atGap cursor.rest || cursor.rest.head?.any "?:,]\x7d%@\x60".toList.contains
  if !name.isEmpty && ends then some (String.ofList name, cursor) else none

/-- A number of a version: at most nine digits. -/
def versionNumber (cursor : Cursor) : Option (Nat × Cursor) :=
  let (digits, cursor) := cursor.takeWhile Char.isDigit
  if digits.isEmpty ∨ 9 < digits.length then none
  else some (Nat.ofDigitChars 10 digits 0, cursor)

/-- The directive that starts here, up to the end of its line. -/
def directive (cursor : Cursor) : Option (Token × Cursor) := do
  let (name, cursor) := (cursor.skip 1).takeWhile isWordChar
  if !atGap cursor.rest then none
  let cursor := cursor.skipWhile isBlank
  let (token, cursor) ← match String.ofList name with
    | "YAML" => do
      let (major, cursor) ← versionNumber cursor
      if cursor.rest.head? ≠ some '.' then none
      let (minor, cursor) ← versionNumber (cursor.skip 1)
      pure (Token.version major minor, cursor)
    | "TAG" => do
      if cursor.rest.head? ≠ some '!' then none
      let (word, cursor) := (cursor.skip 1).takeWhile isWordChar
      let isClosed := cursor.rest.head? = some '!'
      if !isClosed && !word.isEmpty then none
      let handle := String.ofList ('!' :: word ++ (if isClosed then ['!'] else []))
      let cursor := if isClosed then cursor.skip 1 else cursor
      if !cursor.rest.head?.any isBlank then none
      let (start, cursor) ← tagText true (cursor.skipWhile isBlank)
      if start.isEmpty ∨ !atGap cursor.rest then none
      pure (Token.tagHandle handle start, cursor)
    | _ => none
  let cursor := cursor.skipComment
  if atBreak cursor.rest then some (token, cursor.skipBreak) else none

/-! ### Tokens -/

/-- Reads a mark that starts or ends a document. -/
def documentMark (reader : Reader) (token : Token) : Option Reader := do
  let reader ← (reader.closeBlocks none).dropSlot
  return (reader.allowKey false).pushMark 3 token

/-- Reads a mark that opens a flow collection. -/
def openFlow (reader : Reader) (token : Token) : Option Reader := do
  let reader ← reader.addSlot
  return { (reader.allowKey true).pushMark 1 token with slots := none :: reader.slots }

/-- Reads a mark that closes a flow collection. -/
def closeFlow (reader : Reader) (token : Token) : Option Reader := do
  let reader ← reader.dropSlot
  let slots := if reader.inFlow then reader.slots.tail else reader.slots
  return { (reader.allowKey false).pushMark 1 token with slots }

/-- Reads the mark of an entry of a block, or of a key written with a mark. -/
def blockMark (reader : Reader) (block token : Token) (keyAfter : Bool) : Option Reader := do
  if !reader.inFlow && !reader.keyAllowed then none
  let reader ← (reader.openBlock block).dropSlot
  return (reader.allowKey keyAfter).pushMark 1 token

/-- The slot that a colon here fills: it is in this line and at most 1024 characters back. -/
def fillable? (reader : Reader) : Option Slot :=
  reader.slots.head?.join.filter fun slot =>
    slot.place.line == reader.cursor.place.line &&
      reader.cursor.place.index ≤ slot.place.index + 1024

/-- Reads the colon before a value. A slot that can be filled holds the key; where it cannot, and is
required, or where no key may start, there must not be a colon. -/
def valueMark (reader : Reader) : Option Reader :=
  match reader.fillable? with
  | some slot =>
    let opens := reader.opensBlock slot.place.column
    let found := if opens then [Token.blockMapping, .key] else [.key]
    some (({ reader with
      entries := reader.entries.set! slot.entry found
      blocks := if opens then slot.place.column :: reader.blocks else reader.blocks
      slots := none :: reader.slots.tail }.allowKey false).pushMark 1 .value)
  | none => do
    let reader ← reader.dropSlot
    if !reader.inFlow && !reader.keyAllowed then none
    return ((reader.openBlock .blockMapping).allowKey (!reader.inFlow)).pushMark 1 .value

/-- Reads something that may be a key. -/
def keyable (reader : Reader) (read : Cursor → Option (Token × Cursor)) : Option Reader := do
  let reader ← reader.addSlot
  let (token, cursor) ← read reader.cursor
  return { (reader.allowKey false).push token with cursor }

/-- Reads a block scalar. -/
def blockScalar (reader : Reader) (isLiteral : Bool) : Option Reader := do
  let reader ← reader.dropSlot
  let (text, cursor) ← Scalar.block isLiteral reader.indent? reader.cursor
  let token := Token.scalar text (if isLiteral then .literal else .folded)
  return { (reader.allowKey true).push token with cursor }

/-- Reads a plain scalar. A key may start after it if it ended with a break. -/
def plainScalar (reader : Reader) : Option Reader := do
  let reader ← reader.addSlot
  let indent := match reader.indent? with
    | some column => column + 1
    | none => 0
  let (text, endsLine, cursor) ← Scalar.plain reader.inFlow indent reader.cursor
  return { (reader.allowKey endsLine).push (.scalar text .plain) with cursor }

/-- Whether these characters cannot start a plain scalar. -/
def startsNoScalar (inFlow : Bool) : List Char → Bool
  | [] => true
  | c :: rest =>
    if c = '-' then rest.head?.any isBlank
    else if c = '?' || c = ':' then inFlow || atGap rest
    else isBlank c || isBreak c || ",[]#&*!|>'\"%@\x60".toList.contains c || c = '\x7b' ||
      c = '\x7d'

/-- Reads the token that starts here. -/
def readToken (reader : Reader) : Option Reader :=
  let place := reader.cursor.place
  let text := reader.cursor.rest
  if place.column = 0 ∧ text.head? = some '%' then do
    let reader ← (reader.closeBlocks none).dropSlot
    let (token, cursor) ← directive reader.cursor
    return { (reader.allowKey false).push token with cursor }
  else if Cursor.atMark '-' place text then reader.documentMark .documentStart
  else if Cursor.atMark '.' place text then reader.documentMark .documentEnd
  else
    match text with
    | '[' :: _ => reader.openFlow .flowSequence
    | '\x7b' :: _ => reader.openFlow .flowMapping
    | ']' :: _ => reader.closeFlow .flowSequenceEnd
    | '\x7d' :: _ => reader.closeFlow .flowMappingEnd
    | ',' :: _ => reader.dropSlot.map (fun reader => (reader.allowKey true).pushMark 1 .flowEntry)
    | '*' :: _ => reader.keyable (fun c => (anchorName c).map (fun (n, c) => (.alias n, c)))
    | '&' :: _ => reader.keyable (fun c => (anchorName c).map (fun (n, c) => (.anchor n, c)))
    | '!' :: _ => reader.keyable (tag reader.inFlow)
    | '\'' :: _ | '"' :: _ =>
      reader.keyable (fun c => (Scalar.quoted c).map (fun (t, c) => (.scalar t .quoted, c)))
    | c :: rest =>
      if c = '-' ∧ atGap rest then reader.blockMark .blockSequence .blockEntry true
      else if c = '?' ∧ (reader.inFlow ∨ atGap rest) then
        reader.blockMark .blockMapping .key (!reader.inFlow)
      else if c = ':' ∧ (reader.inFlow ∨ atGap rest) then reader.valueMark
      else if c = '|' ∧ !reader.inFlow then reader.blockScalar true
      else if c = '>' ∧ !reader.inFlow then reader.blockScalar false
      else if startsNoScalar reader.inFlow text then none
      else reader.plainScalar
    | [] => some reader

/-- Reads tokens up to the end of the text, of which at most `fuel` characters are left. -/
def readAll : (fuel : Nat) → Reader → Option Reader
  | 0, reader => some reader
  | fuel + 1, reader =>
    let reader := reader.skipToToken (reader.cursor.rest.length + 1)
    if reader.cursor.rest.isEmpty then (reader.closeBlocks none).dropSlot
    else do readAll fuel (← (reader.closeBlocks (some reader.column)).readToken)

end Reader

/-- The tokens of a text. A byte order mark at its start is passed over. -/
def Token.ofText? (text : String) : Option (List Token) := do
  let chars := unifyBreaks text.toList
  if !chars.all isAllowed then none
  let cursor : Cursor := { rest := chars }
  let cursor := if chars.head? = some '\ufeff' then cursor.skip 1 else cursor
  let reader ← Reader.readAll (chars.length + 1) { cursor }
  return reader.entries.toList.flatten

end JobOperator.Yaml
