import JobOperator.Yaml.Token

/-!
YAML documents as trees. An alias stands for a node that an anchor named before; since the node may
still be open there, aliases are kept in the tree, and the nodes with anchors beside it.
-/

namespace JobOperator.Yaml

/-- A node of a document. Of a scalar, the tag is kept as well. -/
inductive Node where
  | scalar (text : String) (style : Style) (tag : Option String)
  | sequence (items : List Node)
  | mapping (entries : List (Node × Node))
  | alias (anchor : Nat)

/-- The node of an empty place. -/
def Node.empty : Node := .scalar "" .plain none

/-- A document: its root, and its nodes with anchors, each under the number of its anchor. -/
structure Document where
  root : Node
  anchored : List (Nat × Node)

/-- The node that a node stands for. -/
def Document.resolve (document : Document) : Node → Node
  | .alias anchor => (document.anchored.lookup anchor).getD (.alias anchor)
  | node => node

namespace Node

/-- What the reader of nodes knows: the tokens left, the handles of tags, the anchors with their
numbers, last first, and the nodes with anchors. -/
structure Reading where
  tokens : List Token
  handles : List (String × String)
  anchors : List (String × Nat) := []
  anchored : List (Nat × Node) := []

/-- A reader of nodes. -/
abbrev Read := StateT Reading Option

namespace Read

/-- Refuses the text. -/
def refuse {α : Type} : Read α := fun _ => none

/-- The next token. -/
def peek : Read (Option Token) := fun s => some (s.tokens.head?, s)

/-- Passes over the next token. -/
def skip : Read Unit := fun s => some ((), { s with tokens := s.tokens.tail })

/-- Whether the next token is this one, which is then passed over. -/
def take (token : Token) : Read Bool := fun s =>
  if s.tokens.head? = some token then some (true, { s with tokens := s.tokens.tail })
  else some (false, s)

/-- Whether the next token is one of these. -/
def isNext (tokens : List Token) : Read Bool := fun s =>
  some (s.tokens.head?.any tokens.contains, s)

/-- The number of the anchor that a name stands for. -/
def anchorNumber (name : String) : Read Nat := do
  match (← get).anchors.lookup name with
  | some number => return number
  | none => refuse

/-- Gives a name to the node that follows. -/
def declare (name : String) : Read Nat := do
  let s ← get
  let number := s.anchors.length
  set { s with anchors := (name, number) :: s.anchors }
  return number

/-- The text of a tag. -/
def tagText (handle suffix : String) : Read String := do
  if handle = "" then return suffix
  match (← get).handles.lookup handle with
  | some start => return start ++ suffix
  | none => refuse

/-- The anchor and the tag before a node, in either order. -/
def properties : Read (Option Nat × Option String) := do
  match ← peek with
  | some (.anchor name) => do
    skip
    let anchor ← declare name
    match ← peek with
    | some (.tag handle suffix) => do
      skip
      return (some anchor, some (← tagText handle suffix))
    | _ => return (some anchor, none)
  | some (.tag handle suffix) => do
    skip
    let tag ← tagText handle suffix
    match ← peek with
    | some (.anchor name) => do
      skip
      return (some (← declare name), some tag)
    | _ => return (none, some tag)
  | _ => return (none, none)

/-- Keeps a node under the number of its anchor. -/
def keep (anchor : Option Nat) (node : Node) : Read Node := do
  match anchor with
  | some number => modify fun s => { s with anchored := (number, node) :: s.anchored }
  | none => pure ()
  return node

end Read

open Read

mutual

/-- Reads a node. A block may start here if `inBlock`, and the entries of a sequence may stand in
the column of the mapping around it if `inMapping`. -/
def read (inBlock inMapping : Bool) : (fuel : Nat) → Read Node
  | 0 => refuse
  | fuel + 1 => do
    match ← peek with
    | some (.alias name) => do
      skip
      return .alias (← anchorNumber name)
    | _ => do
      let (anchor, tag) ← properties
      let node ← match ← peek with
        | some (.scalar text style) => do
          skip
          pure (.scalar text style tag)
        | some .flowSequence => do
          skip
          pure (.sequence (← readFlowItems true fuel))
        | some .flowMapping => do
          skip
          pure (.mapping (← readFlowEntries true fuel))
        | token =>
          if inMapping ∧ token = some .blockEntry then do
            pure (.sequence (← readOpenItems fuel))
          else if inBlock ∧ token = some .blockSequence then do
            skip
            pure (.sequence (← readItems fuel))
          else if inBlock ∧ token = some .blockMapping then do
            skip
            pure (.mapping (← readEntries fuel))
          else if anchor.isSome ∨ tag.isSome then pure (.scalar "" .plain tag)
          else refuse
      keep anchor node

/-- Reads a node, or the empty place before one of the tokens that may follow it. -/
def readOrEmpty (inBlock inMapping : Bool) (following : List Token) : (fuel : Nat) → Read Node
  | 0 => refuse
  | fuel + 1 => do
    if ← isNext following then return .empty else read inBlock inMapping fuel

/-- Reads the entries of a block sequence. -/
def readItems : (fuel : Nat) → Read (List Node)
  | 0 => refuse
  | fuel + 1 => do
    if ← take .blockEntry then
      let item ← readOrEmpty true false [.blockEntry, .blockEnd] fuel
      return item :: (← readItems fuel)
    else if ← take .blockEnd then return []
    else refuse

/-- Reads the entries of a sequence in the column of the mapping around it. -/
def readOpenItems : (fuel : Nat) → Read (List Node)
  | 0 => refuse
  | fuel + 1 => do
    if ← take .blockEntry then
      let item ← readOrEmpty true false [.blockEntry, .key, .value, .blockEnd] fuel
      return item :: (← readOpenItems fuel)
    else return []

/-- Reads the value after a key, if there is one, before one of the tokens that may follow it. -/
def readValue (inBlock : Bool) (following : List Token) : (fuel : Nat) → Read Node
  | 0 => refuse
  | fuel + 1 => do
    if ← take .value then readOrEmpty inBlock inBlock following fuel else return .empty

/-- Reads the entries of a block mapping. -/
def readEntries : (fuel : Nat) → Read (List (Node × Node))
  | 0 => refuse
  | fuel + 1 => do
    if ← take .key then
      let key ← readOrEmpty true true [.key, .value, .blockEnd] fuel
      let value ← readValue true [.key, .value, .blockEnd] fuel
      return (key, value) :: (← readEntries fuel)
    else if ← take .blockEnd then return []
    else refuse

/-- Reads the items of a flow sequence, with a comma before all but the `first`. A key in front of an
item makes it a mapping of one entry. -/
def readFlowItems (first : Bool) : (fuel : Nat) → Read (List Node)
  | 0 => refuse
  | fuel + 1 => do
    if ← take .flowSequenceEnd then return []
    if !first then if !(← take .flowEntry) then refuse
    if ← take .key then
      let key ←
        if ← isNext [.value, .flowEntry, .flowSequenceEnd] then do
          skip
          pure .empty
        else read false false fuel
      let value ← readValue false [.flowEntry, .flowSequenceEnd] fuel
      return .mapping [(key, value)] :: (← readFlowItems false fuel)
    else if ← take .flowSequenceEnd then return []
    else
      let item ← read false false fuel
      return item :: (← readFlowItems false fuel)

/-- Reads the entries of a flow mapping, with a comma before all but the `first`. -/
def readFlowEntries (first : Bool) : (fuel : Nat) → Read (List (Node × Node))
  | 0 => refuse
  | fuel + 1 => do
    if ← take .flowMappingEnd then return []
    if !first then if !(← take .flowEntry) then refuse
    if ← take .key then
      let key ← readOrEmpty false false [.value, .flowEntry, .flowMappingEnd] fuel
      let value ← readValue false [.flowEntry, .flowMappingEnd] fuel
      return (key, value) :: (← readFlowEntries false fuel)
    else if ← take .flowMappingEnd then return []
    else
      let key ← read false false fuel
      return (key, .empty) :: (← readFlowEntries false fuel)

end

/-- The handles of tags that every document has. -/
def usualHandles : List (String × String) := [("!", "!"), ("!!", "tag:yaml.org,2002:")]

/-- Reads the directives before a document: at most one version, which must be known, and one start
for each handle. -/
def readDirectives (versioned : Bool) (handles : List (String × String)) :
    List Token → Option (List (String × String) × List Token)
  | .version major minor :: rest =>
    if versioned ∨ major ≠ 1 ∨ (minor ≠ 1 ∧ minor ≠ 2) then none
    else readDirectives true handles rest
  | .tagHandle handle start :: rest =>
    if (handles.lookup handle).isSome then none
    else readDirectives versioned ((handle, start) :: handles) rest
  | rest => some (handles ++ usualHandles, rest)

end Node

/-- The only document of a text, if it has one. -/
def Document.ofText? (text : String) : Option (Option Document) := do
  let tokens ← Token.ofText? text
  if tokens.isEmpty then return none
  let (handles, content) ← Node.readDirectives false [] tokens
  let isExplicit := content.head? = some .documentStart
  if content.length ≠ tokens.length && !isExplicit then none
  let reading : Node.Reading := { tokens := if isExplicit then content.tail else content, handles }
  let isEmpty := reading.tokens.head?.all fun token => match token with
    | .version .. | .tagHandle .. | .documentStart | .documentEnd => true
    | _ => false
  let (root, reading) ←
    if isExplicit && isEmpty then pure (Node.empty, reading)
    else (Node.read true false (4 * tokens.length + 4)).run reading
  if reading.tokens.all (· = .documentEnd) then
    return some { root, anchored := reading.anchored }
  else none

end JobOperator.Yaml
