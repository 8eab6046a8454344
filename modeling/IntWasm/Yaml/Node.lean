import IntWasm.Yaml.Lexer

/-!
# Documents of YAML

A document is a tree of scalars, sequences and mappings, in which a part that was named by an anchor
may stand again as an alias. `firstDocument?` reads the first document of a text; what follows it is
only looked at as far as the next token.
-/

namespace IntWasm.Yaml

/-- A scalar as it stands in a document. -/
structure Scalar where
  text : List Char := []
  /-- The tag in full; empty if there is none. -/
  tag : List Char := []
  /-- Whether what the scalar stands for depends on how it is written. -/
  implicit : Bool := true
  deriving Repr, DecidableEq, Inhabited

/-- A part of a document. -/
inductive Node where
  | scalar (s : Scalar)
  | sequence (items : List Node)
  | mapping (entries : List (Node × Node))
  /-- Another mention of a part. -/
  | alias (target : Node)
  deriving Repr, Inhabited

/-- What is left of a document that is being read. -/
structure Reading where
  tokens : List Token
  /-- The parts that have names, the last one first; a part that is not complete is missing. -/
  anchors : List (List Char × Option Node) := []
  /-- What handles stand for in tags. -/
  handles : List (List Char × List Char) := []
  deriving Repr, Inhabited

/-- A step in reading a document; it fails if there is none. -/
abbrev NodeReader := StateT Reading Option

namespace NodeReader

/-- The next token. -/
def peek : NodeReader Token := fun r =>
  match r.tokens with
  | [] | .fault :: _ => none
  | t :: _ => some (t, r)

/-- Passes over a token. -/
def skip : NodeReader Unit := modify fun r => { r with tokens := r.tokens.tail }

/-- Passes over a token of a kind. -/
def expect (t : Token) : NodeReader Unit := do
  if (← peek) = t then skip else failure

/-- Whether the next token is among some. -/
def isAt (ts : List Token) : NodeReader Bool := return ts.contains (← peek)

/-- The scalar that stands where there is nothing. -/
def nothing : Node := .scalar {}

/-! ## Anchors and tags -/

/-- Names the part that begins here, and gives its place among the names. -/
def reserve (name : List Char) : NodeReader Nat := modifyGet fun r =>
  (r.anchors.length, { r with anchors := (name, none) :: r.anchors })

/-- Completes the part at a place among the names. -/
def complete (place : Nat) (n : Node) : NodeReader Unit := modify fun r =>
  { r with
    anchors := r.anchors.modify (r.anchors.length - 1 - place) fun (name, _) => (name, some n) }

/-- The part with a name. A part cannot be mentioned in itself. -/
def named (name : List Char) : NodeReader Node := do
  match (← get).anchors.lookup name with
  | some (some n) => return n
  | _ => failure

/-- Reads an anchor, if there is one. -/
def anchor? : NodeReader (Option (List Char)) := do
  match ← peek with
  | .anchor name =>
    skip
    return some name
  | _ => return none

/-- Reads a tag, if there is one. -/
def tag? : NodeReader (Option (List Char)) := do
  match ← peek with
  | .tag handle suffix =>
    skip
    if handle.isEmpty then return some suffix
    match (← get).handles.lookup handle with
    | some uri => return some (uri ++ suffix)
    | none => failure
  | _ => return none

/-- Reads an anchor and a tag, which may stand in either order. -/
def properties : NodeReader (Option (List Char) × Option (List Char)) := do
  match ← anchor? with
  | some a => return (some a, ← tag?)
  | none =>
    match ← tag? with
    | some t => return (← anchor?, some t)
    | none => return (none, none)

/-! ## Nodes -/

mutual

/-- Reads a node. Outside of a block none begins, and only in a mapping in block form the entries of
a sequence may stand at its own column. -/
def node : Nat → Bool → Bool → NodeReader Node
  | 0, _, _ => failure
  | fuel + 1, inBlock, indentless => do
    match ← peek with
    | .alias name =>
      skip
      return .alias (← named name)
    | _ =>
      let (anchor, tag) ← properties
      let place ← anchor.mapM reserve
      let n ← content fuel inBlock indentless (anchor.isSome || tag.isSome) (tag.getD [])
      if let some p := place then complete p n
      return n

/-- Reads what comes behind an anchor and a tag. If there was one of them, nothing may come. -/
def content : Nat → Bool → Bool → Bool → List Char → NodeReader Node
  | 0, _, _, _, _ => failure
  | fuel + 1, inBlock, indentless, proper, tag => do
    let empty : NodeReader Node :=
      if proper then return .scalar { tag, implicit := tag.isEmpty } else failure
    match ← peek with
    | .blockEntry => if indentless then .sequence <$> indentlessItems fuel else empty
    | .scalar text plain =>
      skip
      return .scalar { text, tag, implicit := (tag.isEmpty && plain) || tag = ['!'] }
    | .flowSequenceStart =>
      skip
      .sequence <$> flowItems fuel true
    | .flowMappingStart =>
      skip
      .mapping <$> flowEntries fuel true
    | .blockSequenceStart =>
      if inBlock then
        skip
        .sequence <$> blockItems fuel
      else empty
    | .blockMappingStart =>
      if inBlock then
        skip
        .mapping <$> blockEntries fuel
      else empty
    | _ => empty

/-- Reads a node, unless one of some tokens is next. -/
def nodeUnless : Nat → List Token → Bool → Bool → NodeReader Node
  | 0, _, _, _ => failure
  | fuel + 1, ts, inBlock, indentless => do
    if ← isAt ts then return nothing else node fuel inBlock indentless

/-- Reads the items of a sequence in block form. -/
def blockItems : Nat → NodeReader (List Node)
  | 0 => failure
  | fuel + 1 => do
    if ← isAt [.blockEntry] then
      skip
      let n ← nodeUnless fuel [.blockEntry, .blockEnd] true false
      return n :: (← blockItems fuel)
    else
      expect .blockEnd
      return []

/-- Reads the items of a sequence at the column of the mapping around it. -/
def indentlessItems : Nat → NodeReader (List Node)
  | 0 => failure
  | fuel + 1 => do
    if ← isAt [.blockEntry] then
      skip
      let n ← nodeUnless fuel [.blockEntry, .key, .value, .blockEnd] true false
      return n :: (← indentlessItems fuel)
    else return []

/-- Reads the entries of a mapping in block form. -/
def blockEntries : Nat → NodeReader (List (Node × Node))
  | 0 => failure
  | fuel + 1 => do
    if ← isAt [.key] then
      skip
      let k ← nodeUnless fuel [.key, .value, .blockEnd] true true
      let v ← valueUnless fuel [.key, .value, .blockEnd] true
      return (k, v) :: (← blockEntries fuel)
    else
      expect .blockEnd
      return []

/-- Reads the value of an entry, which may be left out. -/
def valueUnless : Nat → List Token → Bool → NodeReader Node
  | 0, _, _ => failure
  | fuel + 1, ts, inBlock => do
    if ← isAt [.value] then
      skip
      nodeUnless fuel ts inBlock inBlock
    else return nothing

/-- Reads the items of a sequence in flow form. An item with a colon is a mapping of one entry. -/
def flowItems : Nat → Bool → NodeReader (List Node)
  | 0, _ => failure
  | fuel + 1, first => do
    if !first && !(← isAt [.flowSequenceEnd]) then expect .flowEntry
    if ← isAt [.flowSequenceEnd] then
      skip
      return []
    else if ← isAt [.key] then
      skip
      let n ← flowPair fuel
      return n :: (← flowItems fuel false)
    else
      let n ← node fuel false false
      return n :: (← flowItems fuel false)

/-- Reads a mapping of one entry in a sequence. If its name is left out, the token behind it is
passed over. -/
def flowPair : Nat → NodeReader Node
  | 0 => failure
  | fuel + 1 => do
    let missing ← isAt [.value, .flowEntry, .flowSequenceEnd]
    let k ← nodeUnless fuel [.value, .flowEntry, .flowSequenceEnd] false false
    if missing then skip
    let v ← valueUnless fuel [.flowEntry, .flowSequenceEnd] false
    return .mapping [(k, v)]

/-- Reads the entries of a mapping in flow form. Without a colon there is no value. -/
def flowEntries : Nat → Bool → NodeReader (List (Node × Node))
  | 0, _ => failure
  | fuel + 1, first => do
    if !first && !(← isAt [.flowMappingEnd]) then expect .flowEntry
    if ← isAt [.flowMappingEnd] then
      skip
      return []
    else if ← isAt [.key] then
      skip
      let k ← nodeUnless fuel [.value, .flowEntry, .flowMappingEnd] false false
      let v ← valueUnless fuel [.flowEntry, .flowMappingEnd] false
      return (k, v) :: (← flowEntries fuel false)
    else
      let k ← node fuel false false
      return (k, nothing) :: (← flowEntries fuel false)

end

/-! ## Documents -/

/-- The handles that every document has. -/
def standardHandles : List (List Char × List Char) :=
  [(['!'], ['!']), (['!', '!'], "tag:yaml.org,2002:".toList)]

/-- Reads directives: one version at most, which has to be 1.1, and every handle once. -/
def directives : Nat → Bool → NodeReader Unit
  | 0, _ => failure
  | fuel + 1, versioned => do
    match ← peek with
    | .version major minor =>
      if versioned || major ≠ 1 || minor ≠ 1 then failure
      skip
      directives fuel true
    | .handle name uri =>
      if ((← get).handles.lookup name).isSome then failure
      skip
      modify fun r => { r with handles := r.handles ++ [(name, uri)] }
      directives fuel versioned
    | _ => modify fun r => { r with handles := r.handles ++ standardHandles }

/-- Whether a token begins a document with directives or a mark. -/
def startsDocument : Token → Bool
  | .version .. | .handle .. | .documentStart => true
  | _ => false

/-- Reads the first document, if there is one, and looks at the token behind it. -/
def document (fuel : Nat) : NodeReader (Option Node) := do
  let first ← peek
  if first = .streamEnd then return none
  directives fuel false
  let root ←
    if startsDocument first then do
      expect .documentStart
      let next ← peek
      if startsDocument next || next = .documentEnd || next = .streamEnd then pure nothing
      else node fuel true false
    else node fuel true false
  let _ ← peek
  return some root

end NodeReader

/-- The first document of a text. The outer option says whether the text is YAML so far, the inner
one whether there is a document. Every token makes at most four steps necessary. -/
def firstDocument? (s : String) : Option (Option Node) :=
  let tokens := Token.scan s.toList
  (NodeReader.document (4 * tokens.length + 8)).run' { tokens }

end IntWasm.Yaml
