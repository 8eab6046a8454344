import IntWasm.Yaml.Scalar
import IntWasm.Yaml.Token

/-!
# The tokens of a text

The tokens of a text are found one after another. Two things need more than the next characters.

The lines of a block are recognised by the column at which they begin: where a line begins further
right than those of the block around it, a block begins, and where it begins further left, blocks
end.

A name in front of a colon needs no mark of its own, so it is known to be a name only when the colon
is found. Until then the tokens from the possible name on are held back, and when the colon is found
the marks of the name and of its mapping are put in front of them. A name has to end in its line and
within 1024 characters. At the beginning of a line of a block a name has to come.
-/

namespace IntWasm.Yaml

/-- The most characters of a name. -/
def longestKey : Nat := 1024

/-- The most collections in flow form inside each other. -/
def deepestFlow : Nat := 10000

/-- The most blocks inside each other. -/
def deepestBlock : Nat := 10000

/-- A place where a name may begin. -/
structure PossibleKey where
  /-- The number of the token that begins there. -/
  number : Nat
  /-- Whether a name has to come. -/
  required : Bool
  /-- Whether tokens are held back for it. -/
  held : Bool := true
  index : Nat
  line : Nat
  column : Nat
  deriving Repr, DecidableEq, Inhabited

/-- What is known about names inside a collection in flow form, or outside of all. -/
structure Level where
  /-- The number of the token that opens the collection. -/
  number : Nat := 0
  /-- Whether a name may have begun inside. -/
  used : Bool := false
  /-- The place where the name begins that may come next. -/
  key : Option PossibleKey := none
  deriving Repr, DecidableEq, Inhabited

/-- A text in which tokens are being found. -/
structure Lexer where
  source : Source
  /-- The tokens that are held back. -/
  queue : List Token := []
  /-- The number of tokens that were given out. -/
  given : Nat := 0
  /-- The innermost collection in flow form. -/
  level : Level := {}
  /-- What is around it. -/
  outer : List Level := []
  /-- The number of collections in flow form around the position. -/
  depth : Nat := 0
  /-- The column behind that at which the lines of the innermost block begin; zero is no block. -/
  margin : Nat := 0
  /-- The margins of the blocks around it. -/
  margins : List Nat := []
  /-- Whether a name may begin at the position. -/
  keyAllowed : Bool := true
  deriving Repr, DecidableEq, Inhabited

/-- A step in finding tokens; it fails where the text is not YAML. -/
abbrev Lex := StateT Lexer Option

namespace Lex

/-- Reads from the source. -/
def scan {α : Type} (r : Scan α) : Lex α := fun l =>
  (r l.source).map fun (a, source) => (a, { l with source })

/-- Whether the position is inside a collection in flow form. -/
def inFlow : Lex Bool := return 0 < (← get).depth

/-- Says whether a name may begin at the position. -/
def allowKey (allowed : Bool) : Lex Unit := modify ({ · with keyAllowed := allowed })

/-! ## The queue -/

/-- Adds a token behind the others. -/
def append (t : Token) : Lex Unit := modify fun l => { l with queue := l.queue ++ [t] }

/-- Adds a token in front of the token with a number, or behind all if that was given out. -/
def insert (number : Nat) (t : Token) : Lex Unit := modify fun l =>
  if number < l.given then { l with queue := l.queue ++ [t] }
  else { l with queue := l.queue.insertIdx (number - l.given) t }

/-- Passes over a mark and adds its token. -/
def mark (t : Token) : Lex Unit := do
  scan Scan.skip
  append t

/-! ## Blocks -/

/-- Opens a block at a column, unless one is open there. Its token comes in front of the token with
a number, or behind all. -/
def openBlock (column : Nat) (number : Option Nat) (t : Token) : Lex Unit := do
  let l ← get
  if l.depth = 0 && l.margin ≤ column then
    set { l with margin := column + 1, margins := l.margin :: l.margins }
    if deepestBlock ≤ l.margins.length then failure
    match number with
    | none => append t
    | some n => insert n t

/-- The margins that are left when all blocks with a margin above `limit` end, and how many end. -/
def outerMargins (limit : Nat) : Nat → List Nat → Nat × List Nat × Nat
  | margin, [] => (margin, [], 0)
  | margin, m :: ms =>
    if limit < margin then
      let (margin, margins, n) := outerMargins limit m ms
      (margin, margins, n + 1)
    else (margin, m :: ms, 0)

/-- Ends all blocks with a margin above `limit`. -/
def closeBlocks (limit : Nat) : Lex Unit := modify fun l =>
  if 0 < l.depth then l
  else
    let (margin, margins, n) := outerMargins limit l.margin l.margins
    { l with margin, margins, queue := l.queue ++ List.replicate n .blockEnd }

/-! ## Names without a mark -/

/-- Whether a name that begins at a place would be too long by now or has left its line. -/
def isStale (k : PossibleKey) : Lex Bool := do
  let s := (← get).source
  return k.line < s.line || k.index + longestKey < s.index

/-- Gives up the name that may come next. -/
def dropKey : Lex Unit := do
  match (← get).level.key with
  | none => return ()
  | some k =>
    if k.required then failure
    modify fun l => { l with level := { l.level with key := none } }

/-- Notes that a name may begin at the position. -/
def noteKey : Lex Unit := do
  let l ← get
  if l.keyAllowed then
    dropKey
    let s := l.source
    let key : PossibleKey :=
      { number := l.given + l.queue.length, required := l.depth = 0 && l.margin = s.column + 1
        index := s.index, line := s.line, column := s.column }
    modify fun l => { l with level := { l.level with key, used := true } }

/-- The name that the position is behind, if there may be one. -/
def currentKey : Lex (Option PossibleKey) := do
  match (← get).level.key with
  | none => return none
  | some k =>
    if ← isStale k then
      dropKey
      return none
    else return some k

/-- Enters a collection in flow form. -/
def openFlow (t : Token) : Lex Unit := do
  noteKey
  modify fun l => { l with
    level := { number := l.given + l.queue.length }, outer := l.level :: l.outer
    depth := l.depth + 1 }
  if deepestFlow < (← get).depth then failure
  allowKey true
  mark t

/-- Leaves a collection in flow form. No tokens are held back for a collection as a name in which
no name may have begun. -/
def closeFlow (t : Token) : Lex Unit := do
  dropKey
  modify fun l =>
    match l.outer with
    | [] => l
    | o :: outer =>
      let release (k : PossibleKey) : PossibleKey :=
        if !l.level.used && k.number = l.level.number then { k with held := false } else k
      { l with level := { o with key := o.key.map release }, outer, depth := l.depth - 1 }
  allowKey false
  mark t

/-! ## The kinds of tokens -/

/-- Passes over spaces, comments and ends of lines. Tabs may not stand where a name may begin. -/
def skipGap : Nat → Lex Unit
  | 0 => return ()
  | fuel + 1 => do
    scan (Scan.need 1)
    if (← get).source.column = 0 && (← get).source.marked then scan Scan.skip
    scan (Scan.need 1)
    -- In a block a tab could be taken for indentation.
    let tabs := (← inFlow) || !(← get).keyAllowed
    scan (Scan.skipWhile fun c => c = ' ' || (tabs && c = '\t'))
    scan Scan.skipComment
    if isBreak (← scan Scan.here) then
      scan (Scan.need 2)
      let _ ← scan Scan.lineBreak
      if !(← inFlow) then allowKey true
      skipGap fuel

/-- Ends all blocks and names. -/
def closeAll : Lex Unit := do
  closeBlocks 0
  dropKey
  allowKey false

/-- The end of the text, which ends the line. -/
def streamEnd : Lex Unit := do
  if (← get).source.column ≠ 0 then
    modify fun l => { l with source := l.source.newLine }
  closeAll
  append .streamEnd

/-- A directive. -/
def directive : Lex Unit := do
  closeAll
  append (← scan Scan.directive)

/-- A mark that divides documents. -/
def documentMark (t : Token) : Lex Unit := do
  closeAll
  scan Scan.skip
  scan Scan.skip
  mark t

/-- A comma in flow form. -/
def flowEntry : Lex Unit := do
  dropKey
  allowKey true
  mark .flowEntry

/-- An entry of a sequence in a block. -/
def blockEntry : Lex Unit := do
  if !(← inFlow) then
    if !(← get).keyAllowed then failure
    openBlock (← get).source.column none .blockSequenceStart
  dropKey
  allowKey true
  mark .blockEntry

/-- The mark of a name. -/
def key : Lex Unit := do
  if !(← inFlow) then
    if !(← get).keyAllowed then failure
    openBlock (← get).source.column none .blockMappingStart
  dropKey
  allowKey !(← inFlow)
  mark .key

/-- The colon behind a name. -/
def value : Lex Unit := do
  match ← currentKey with
  | some k =>
    -- The name was scanned already, so its mark goes in front of it in the queue.
    insert k.number .key
    openBlock k.column (some k.number) .blockMappingStart
    modify fun l => { l with level := { l.level with key := none } }
    allowKey false
  | none =>
    if !(← inFlow) then
      if !(← get).keyAllowed then failure
      openBlock (← get).source.column none .blockMappingStart
    allowKey !(← inFlow)
  mark .value

/-- A token that may begin a name, and behind which none begins. -/
def possibleKey (r : Scan Token) : Lex Unit := do
  noteKey
  allowKey false
  append (← scan r)

/-- A plain scalar. If the line ended behind it, a name may follow. -/
def plain : Lex Unit := do
  noteKey
  allowKey false
  let (text, broken) ← scan (Scan.plain (← inFlow) (← get).margin)
  append (.scalar text true)
  if broken then allowKey true

/-- A scalar that is a block of lines. -/
def block (folded : Bool) : Lex Unit := do
  dropKey
  allowKey true
  append (.scalar (← scan (Scan.block folded (← get).margin)) false)

/-- Finds the next token. -/
def fetch : Lex Unit := do
  scan (Scan.need 1)
  skipGap (← scan Scan.ample)
  closeBlocks ((← get).source.column + 1)
  scan (Scan.need 4)
  let c ← scan Scan.here
  let d ← scan (Scan.ahead 1)
  let flow ← inFlow
  if c = endMark then streamEnd
  else if (← get).source.column = 0 && c = '%' then directive
  else if ← scan (Scan.atDocumentMark '-') then documentMark .documentStart
  else if ← scan (Scan.atDocumentMark '.') then documentMark .documentEnd
  else if c = '[' then openFlow .flowSequenceStart
  else if c = '\x7b' then openFlow .flowMappingStart
  else if c = ']' then closeFlow .flowSequenceEnd
  else if c = '\x7d' then closeFlow .flowMappingEnd
  else if c = ',' then flowEntry
  else if c = '-' && isGapOrEnd d then blockEntry
  else if c = '?' && (flow || isGapOrEnd d) then key
  else if c = ':' && (flow || isGapOrEnd d) then value
  else if c = '*' then possibleKey (.alias <$> Scan.anchorName)
  else if c = '&' then possibleKey (.anchor <$> Scan.anchorName)
  else if c = '!' then possibleKey ((fun (h, s) => .tag h s) <$> Scan.tag)
  else if c = '|' && !flow then block false
  else if c = '>' && !flow then block true
  else if c = '\'' || c = '"' then possibleKey ((.scalar · false) <$> Scan.quoted c)
  else if (!isGapOrEnd c && !isIndicator c) || c = '-' || (!flow && (c = '?' || c = ':')) then plain
  else failure

/-- Whether the first token of the queue cannot be given out yet, because a name may begin with
it. -/
def holdsBack : Lex Bool := do
  let l ← get
  if l.queue.isEmpty then return true
  match (l.level :: l.outer).findSome? (·.key.filter fun k => k.held && k.number = l.given) with
  | none => return false
  | some k =>
    if ← isStale k then
      if k.required then failure
      return false
    else return true

end Lex

namespace Token

/-- The tokens from a state on. -/
def scanFrom : Nat → Lexer → List Token
  | 0, _ => [fault]
  | fuel + 1, l =>
    match Lex.holdsBack l with
    | none => [fault]
    | some (true, l) =>
      match Lex.fetch l with
      | none => [fault]
      | some (_, l) => scanFrom fuel l
    | some (false, l) =>
      match l.queue with
      | [] => [fault]
      | streamEnd :: _ => [streamEnd]
      | t :: queue => t :: scanFrom fuel { l with queue, given := l.given + 1 }

/-- The tokens of a text. A token is found by reading at least one character, and for each at most
three more tokens are put into the queue, so the steps suffice. -/
def scan (cs : List Char) : List Token :=
  let source := Source.ofText cs
  scanFrom (8 * (source.size + 4)) { source }

end Token

end IntWasm.Yaml
