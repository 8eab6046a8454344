import IntWasm.Yaml.Character

/-!
# Reading a text of YAML

A `Source` is a text with a position in it. The text is taken block by block, each as many whole
characters as fit into 512 bytes, and only when a character of the block is needed. A block with a
character that may not stand in a document cannot be taken, so what comes before it can be read as
long as nothing of the block is asked for.

The characters that were taken last form a window. As long as a window begins with a mark of the
byte order, the character in the first column of a line is passed over.
-/

namespace IntWasm.Yaml

/-- A run of characters that is taken at once. -/
structure Block where
  size : Nat
  /-- Whether all of its characters may stand in a document. -/
  allowed : Bool
  deriving Repr, DecidableEq, Inhabited

/-- The most bytes of a block. -/
def blockBytes : Nat := 512

/-- Cuts a text into blocks, the first of which has `used` bytes and `size` characters already. -/
def blocksFrom (used size : Nat) (allowed : Bool) : List Char → List Block
  | [] => if size = 0 then [] else [⟨size, allowed⟩]
  | c :: rest =>
    let width := c.utf8Size
    if used + width ≤ blockBytes then
      blocksFrom (used + width) (size + 1) (allowed && isAllowed c) rest
    else ⟨size, allowed⟩ :: blocksFrom width 1 (isAllowed c) rest

/-- A text with a position in it. -/
structure Source where
  /-- The characters from the position on. -/
  rest : List Char
  /-- The length of the whole text. -/
  size : Nat
  /-- The number of characters before the position. -/
  index : Nat := 0
  line : Nat := 0
  column : Nat := 0
  /-- How many characters from the position on were taken, the end among them. -/
  taken : Nat := 0
  /-- The blocks that were not taken yet. -/
  blocks : List Block
  /-- Whether the window begins with a mark of the byte order. -/
  marked : Bool := false
  deriving Repr, DecidableEq, Inhabited

namespace Source

/-- A text from its beginning. A mark of the byte order in front is not a part of it, but of its
first block. -/
def ofText : List Char → Source
  | [] => { rest := [], size := 0, blocks := [] }
  | c :: rest =>
    if c = byteOrderMark then
      { rest, size := rest.length, blocks := blocksFrom c.utf8Size 0 true rest }
    else { rest := c :: rest, size := rest.length + 1, blocks := blocksFrom 0 0 true (c :: rest) }

/-- The source after one more character of its line. -/
def advance (s : Source) : Source :=
  { s with
    rest := s.rest.tail, index := s.index + 1, column := s.column + 1, taken := s.taken - 1 }

/-- The source at the beginning of a line. -/
def newLine (s : Source) : Source := { s with line := s.line + 1, column := 0 }

end Source

/-- Takes blocks until `n` characters are there; behind the last block the end is taken. -/
def takeBlocks (n : Nat) : List Block → Nat → Option (Nat × List Block)
  | [], taken => some (taken + 1, [])
  | b :: rest, taken =>
    if b.allowed then
      let taken := taken + b.size
      if n ≤ taken then some (taken, rest) else takeBlocks n rest taken
    else none

/-- A computation that reads from a source; it fails if the text is not YAML. -/
abbrev Scan := StateT Source Option

namespace Scan

/-- Makes sure that `n` characters were taken. The window then begins at the position. -/
def need (n : Nat) : Scan Unit := fun s =>
  if n ≤ s.taken then some ((), s)
  else (takeBlocks n s.blocks s.taken).map fun (taken, blocks) =>
    ((), { s with taken, blocks, marked := s.rest.head? = some byteOrderMark })

/-- The character at a distance from the position. -/
def ahead (n : Nat) : Scan Char := return (← get).rest.getD n endMark

/-- The character at the position. -/
def here : Scan Char := ahead 0

/-- The column of the position. -/
def column : Scan Nat := return (← get).column

/-- Passes over the character at the position. -/
def skip : Scan Unit := modify Source.advance

/-- Reads the character at the position. -/
def next : Scan Char := do
  let c ← here
  skip
  return c

/-- More steps than any loop over the text takes. -/
def ample : Scan Nat := return (← get).size + 2

/-- Reads the end of a line, if there is one. The separators of lines and paragraphs stand for
themselves, all other ends for a line feed. -/
def lineBreak : Scan (List Char) := do
  let c ← here
  if isBreak c then
    if c = '\r' && (← ahead 1) = '\n' then skip
    skip
    modify Source.newLine
    return [if c = '\u2028' || c = '\u2029' then c else '\n']
  else return []

/-- Reads characters of a class, behind others that were read and stand in reverse. -/
def readWhileFrom (p : Char → Bool) : Nat → List Char → Scan (List Char)
  | 0, acc => return acc.reverse
  | fuel + 1, acc => do
    need 1
    if p (← here) then readWhileFrom p fuel ((← next) :: acc) else return acc.reverse

/-- Reads the characters of a class up to the first that is not in it. -/
def readWhile (p : Char → Bool) : Scan (List Char) := do readWhileFrom p (← ample) []

/-- Passes over the characters of a class. -/
def skipWhile (p : Char → Bool) : Scan Unit := do let _ ← readWhile p

/-- Passes over a comment, if there is one. -/
def skipComment : Scan Unit := do
  if (← here) = '#' then skipWhile fun c => !isBreakOrEnd c

/-- Passes over blanks and a comment, behind which the line has to end, and the end of the line. -/
def restOfLine : Scan Unit := do
  skipWhile isBlank
  skipComment
  if !isBreakOrEnd (← here) then failure
  if isBreak (← here) then
    need 2
    let _ ← lineBreak

/-- Whether one of the marks that divide documents stands at the position. -/
def atDocumentMark (mark : Char) : Scan Bool := do
  return (← column) = 0 && (← here) = mark && (← ahead 1) = mark && (← ahead 2) = mark &&
    isGapOrEnd (← ahead 3)

end Scan

end IntWasm.Yaml
