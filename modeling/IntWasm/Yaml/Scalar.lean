import IntWasm.Yaml.Source

/-!
# Scalars in a text

A scalar is written plainly, between quotes, or as a block of lines. In the first two forms the end
of a line inside a scalar is folded: it stands for a space, and where further lines are empty, for
their ends. In a folded block the same holds between lines that begin with no blank.
-/

namespace IntWasm.Yaml

/-! ## Gaps between words -/

/-- What stands between two words of a scalar. -/
structure Gap where
  /-- The blanks, as long as the line has not ended. -/
  blanks : List Char := []
  /-- The first end of a line. -/
  first : List Char := []
  /-- The ends of further lines. -/
  more : List Char := []
  /-- Whether a line has ended. -/
  broken : Bool := false
  deriving Repr, DecidableEq, Inhabited

/-- What a gap stands for. -/
def Gap.text (g : Gap) : List Char :=
  if g.broken then
    if g.first.head? = some '\n' then (if g.more.isEmpty then [' '] else g.more)
    else g.first ++ g.more
  else g.blanks

namespace Scan

/-- Reads on in a gap. A tab may not stand before the column `margin` of a further line. -/
def gapFrom (margin : Nat) : Nat → Gap → Scan Gap
  | 0, g => return g
  | fuel + 1, g => do
    let c ← here
    if isBlank c then
      if g.broken && (← column) < margin && c = '\t' then failure
      skip
      need 1
      gapFrom margin fuel (if g.broken then g else { g with blanks := g.blanks ++ [c] })
    else if isBreak c then
      need 2
      let b ← lineBreak
      need 1
      gapFrom margin fuel
        (if g.broken then { g with more := g.more ++ b }
         else { g with blanks := [], first := b, broken := true })
    else return g

/-! ## Plain scalars -/

/-- Whether a plain scalar ends at the position though no gap begins there. -/
def endsPlain (inFlow : Bool) : Scan Bool := do
  let c ← here
  return (c = ':' && isGapOrEnd (← ahead 1)) || (inFlow && isFlowMark c)

/-- Reads a word of a plain scalar, in reverse behind what was read before. -/
def plainWord (inFlow : Bool) : Nat → List Char → Scan (List Char)
  | 0, acc => return acc
  | fuel + 1, acc => do
    if isGapOrEnd (← here) || (← endsPlain inFlow) then return acc
    let c ← next
    need 2
    plainWord inFlow fuel (c :: acc)

/-- Reads on in a plain scalar: `acc` is what was read, in reverse, and `g` the gap behind it. -/
def plainFrom (inFlow : Bool) (margin : Nat) : Nat → List Char → Gap → Scan (List Char × Bool)
  | 0, acc, g => return (acc.reverse, g.broken)
  | fuel + 1, acc, g => do
    need 4
    if (← atDocumentMark '-') || (← atDocumentMark '.') || (← here) = '#' then
      return (acc.reverse, g.broken)
    let word ← plainWord inFlow (← ample) []
    let (acc, g) :=
      if word.isEmpty then (acc, g) else (word ++ g.text.reverse ++ acc, ({} : Gap))
    if !isBlank (← here) && !isBreak (← here) then return (acc.reverse, g.broken)
    need 1
    -- The gap belongs to the scalar only if another word follows.
    let g ← gapFrom margin (← ample) g
    if !inFlow && (← column) < margin then return (acc.reverse, g.broken)
    plainFrom inFlow margin fuel acc g

/-- Reads a plain scalar, and says whether the line ended behind it. Outside of flow form its lines
stand at the column `margin` or behind. -/
def plain (inFlow : Bool) (margin : Nat) : Scan (List Char × Bool) := do
  plainFrom inFlow margin (← ample) [] {}

/-! ## Quoted scalars -/

/-- The characters that stand for another one behind a backslash. -/
def escapes : List (Char × Char) :=
  [('0', '\x00'), ('a', '\x07'), ('b', '\x08'), ('t', '\t'), ('\t', '\t'), ('n', '\n'),
    ('v', '\x0b'), ('f', '\x0c'), ('r', '\r'), ('e', '\x1b'), (' ', ' '), ('"', '"'),
    ('\'', '\''), ('\\', '\\'), ('N', '\u0085'), ('_', '\u00a0'), ('L', '\u2028'),
    ('P', '\u2029')]

/-- The value of digits in base sixteen, if all of them are some. -/
def hexNumber? (cs : List Char) : Option Nat :=
  cs.foldlM (fun n c => (hexValue? c).map (n * 16 + ·)) 0

/-- Reads the code of a character in `n` digits of base sixteen. -/
def codePoint (n : Nat) : Scan Char := do
  need n
  let digits := (← get).rest.take n
  if digits.length < n then failure
  let code ← hexNumber? digits
  if (0xd800 ≤ code && code ≤ 0xdfff) || 0x10ffff < code then failure
  modify fun s => Nat.repeat Source.advance n s
  return Char.ofNat code

/-- Reads a backslash and what belongs to it. -/
def escaped : Scan Char := do
  skip
  match ← next with
  | 'x' => codePoint 2
  | 'u' => codePoint 4
  | 'U' => codePoint 8
  | c => escapes.lookup c

/-- Reads a word between quotes, in reverse behind what was read before, and says whether it ended
with an escaped end of a line. -/
def quotedWord (quote : Char) : Nat → List Char → Scan (List Char × Bool)
  | 0, acc => return (acc, false)
  | fuel + 1, acc => do
    let c ← here
    let d ← ahead 1
    if isGapOrEnd c then return (acc, false)
    else if c = quote then
      if c = '\'' && d = '\'' then
        skip
        skip
        need 2
        quotedWord quote fuel (c :: acc)
      else return (acc, false)
    else if quote = '"' && c = '\\' then
      if isBreak d then
        need 3
        skip
        let _ ← lineBreak
        return (acc, true)
      else
        let e ← escaped
        need 2
        quotedWord quote fuel (e :: acc)
    else
      skip
      need 2
      quotedWord quote fuel (c :: acc)

/-- Reads on between quotes; `acc` is what was read, in reverse. -/
def quotedFrom (quote : Char) : Nat → List Char → Scan (List Char)
  | 0, _ => failure
  | fuel + 1, acc => do
    need 4
    if (← atDocumentMark '-') || (← atDocumentMark '.') || (← here) = endMark then failure
    let (acc, broken) ← quotedWord quote (← ample) acc
    need 1
    if (← here) = quote then
      skip
      return acc.reverse
    let g ← gapFrom 0 (← ample) { broken }
    quotedFrom quote fuel (g.text.reverse ++ acc)

/-- Reads a scalar between quotes. -/
def quoted (quote : Char) : Scan (List Char) := do
  skip
  quotedFrom quote (← ample) []

/-! ## Blocks of lines -/

/-- What becomes of the ends of lines behind a block. -/
inductive Chomping where
  | strip
  | clip
  | keep
  deriving Repr, DecidableEq, Inhabited

/-- Reads the sign that tells what becomes of the ends of lines. -/
def chomping : Scan (Option Chomping) := do
  match ← here with
  | '+' =>
    skip
    return some .keep
  | '-' =>
    skip
    return some .strip
  | _ => return none

/-- Reads the digit that tells the indentation of a block; zero is none. -/
def indentation : Scan Nat := do
  let c ← here
  if c.isDigit then
    if c = '0' then failure
    skip
    return c.toNat - '0'.toNat
  else return 0

/-- Reads the sign and the digit in the first line of a block, in either order. -/
def blockHeader : Scan (Chomping × Nat) := do
  need 1
  match ← chomping with
  | some c =>
    need 1
    return (c, ← indentation)
  | none =>
    match ← indentation with
    | 0 => return (.clip, 0)
    | n =>
      need 1
      return ((← chomping).getD .clip, n)

/-- Passes over spaces up to a column; zero is no bound. -/
def skipIndentation (indent : Nat) : Nat → Scan Unit
  | 0 => return ()
  | fuel + 1 => do
    need 1
    if (indent = 0 || (← column) < indent) && (← here) = ' ' then
      skip
      skipIndentation indent fuel

/-- Reads the ends of empty lines, up to the beginning of a line that is not empty. The result is
the largest column that was reached, and the ends. -/
def emptyLinesFrom (indent : Nat) : Nat → Nat → List Char → Scan (Nat × List Char)
  | 0, widest, breaks => return (widest, breaks)
  | fuel + 1, widest, breaks => do
    skipIndentation indent (← ample)
    let column ← column
    let widest := if widest < column then column else widest
    if (indent = 0 || column < indent) && (← here) = '\t' then failure
    if isBreak (← here) then
      need 2
      emptyLinesFrom indent fuel widest (breaks ++ (← lineBreak))
    else return (widest, breaks)

/-- Reads the ends of empty lines. An indentation of zero is not known yet: it becomes that of the
first line that is not empty, but at least `margin` and at least one. -/
def emptyLines (margin indent : Nat) : Scan (Nat × List Char) := do
  let (widest, breaks) ← emptyLinesFrom indent (← ample) 0 []
  if indent = 0 then
    let least := if margin = 0 then 1 else margin
    return (if widest < least then least else widest, breaks)
  else return (indent, breaks)

/-- A block that is being read. -/
structure BlockText where
  /-- What was read, in reverse. -/
  acc : List Char := []
  /-- The end of the last line that is not empty. -/
  last : List Char := []
  /-- The ends of the empty lines behind it. -/
  more : List Char := []
  /-- Whether the last line that is not empty began with a blank. -/
  indented : Bool := false
  deriving Repr, DecidableEq, Inhabited

/-- Reads the lines of a block. -/
def blockLines (folded : Bool) (indent : Nat) : Nat → BlockText → Scan BlockText
  | 0, b => return b
  | fuel + 1, b => do
    if (← column) ≠ indent || (← here) = endMark then return b
    let blank := isBlank (← here)
    -- Lines are folded into one unless either of them begins with a blank.
    let join :=
      if folded && !b.indented && !blank && b.last.head? = some '\n' then
        (if b.more.isEmpty then [' '] else [])
      else b.last
    let line ← readWhile fun c => !isBreakOrEnd c
    need 2
    let last ← lineBreak
    let (_, more) ← emptyLines 0 indent
    blockLines folded indent fuel
      { acc := line.reverse ++ (b.more.reverse ++ (join.reverse ++ b.acc)), last, more
        indented := blank }

/-- Reads a scalar that is a block of lines, inside a block whose lines stand at the column
`margin` or behind. -/
def block (folded : Bool) (margin : Nat) : Scan (List Char) := do
  skip
  let (chomping, increment) ← blockHeader
  restOfLine
  let indent := if increment = 0 then 0 else margin - 1 + increment
  let (indent, more) ← emptyLines margin indent
  need 1
  let b ← blockLines folded indent (← ample) { more }
  let text := b.acc.reverse
  match chomping with
  | .strip => return text
  | .clip => return text ++ b.last
  | .keep => return text ++ b.last ++ b.more

end Scan

end IntWasm.Yaml
