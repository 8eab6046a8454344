import IntWasm.Yaml.Source

/-!
# Tokens of YAML

The tokens that a text consists of, and the reading of anchors, tags and directives. Blocks of lines
have tokens of their own that say where a block begins and ends. The last token of a text is its end
or, where the text is not YAML, the mark of a fault.
-/

namespace IntWasm.Yaml

/-- A part of a text. -/
inductive Token where
  /-- From here on the text is not YAML. -/
  | fault
  | streamEnd
  /-- The version of YAML that a document is written in. -/
  | version (major minor : Nat)
  /-- What a handle stands for in the tags of a document. -/
  | handle (name uri : List Char)
  | documentStart
  | documentEnd
  | blockSequenceStart
  | blockMappingStart
  | blockEnd
  | flowSequenceStart
  | flowSequenceEnd
  | flowMappingStart
  | flowMappingEnd
  | blockEntry
  | flowEntry
  | key
  | value
  | alias (name : List Char)
  | anchor (name : List Char)
  /-- A tag; without a handle the suffix is the whole tag. -/
  | tag (handle suffix : List Char)
  | scalar (text : List Char) (plain : Bool)
  deriving Repr, DecidableEq, Inhabited

namespace Scan

/-! ## Anchors -/

/-- Reads the name of an anchor behind its mark. -/
def anchorName : Scan (List Char) := do
  skip
  let name ← readWhile isWord
  let c ← here
  if name.isEmpty || !(isGapOrEnd c || ['?', ':', ',', ']', '\x7d', '%', '@', '\x60'].contains c)
  then failure
  return name

/-! ## Tags -/

/-- The number of bytes of a character in UTF-8, by its first byte. -/
def widthOfOctet? (octet : Nat) : Option Nat :=
  if octet < 0x80 then some 1
  else if octet < 0xc0 then none
  else if octet < 0xe0 then some 2
  else if octet < 0xf0 then some 3
  else if octet < 0xf8 then some 4
  else none

/-- Reads a byte that is written as a percent sign and two digits of base sixteen. -/
def escapedOctet : Scan Nat := do
  need 3
  if (← here) ≠ '%' then failure
  let high ← hexValue? (← ahead 1)
  let low ← hexValue? (← ahead 2)
  skip
  skip
  skip
  return high * 16 + low

/-- Reads `n` further bytes of a character. -/
def trailingOctets : Nat → Scan (List Char)
  | 0 => return []
  | n + 1 => do
    let octet ← escapedOctet
    if octet < 0x80 || 0xbf < octet then failure
    return Char.ofNat octet :: (← trailingOctets n)

/-- Reads a character that is written as its bytes, each of which becomes a character. -/
def escapedOctets : Scan (List Char) := do
  let octet ← escapedOctet
  let width ← widthOfOctet? octet
  return Char.ofNat octet :: (← trailingOctets (width - 1))

/-- Reads the characters of a tag behind others. -/
def tagCharsFrom : Nat → List Char → Scan (List Char)
  | 0, acc => return acc
  | fuel + 1, acc => do
    need 1
    let c ← here
    if c = '%' then tagCharsFrom fuel (acc ++ (← escapedOctets))
    else if isTagChar c then
      skip
      tagCharsFrom fuel (acc ++ [c])
    else return acc

/-- Reads the characters of a tag, of which there has to be one. -/
def tagChars : Scan (List Char) := do
  let cs ← tagCharsFrom (← ample) []
  if cs.isEmpty then failure
  return cs

/-- Reads what may be a handle: an exclamation mark, a word and perhaps another mark. -/
def tagHandle : Scan (List Char) := do
  need 1
  if (← here) ≠ '!' then failure
  skip
  let word ← readWhile isWord
  if (← here) = '!' then
    skip
    return '!' :: word ++ ['!']
  else return '!' :: word

/-- A handle ends with a mark of its own. -/
def isHandle (cs : List Char) : Bool := 1 < cs.length && cs.getLast? = some '!'

/-- Reads a tag as its handle and its suffix. -/
def tag : Scan (List Char × List Char) := do
  need 2
  let parts ←
    if (← ahead 1) = '<' then do
      skip
      skip
      let suffix ← tagChars
      if (← here) ≠ '>' then failure
      skip
      pure ([], suffix)
    else do
      let first ← tagHandle
      if isHandle first then pure (first, ← tagChars)
      else
        let suffix ← tagCharsFrom (← ample) first.tail
        pure (if suffix.isEmpty then ([], ['!']) else (['!'], suffix))
  need 1
  if !isGapOrEnd (← here) then failure
  return parts

/-! ## Directives -/

/-- Reads a part of a version, which has one or two digits. -/
def versionNumber : Scan Nat := do
  let digits ← readWhile Char.isDigit
  if digits.isEmpty || 2 < digits.length then failure
  return digits.foldl (fun n c => n * 10 + (c.toNat - '0'.toNat)) 0

/-- Reads a version. -/
def version : Scan Token := do
  skipWhile isBlank
  let major ← versionNumber
  if (← here) ≠ '.' then failure
  skip
  return .version major (← versionNumber)

/-- Reads what a handle stands for. -/
def handle : Scan Token := do
  skipWhile isBlank
  let name ← tagHandle
  if name ≠ ['!'] && !isHandle name then failure
  need 1
  if !isBlank (← here) then failure
  skipWhile isBlank
  let uri ← tagChars
  need 1
  if !isGapOrEnd (← here) then failure
  return .handle name uri

/-- Reads a directive and its line. -/
def directive : Scan Token := do
  skip
  let name ← readWhile isWord
  if name.isEmpty || !isGapOrEnd (← here) then failure
  let token ←
    if name = ['Y', 'A', 'M', 'L'] then version
    else if name = ['T', 'A', 'G'] then handle
    else failure
  restOfLine
  return token

end Scan

end IntWasm.Yaml
