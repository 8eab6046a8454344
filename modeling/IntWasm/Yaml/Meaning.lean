import IntWasm.Text.Base64
import IntWasm.Text.Decimal
import IntWasm.Text.IntLiteral
import IntWasm.Text.Timestamp
import IntWasm.Text.Utf8
import IntWasm.Yaml.Node

/-!
# What scalars stand for

A scalar without a tag that is not quoted stands for nothing, a truth value, a number, a timestamp
or a text, depending on how it is written. A tag can demand one of these. With any other tag a
scalar is a text.
-/

namespace IntWasm.Yaml

open Text (Binary64 Decimal)

/-- What a scalar stands for. -/
inductive Meaning where
  | null
  | bool (b : Bool)
  | int (n : Int)
  | float (x : Binary64)
  | timestamp
  | text
  deriving Repr, DecidableEq, Inhabited

/-- A tag of the standard set. -/
def standardTag (name : String) : List Char := ("tag:yaml.org,2002:" ++ name).toList

namespace Meaning

/-- The words that stand for something else than a text. -/
def words : List (Meaning × List String) :=
  [(bool true, ["y", "Y", "yes", "Yes", "YES", "true", "True", "TRUE", "on", "On", "ON"]),
    (bool false, ["n", "N", "no", "No", "NO", "false", "False", "FALSE", "off", "Off", "OFF"]),
    (null, ["", "~", "null", "Null", "NULL"]),
    (float .nan, [".nan", ".NaN", ".NAN"]),
    (float (.infinity false), [".inf", ".Inf", ".INF", "+.inf", "+.Inf", "+.INF"]),
    (float (.infinity true), ["-.inf", "-.Inf", "-.INF"])]

/-- What a text stands for as a word. -/
def ofWord? (cs : List Char) : Option Meaning :=
  (words.find? fun (_, list) => list.contains (String.ofList cs)).map (·.1)

/-- A decimal number as it is held; one that is too large is none. -/
def ofDecimal? (x : Decimal) : Option Meaning :=
  match Binary64.ofDecimal x with
  | .infinity _ => none
  | b => some (float b)

/-- Whether every underscore stands between two digits; `digit` says that one comes before. -/
def underscoresSeparate (digit : Bool) : List Char → Bool
  | [] => true
  | '_' :: rest => digit && rest.head?.any Char.isDigit && underscoresSeparate false rest
  | c :: rest => underscoresSeparate c.isDigit rest

/-- The characters without underscores. -/
def withoutUnderscores (cs : List Char) : List Char := cs.filter (· ≠ '_')

/-- The number that a text with a point in front stands for. -/
def ofFraction? (cs : List Char) : Option Meaning :=
  if underscoresSeparate false cs then (Decimal.read? (withoutUnderscores cs)).bind ofDecimal?
  else none

/-- A row of digits of base two. -/
def binaryDigits? (cs : List Char) : Option Nat :=
  if !cs.isEmpty && cs.all fun c => c = '0' || c = '1' then
    some (cs.foldl (fun n c => n * 2 + (c.toNat - '0'.toNat)) 0)
  else none

/-- A number in base two in which the sign stands behind the mark of the base. -/
def ofBinary? (cs : List Char) : Option Meaning := do
  let n : Int ← match cs with
    | '0' :: 'b' :: '-' :: ds => (binaryDigits? ds).map fun n => -(n : Int)
    | '0' :: 'b' :: '+' :: ds => (binaryDigits? ds).map fun n => (n : Int)
    | _ => none
  if -0x8000000000000000 ≤ n && n < 0x8000000000000000 then some (int n) else none

/-- The number that a text with a digit or a sign in front stands for. Underscores are left out. -/
def ofNumber? (cs : List Char) : Option Meaning :=
  let plain := withoutUnderscores cs
  match Text.IntLiteral.signed 64 plain with
  | .ok n => some (int n)
  | .error _ =>
    match Text.IntLiteral.unsigned 64 plain with
    | .ok n => some (int n)
    | .error _ => ((Decimal.read? plain).bind ofDecimal?).or (ofBinary? plain)

/-- What a text stands for by how it is written. Only if `dated`, it may be a timestamp. -/
def ofText (dated : Bool) (cs : List Char) : Meaning :=
  match ofWord? cs with
  | some m => m
  | none =>
    match cs with
    | [] => null
    | c :: _ =>
      if c = '.' then (ofFraction? cs).getD text
      else if c.isDigit || c = '+' || c = '-' then
        if dated && Text.Timestamp.isTimestamp cs then timestamp else (ofNumber? cs).getD text
      else text

end Meaning

namespace Scalar

/-- What a scalar stands for, if it is what its tag demands. -/
def meaning? (s : Scalar) : Option Meaning :=
  let m := Meaning.ofText (s.tag.isEmpty || s.tag = standardTag "timestamp") s.text
  if s.tag.isEmpty then some (if s.implicit then m else .text)
  else if s.tag = standardTag "null" then (if m = .null then some m else none)
  else if s.tag = standardTag "timestamp" then (if m = .timestamp then some m else none)
  else if s.tag = standardTag "bool" then
    match m with
    | .bool _ => some m
    | _ => none
  else if s.tag = standardTag "int" then
    match m with
    | .int _ => some m
    | _ => none
  else if s.tag = standardTag "float" then
    match m with
    | .float _ => some m
    | .int n => if n < 0x8000000000000000 then some (.float (Binary64.ofInt n)) else none
    | _ => none
  else some .text

/-- The number of 64 bits with a sign that a scalar sets. Nothing sets zero; a number with a
fraction loses it, and the least number stands for all that are smaller and for the first that is
too large. -/
def wide? (s : Scalar) : Option Int := do
  match ← s.meaning? with
  | .null => some 0
  | .int n => if n < 0x8000000000000000 then some n else none
  | .float (.infinity true) => some (-0x8000000000000000)
  | .float (.finite negative mantissa exponent) =>
    let n := Binary64.wholePart mantissa exponent
    if n < 0x8000000000000000 then some (if negative then -(n : Int) else n)
    else if negative || n = 0x8000000000000000 then some (-0x8000000000000000)
    else none
  | _ => none

/-- The number of 32 bits without a sign that a scalar sets. Nothing sets zero, and a number with a
fraction loses it. -/
def word? (s : Scalar) : Option UInt32 := do
  let n ← match ← s.meaning? with
    | .null => some 0
    | .int n => if 0 ≤ n then some n.toNat else none
    | .float (.finite negative mantissa exponent) =>
      let n := Binary64.wholePart mantissa exponent
      if negative && n ≠ 0 then none else some n
    | _ => none
  if n < 0x100000000 then some (UInt32.ofNat n) else none

/-- The bytes of the text that a scalar sets. Nothing sets no text, and binary data stands for the
bytes that are written in base 64. -/
def bytes? (s : Scalar) : Option (List UInt8) :=
  if s.tag = standardTag "binary" then Text.Base64.decode? s.text
  else s.meaning?.map fun m => if m = .null then [] else Text.utf8 (String.ofList s.text)

/-- Whether a scalar is the name under which other mappings are merged into one. -/
def isMerge (s : Scalar) : Bool :=
  s.text = ['<', '<'] && (s.implicit || s.tag = standardTag "merge")

end Scalar

end IntWasm.Yaml
