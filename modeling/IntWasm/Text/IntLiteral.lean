import IntWasm.Text.Quoted

/-!
# Integer literals

An integer is written in base ten, or with a mark in front in base two (`0b`), eight (`0o` or just
`0`) or sixteen (`0x`). An underscore may stand between two digits and after a mark. A literal is
refused for its form or because its value has too many bits, whichever is seen first.
-/

namespace IntWasm.Text

/-- Why an integer literal was refused. -/
inductive LiteralFault where
  | form
  | range
  deriving Repr, DecidableEq, Inhabited

/-- The text for a refused literal. -/
def LiteralFault.message (literal : String) : LiteralFault → String
  | form => "strconv.ParseUint: parsing " ++ quote literal ++ ": invalid syntax"
  | range => "strconv.ParseUint: parsing " ++ quote literal ++ ": value out of range"

namespace IntLiteral

/-- The base of a literal and its digits after the mark. -/
def split : List Char → Nat × List Char
  | '0' :: mark :: d :: digits =>
    if mark = 'b' ∨ mark = 'B' then (2, d :: digits)
    else if mark = 'o' ∨ mark = 'O' then (8, d :: digits)
    else if mark = 'x' ∨ mark = 'X' then (16, d :: digits)
    else (8, mark :: d :: digits)
  | '0' :: digits => (8, digits)
  | digits => (10, digits)

/-- The value of a digit or letter. -/
def digit? (c : Char) : Option Nat :=
  if '0' ≤ c ∧ c ≤ '9' then some (c.toNat - '0'.toNat)
  else if 'a' ≤ c ∧ c ≤ 'z' then some (c.toNat - 'a'.toNat + 10)
  else if 'A' ≤ c ∧ c ≤ 'Z' then some (c.toNat - 'A'.toNat + 10)
  else none

/-- The value of digits that follow others of a given value. -/
def value (base bits : Nat) : Nat → List Char → Except LiteralFault Nat
  | n, [] => .ok n
  | n, '_' :: rest => value base bits n rest
  | n, c :: rest =>
    match digit? c with
    | none => .error .form
    | some d =>
      if base ≤ d then .error .form
      else if 2 ^ bits ≤ n * base + d then .error .range
      else value base bits (n * base + d) rest

/-- Every underscore stands behind a digit or the mark and in front of a digit; `open_` says that
what comes before is a digit or the mark. -/
def underscoresSeparate : Bool → List Char → Bool
  | _, [] => true
  | open_, '_' :: rest =>
    open_ && !rest.isEmpty && rest.head? != some '_' && underscoresSeparate false rest
  | _, _ :: rest => underscoresSeparate true rest

/-- Reads a literal without a sign. -/
def unsigned (bits : Nat) (s : List Char) : Except LiteralFault Nat := do
  if s.isEmpty then throw .form
  let (base, digits) := split s
  let n ← value base bits 0 digits
  if ¬ underscoresSeparate (base ≠ 10) digits then throw .form
  return n

/-- Reads a literal that may have a sign, as a number of `bits` bits in two's complement. -/
def signed (bits : Nat) (s : List Char) : Except LiteralFault Int := do
  let half : Nat := Nat.pow 2 (bits - 1)
  match s with
  | '-' :: s =>
    let n ← unsigned bits s
    if half < n then throw .range
    return -(n : Int)
  | '+' :: s =>
    let n ← unsigned bits s
    if half ≤ n then throw .range
    return n
  | s =>
    let n ← unsigned bits s
    if half ≤ n then throw .range
    return n

end IntLiteral

end IntWasm.Text
