/-!
# Decimal numbers and their nearest binary ones

A number with a point or an exponent is taken as the nearest number with a mantissa of 53 bits and
an exponent of eleven bits, and of two that are equally near as the one with the even mantissa.
-/

namespace IntWasm.Text

/-- The number `digits * 10 ^ exponent`, with a sign. -/
structure Decimal where
  negative : Bool := false
  digits : Nat
  exponent : Int := 0
  deriving Repr, DecidableEq, Inhabited

/-- A binary number of 64 bits. -/
inductive Binary64 where
  | nan
  | infinity (negative : Bool)
  /-- The number `mantissa * 2 ^ exponent`, with a sign. -/
  | finite (negative : Bool) (mantissa : Nat) (exponent : Int)
  deriving Repr, DecidableEq, Inhabited

namespace Decimal

/-- The value of a row of digits. -/
def valueOf (cs : List Char) : Nat := cs.foldl (fun n c => n * 10 + (c.toNat - '0'.toNat)) 0

/-- The exponent behind the digits of a number; there may be none. -/
def exponent? : List Char → Option Int
  | [] => some 0
  | mark :: rest =>
    if mark ≠ 'e' && mark ≠ 'E' then none
    else
      let (negative, digits) := match rest with
        | '-' :: ds => (true, ds)
        | '+' :: ds => (false, ds)
        | ds => (false, ds)
      if digits.isEmpty || !digits.all Char.isDigit then none
      else some (if negative then -(valueOf digits : Int) else valueOf digits)

/-- Reads a number without a sign: digits, a point among or around them, and an exponent. -/
def unsigned? (negative : Bool) (cs : List Char) : Option Decimal := do
  let whole := cs.takeWhile Char.isDigit
  let (fraction, rest) := match cs.dropWhile Char.isDigit with
    | '.' :: rest => (rest.takeWhile Char.isDigit, rest.dropWhile Char.isDigit)
    | rest => ([], rest)
  if whole.isEmpty && fraction.isEmpty then none
  else
    let e ← exponent? rest
    return { negative, digits := valueOf (whole ++ fraction), exponent := e - fraction.length }

/-- Reads a number that may have a sign. -/
def read? : List Char → Option Decimal
  | '-' :: cs => unsigned? true cs
  | '+' :: cs => unsigned? false cs
  | cs => unsigned? false cs

end Decimal

namespace Binary64

/-- The quotient of two numbers, rounded to the nearest one and from the middle to the even one. -/
def roundedQuotient (n d : Nat) : Nat :=
  let q := n / d
  let r := n % d
  if d < 2 * r || (d = 2 * r && q % 2 = 1) then q + 1 else q

/-- The largest `e` with `2 ^ e ≤ n / d`, for positive numbers. -/
def logRatio (n d : Nat) : Int :=
  let e : Int := (n.log2 : Int) - d.log2
  let fits := if 0 ≤ e then d <<< e.toNat ≤ n else d ≤ n <<< e.natAbs
  if fits then e else e - 1

/-- The least exponent of a number. -/
def leastExponent : Int := -1074

/-- The number nearest to `n / d`, for positive numbers. -/
def ofRatio (negative : Bool) (n d : Nat) : Binary64 :=
  let exact := logRatio n d - 52
  let exponent := if exact < leastExponent then leastExponent else exact
  let mantissa :=
    if 0 ≤ exponent then roundedQuotient n (d <<< exponent.toNat)
    else roundedQuotient (n <<< exponent.natAbs) d
  if 1024 ≤ (mantissa.log2 : Int) + exponent then infinity negative
  else finite negative mantissa exponent

/-- The number nearest to a decimal one. Far outside of the range of the exponents, the digits need
not be looked at. -/
def ofDecimal (x : Decimal) : Binary64 :=
  let magnitude : Int := (Nat.toDigits 10 x.digits).length + x.exponent
  if x.digits = 0 || magnitude < -400 then finite x.negative 0 0
  else if 400 < magnitude then infinity x.negative
  else if 0 ≤ x.exponent then ofRatio x.negative (x.digits * Nat.pow 10 x.exponent.toNat) 1
  else ofRatio x.negative x.digits (Nat.pow 10 x.exponent.natAbs)

/-- The number nearest to a whole one. -/
def ofInt (n : Int) : Binary64 := ofDecimal { negative := n < 0, digits := n.natAbs }

/-- The whole part of a finite number without its sign. -/
def wholePart (mantissa : Nat) (exponent : Int) : Nat :=
  if 0 ≤ exponent then mantissa <<< exponent.toNat else mantissa >>> exponent.natAbs

end Binary64

end IntWasm.Text
