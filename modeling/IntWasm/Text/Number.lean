/-!
# Texts of numbers

Numbers in base sixteen are shown with the digits `0` to `f` after the mark `0x`. In base ten, a
number of more than six digits can be shown as a mantissa and an exponent.
-/

namespace IntWasm.Text

/-- The digits of a number in base sixteen. -/
def hexDigits (n : Nat) : String :=
  String.ofList (Nat.toDigits 16 n)

/-- The digits of a number in base sixteen, at least `width` of them. -/
def hexDigitsPadded (width n : Nat) : String :=
  let digits := Nat.toDigits 16 n
  String.ofList (List.replicate (width - digits.length) '0' ++ digits)

/-- A number in base sixteen with its mark. -/
def hex (n : Nat) : String := "0x" ++ hexDigits n

/-- A number in base sixteen with its mark and at least `width` digits. -/
def hexPadded (width n : Nat) : String := "0x" ++ hexDigitsPadded width n

/-- A number in base ten with an exponent if it has more than six digits: one digit, the others
behind a point without the zeros at their end, and at least two digits of the exponent. -/
def shortDecimal (n : Nat) : String :=
  match Nat.toDigits 10 n with
  | [] => ""
  | first :: others =>
    if others.length < 6 then String.ofList (first :: others)
    else
      let fraction := (others.reverse.dropWhile (· = '0')).reverse
      let point := if fraction.isEmpty then [] else ['.']
      let exponent := Nat.toDigits 10 others.length
      String.ofList (first :: point ++ fraction ++ ['e', '+'] ++
        List.replicate (2 - exponent.length) '0' ++ exponent)

end IntWasm.Text
