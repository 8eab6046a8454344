/-!
# Base64

Three bytes are written as four characters that stand for six bits each. A last group of one or two
bytes is filled up with equals signs. The ends of lines may stand anywhere and mean nothing.
-/

namespace IntWasm.Text.Base64

/-- The six bits that a character stands for. -/
def sextet? (c : Char) : Option Nat :=
  if 'A' ≤ c && c ≤ 'Z' then some (c.toNat - 'A'.toNat)
  else if 'a' ≤ c && c ≤ 'z' then some (c.toNat - 'a'.toNat + 26)
  else if '0' ≤ c && c ≤ '9' then some (c.toNat - '0'.toNat + 52)
  else if c = '+' then some 62
  else if c = '/' then some 63
  else none

/-- The first `n` of the three bytes that four characters stand for. -/
def bytesOf (n : Nat) (a b c d : Nat) : List UInt8 :=
  let bits := ((a * 64 + b) * 64 + c) * 64 + d
  [UInt8.ofNat (bits / 65536), UInt8.ofNat (bits / 256), UInt8.ofNat bits].take n

/-- The bytes of groups of four characters. -/
def decodeGroups : List Char → Option (List UInt8)
  | [] => some []
  | [a, b, '=', '='] => do return bytesOf 1 (← sextet? a) (← sextet? b) 0 0
  | [a, b, c, '='] => do return bytesOf 2 (← sextet? a) (← sextet? b) (← sextet? c) 0
  | a :: b :: c :: d :: rest => do
    let group := bytesOf 3 (← sextet? a) (← sextet? b) (← sextet? c) (← sextet? d)
    return group ++ (← decodeGroups rest)
  | _ => none

/-- The bytes that a text stands for, if it is one in this form. -/
def decode? (cs : List Char) : Option (List UInt8) :=
  decodeGroups (cs.filter fun c => c ≠ '\n' && c ≠ '\r')

end IntWasm.Text.Base64
