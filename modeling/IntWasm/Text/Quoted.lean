import IntWasm.Text.Number
import IntWasm.Text.Printable

/-!
# Quoted text

A byte string is shown between double quotes. Printable characters stand for themselves, the usual
control characters and the quote have two-character forms, and everything else is shown by its code:
`\x` and two digits below 128 or for a byte that is no part of UTF-8, `\u` and four digits below
65536, `\U` and eight digits above.
-/

namespace IntWasm.Text

/-- The form of one character inside quotes. -/
def quoteChar (c : Char) : String :=
  match c with
  | '"' => "\\\""
  | '\\' => "\\\\"
  | '\x07' => "\\a"
  | '\x08' => "\\b"
  | '\x0c' => "\\f"
  | '\n' => "\\n"
  | '\r' => "\\r"
  | '\t' => "\\t"
  | '\x0b' => "\\v"
  | c =>
    if isPrintable c then c.toString
    else if c.toNat < 0x80 then "\\x" ++ hexDigitsPadded 2 c.toNat
    else if c.toNat < 0x10000 then "\\u" ++ hexDigitsPadded 4 c.toNat
    else "\\U" ++ hexDigitsPadded 8 c.toNat

/-- The forms of the characters and stray bytes from position `i` on. -/
def quoteFrom (bytes : ByteArray) (i : Nat) (acc : String) : String :=
  if h : i < bytes.size then
    match bytes.utf8DecodeChar? i with
    | some c => quoteFrom bytes (i + c.utf8Size) (acc ++ quoteChar c)
    | none => quoteFrom bytes (i + 1) (acc ++ "\\x" ++ hexDigitsPadded 2 bytes[i].toNat)
  else acc
termination_by bytes.size - i
decreasing_by
  · have := c.utf8Size_pos
    omega
  · omega

/-- A byte string between double quotes. -/
def quoteBytes (bytes : List UInt8) : String :=
  quoteFrom (ByteArray.mk bytes.toArray) 0 "\"" ++ "\""

/-- A text between double quotes. -/
def quote (s : String) : String :=
  "\"" ++ String.join (s.toList.map quoteChar) ++ "\""

end IntWasm.Text
