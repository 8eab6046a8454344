/-!
# Comma-separated rows

A row is its fields with commas between them and a line end behind. A field that would be misread is
put between quotes, and the quotes in it are doubled.
-/

namespace IntWasm.Text

/-- The characters that count as space. -/
def isSpace (c : Char) : Bool :=
  let n := c.toNat
  (0x09 ≤ n ∧ n ≤ 0x0d) || n = 0x20 || n = 0x85 || n = 0xa0 || n = 0x1680
    || (0x2000 ≤ n ∧ n ≤ 0x200a) || n = 0x2028 || n = 0x2029 || n = 0x202f || n = 0x205f
    || n = 0x3000

namespace Csv

/-- A field has to be quoted if it holds a comma, a quote or a line end, begins with space, or is
the mark for the end of data. -/
def needsQuotes (field : List Char) : Bool :=
  field = ['\\', '.']
    || field.any (fun c => c = ',' || c = '"' || c = '\n' || c = '\r')
    || field.head?.any isSpace

/-- A field as it stands in a row. -/
def fieldText (field : String) : String :=
  let chars := field.toList
  if needsQuotes chars then
    "\"" ++ String.ofList (chars.flatMap fun c => if c = '"' then ['"', '"'] else [c]) ++ "\""
  else field

/-- A row of fields. -/
def row (fields : List String) : String := ",".intercalate (fields.map fieldText) ++ "\n"

end Csv

end IntWasm.Text
