/-!
# The bytes of texts

Texts are written in UTF-8.
-/

namespace IntWasm.Text

/-- The bytes of a text. -/
def utf8 (s : String) : List UInt8 := s.toUTF8.data.toList

end IntWasm.Text
