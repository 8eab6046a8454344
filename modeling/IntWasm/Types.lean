import IntWasm.Text.Number

/-!
# The types of values and definitions

The engine knows the integer types only. A type stands in a binary as one byte, and descriptions
that come from outside may hold any byte, so a value type is kept as its byte; the two integer types
and the wildcard of unreachable code have names.
-/

namespace IntWasm

/-- One of the two integer widths. -/
inductive IntType where
  | i32
  | i64
  deriving Repr, DecidableEq, Inhabited

/-- The type of a value, kept as the byte it has in a binary. -/
structure ValueType where
  code : UInt8
  deriving Repr, DecidableEq, Inhabited

namespace ValueType

/-- The type of 32-bit integers. -/
@[match_pattern] def i32 : ValueType := ⟨0x7f⟩

/-- The type of 64-bit integers. -/
@[match_pattern] def i64 : ValueType := ⟨0x7e⟩

/-- The type of an operand in unreachable code, which fits every other. It stands in no module. -/
@[match_pattern] def any : ValueType := ⟨0⟩

/-- The name of a type. -/
def text (t : ValueType) : String :=
  if t = i32 then "i32"
  else if t = i64 then "i64"
  else if t = any then "any"
  else "<unknown value_type " ++ Text.hex t.code.toNat ++ ">"

/-- The number of bytes that a value takes. -/
def size (t : ValueType) : Nat := if t = i32 then 4 else 8

end ValueType

/-- The value type of an integer width. -/
def IntType.valueType : IntType → ValueType
  | i32 => .i32
  | i64 => .i64

/-- The type of a function: what it takes and what it gives. -/
structure FuncType where
  params : List ValueType := []
  results : List ValueType := []
  deriving Repr, DecidableEq, Inhabited

namespace FuncType

/-- A group of types in the text of a signature; an empty group is left out. -/
def groupText (label : String) (types : List ValueType) : String :=
  if types.isEmpty then ""
  else " (" ++ label ++ String.join (types.map (fun t => " " ++ t.text)) ++ ")"

/-- The text of a signature. -/
def text (f : FuncType) : String :=
  "(func" ++ groupText "param" f.params ++ groupText "result" f.results ++ ")"

end FuncType

/-- What an import or export stands for, as the byte it has in a binary. -/
structure ExternKind where
  code : UInt8
  deriving Repr, DecidableEq, Inhabited

namespace ExternKind

@[match_pattern] def function : ExternKind := ⟨0⟩
@[match_pattern] def table : ExternKind := ⟨1⟩
@[match_pattern] def memory : ExternKind := ⟨2⟩
@[match_pattern] def global : ExternKind := ⟨3⟩

/-- The name of a kind. -/
def text (k : ExternKind) : String :=
  if k = function then "function"
  else if k = table then "table"
  else if k = memory then "memory"
  else if k = global then "global"
  else "<unknown external_kind>"

end ExternKind

/-- The size of a table or memory: at least `min`, and at most `max` if bit 0 of `flags` is set. -/
structure Limits where
  flags : UInt8 := 0
  min : UInt32 := 0
  max : UInt32 := 0
  deriving Repr, DecidableEq, Inhabited

namespace Limits

/-- Whether a maximum is declared. -/
def hasMax (l : Limits) : Bool := l.flags &&& 1 != 0

/-- The declared maximum, if any. -/
def max? (l : Limits) : Option UInt32 := if l.hasMax then some l.max else none

/-- The text of limits: flags, minimum and maximum in braces. -/
def text (l : Limits) : String :=
  "\x7b" ++ toString l.flags.toNat ++ " " ++ toString l.min.toNat ++ " " ++ toString l.max.toNat
    ++ "\x7d"

end Limits

/-- The element type of a table. -/
structure ElemType where
  code : UInt8
  deriving Repr, DecidableEq, Inhabited

namespace ElemType

/-- References to functions, the only elements that tables hold. -/
@[match_pattern] def funcref : ElemType := ⟨0x70⟩

/-- The name of an element type. -/
def text (t : ElemType) : String := if t = funcref then "funcref" else "<unknown elem_type>"

end ElemType

/-- The type of a table. -/
structure TableType where
  elem : ElemType := .funcref
  limits : Limits := {}
  deriving Repr, DecidableEq, Inhabited

/-- The type of a global variable and whether it may be written to. -/
structure GlobalType where
  type : ValueType
  mutable : Bool := false
  deriving Repr, DecidableEq, Inhabited

/-- The text of a global's type. -/
def GlobalType.text (g : GlobalType) : String :=
  if g.mutable then "(mut " ++ g.type.text ++ ")" else g.type.text

/-- The number of a section in the binary format. -/
structure SectionId where
  number : UInt8
  deriving Repr, DecidableEq, Inhabited

namespace SectionId

@[match_pattern] def custom : SectionId := ⟨0⟩
@[match_pattern] def type : SectionId := ⟨1⟩
@[match_pattern] def imports : SectionId := ⟨2⟩
@[match_pattern] def function : SectionId := ⟨3⟩
@[match_pattern] def table : SectionId := ⟨4⟩
@[match_pattern] def memory : SectionId := ⟨5⟩
@[match_pattern] def global : SectionId := ⟨6⟩
@[match_pattern] def exports : SectionId := ⟨7⟩
@[match_pattern] def start : SectionId := ⟨8⟩
@[match_pattern] def element : SectionId := ⟨9⟩
@[match_pattern] def code : SectionId := ⟨10⟩
@[match_pattern] def data : SectionId := ⟨11⟩
@[match_pattern] def dataCount : SectionId := ⟨12⟩
@[match_pattern] def tag : SectionId := ⟨13⟩

/-- The names of the sections in the order of their numbers. -/
def names : List String :=
  ["custom", "type", "import", "function", "table", "memory", "global", "export", "start",
    "element", "code", "data", "data count", "tag"]

/-- The name of a section. -/
def text (s : SectionId) : String :=
  names.getD s.number.toNat ("section(" ++ toString s.number.toNat ++ ")")

end SectionId

end IntWasm
