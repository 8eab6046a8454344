import IntWasm.Text.Number
import IntWasm.Types

/-!
# Values and globals

A value is a type and the word that stands for it on the operand stack. A global is a variable that
holds such a word; only a mutable one can be written to.
-/

namespace IntWasm

/-- A value: its type and its word. -/
structure Value where
  type : ValueType
  bits : UInt64
  deriving Repr, DecidableEq, Inhabited

namespace Value

/-- The word that stands for a value of a type: a 32-bit integer keeps the low half. -/
def word (type : ValueType) (bits : UInt64) : UInt64 :=
  if type = .i32 then bits.toUInt32.toUInt64 else bits

/-- The value of a type that a word stands for. -/
def ofBits (type : ValueType) (bits : UInt64) : Value := ⟨type, word type bits⟩

/-- The value of a 32-bit integer. -/
def ofI32 (v : Int32) : Value := ⟨.i32, v.toUInt32.toUInt64⟩

/-- The value of a 64-bit integer. -/
def ofI64 (v : Int64) : Value := ⟨.i64, v.toUInt64⟩

/-- The low half of a value as a signed integer. -/
def i32 (v : Value) : Int32 := v.bits.toUInt32.toInt32

/-- A value as a signed integer. -/
def i64 (v : Value) : Int64 := v.bits.toInt64

/-- The text of a value: an integer in base ten, or the word if the type is none of the integers. -/
def text (v : Value) : String :=
  if v.type = .i32 then toString v.i32.toInt ++ ":i32"
  else if v.type = .i64 then toString v.i64.toInt ++ ":i64"
  else Text.hex v.bits.toNat ++ ":" ++ v.type.text

end Value

/-- A global variable. -/
structure Global where
  type : GlobalType
  bits : UInt64
  deriving Repr, DecidableEq, Inhabited

namespace Global

/-- A new global that holds a value. -/
def new (type : GlobalType) (v : Value) : Global := ⟨type, Value.word type.type v.bits⟩

/-- The value that a global holds. -/
def value (g : Global) : Value := ⟨g.type.type, g.bits⟩

/-- A global after a write; only a mutable one can be written to. -/
def set? (g : Global) (bits : UInt64) : Option Global :=
  if g.type.mutable then some { g with bits := Value.word g.type.type bits } else none

end Global

end IntWasm
