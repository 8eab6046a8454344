import IntWasm.Trap
import Std.Data.TreeMap

/-!
# Tables

A table is a row of slots that hold function indices or nothing. It never changes its size, and most
slots of a large one are empty, so only the others are kept.
-/

namespace IntWasm

/-- A table of functions. -/
structure Table where
  /-- The number of slots. -/
  min : UInt32
  max : UInt32
  /-- The functions in the slots that are not empty. -/
  functions : Std.TreeMap UInt32 UInt32 := {}
  deriving Inhabited

namespace Table

/-- A table with `min` empty slots. -/
def new (min max : UInt32) : Table := { min, max }

/-- The number of slots. -/
def size (t : Table) : Nat := t.min.toNat

/-- The table after a function was placed into a slot, if there is such a slot. -/
def set? (t : Table) (i function : UInt32) : Option Table :=
  if i < t.min then some { t with functions := t.functions.insert i function } else none

/-- The function in a slot. A slot past the end is undefined, an empty one uninitialized. -/
def lookup (t : Table) (i : UInt32) : Except Trap UInt32 :=
  if t.min ≤ i then .error .undefinedElement
  else
    match t.functions[i]? with
    | none => .error .uninitializedElement
    | some function => .ok function

/-- The number of slots that hold a function. -/
def initialized (t : Table) : Nat := t.functions.size

end Table

end IntWasm
