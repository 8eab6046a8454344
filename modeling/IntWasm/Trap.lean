/-!
# Traps

A trap ends an invocation. It is known by its text; the engine raises those that are named here, and
functions of the embedder may raise others.
-/

namespace IntWasm

/-- The reason why an invocation ended early. -/
structure Trap where
  text : String
  deriving Repr, DecidableEq, Inhabited

namespace Trap

/-- An indirect call through an index past the end of the table. -/
def undefinedElement : Trap := ⟨"undefined element"⟩

/-- An indirect call through an empty slot of the table. -/
def uninitializedElement : Trap := ⟨"uninitialized element"⟩

/-- An indirect call of a function with another signature than expected. -/
def indirectTypeMismatch : Trap := ⟨"indirect call type mismatch"⟩

/-- A memory access of which some byte lies outside the memory. -/
def memoryOutOfBounds : Trap := ⟨"out of bounds memory access"⟩

/-- A signed division whose result does not fit. -/
def integerOverflow : Trap := ⟨"integer overflow"⟩

def divideByZero : Trap := ⟨"integer divide by zero"⟩

/-- A call, block or operand for which a stack has no room. -/
def stackExhausted : Trap := ⟨"call stack exhausted"⟩

def unreachable : Trap := ⟨"unreachable executed"⟩

/-- An operand stack of another height than expected at the end of a block or function. -/
def heightMismatch : Trap := ⟨"stack height mismatch"⟩

/-- A failure of a function of the embedder. -/
def hostFault : Trap := ⟨"host fault"⟩

end Trap

end IntWasm
