import IntWasm.Allocator
import IntWasm.Memory
import IntWasm.Text.Quoted
import IntWasm.Text.Utf8
import IntWasm.Thread

/-!
# Configurations

A configuration bounds the stacks and the memory of an instance and says where its memory comes
from. Checking a configuration settles on an allocator: once one is chosen, the settings that
describe it are not looked at again.
-/

namespace IntWasm

/-- The allocator of a configuration. -/
inductive AllocatorChoice where
  /-- An allocator of the configuration's own. -/
  | fresh (a : Allocator)
  /-- The allocator at a place in the store. -/
  | shared (address : Nat)

/-- Why a configuration is refused. -/
inductive ConfigFault where
  | callDepth
  | operandStack
  | controlDepth
  | memoryPages
  | unknownAllocator (kind : List UInt8)
  deriving Repr, DecidableEq, Inhabited

/-- The text that is shown for a fault. -/
def ConfigFault.message : ConfigFault → String
  | callDepth => "config: max_call_depth must be positive"
  | operandStack => "config: max_operand_stack must be positive"
  | controlDepth => "config: max_control_depth must be positive"
  | memoryPages => "config: max_memory_pages must be between 1 and 65536"
  | unknownAllocator kind => "config: unknown allocator " ++ Text.quoteBytes kind

/-- The limits and collaborators of an instance. -/
structure Config where
  /-- The most functions that may be open at a time. -/
  maxCallDepth : Int := Thread.defaultDepth
  /-- The size of the operand stack. -/
  maxOperandStack : Int := 65536
  /-- The size of the control stack. -/
  maxControlDepth : Int := 4096
  /-- The most pages of a memory. -/
  maxMemoryPages : UInt32 := Memory.maxPages
  /-- The name of the kind of the allocator, if none is chosen. -/
  allocatorKind : List UInt8 := Text.utf8 "heap"
  /-- The budget of the allocator, if none is chosen; zero is no budget. -/
  pageBudget : UInt32 := 0
  allocator : Option AllocatorChoice := none
  /-- Whether activity is counted. -/
  counted : Bool := false
  /-- The place in the store of the trace that is written, if any. -/
  trace : Option Nat := none

instance : Inhabited Config := ⟨{}⟩

namespace Config

/-- The allocator that the settings of a configuration describe. -/
def describedAllocator (c : Config) : Except ConfigFault Allocator := do
  let source ←
    if c.allocatorKind = [] ∨ c.allocatorKind = Text.utf8 "heap" then pure PageSource.heap
    else if c.allocatorKind = Text.utf8 "mmap" then pure PageSource.mapping
    else throw (.unknownAllocator c.allocatorKind)
  return { source, budget := if c.pageBudget = 0 then none else some { limit := c.pageBudget } }

/-- Checks a configuration and settles on an allocator. -/
def check (c : Config) : Except ConfigFault Config := do
  if c.maxCallDepth ≤ 0 then throw .callDepth
  if c.maxOperandStack ≤ 0 then throw .operandStack
  if c.maxControlDepth ≤ 0 then throw .controlDepth
  if c.maxMemoryPages = 0 ∨ Memory.maxPages < c.maxMemoryPages then throw .memoryPages
  match c.allocator with
  | some _ => return c
  | none =>
    let a ← c.describedAllocator
    return { c with allocator := some (.fresh a) }

/-- The most bytes that a stack can have. -/
def largestStack : Int := 0x1000000000000

/-- Whether a machine with the stacks of a configuration can be made. An operand takes 8 bytes, an
open block 24 and an activation 32. -/
def stacksFit (c : Config) : Bool :=
  8 * c.maxOperandStack ≤ largestStack && 24 * c.maxControlDepth ≤ largestStack &&
    32 * c.maxCallDepth ≤ largestStack

end Config

end IntWasm
