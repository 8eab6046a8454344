import IntWasm.Instruction.Basic
import IntWasm.Violation

/-!
# What a body can refer to

A `Scope` answers the lookups that a body makes: its locals, the globals, functions and types of its
module, and whether there is a table and a memory. `Scope.effect` gives the operands that an
instruction without control flow takes and gives in a scope.
-/

namespace IntWasm

/-- The definitions that a function body sees. -/
structure Scope where
  localType : UInt32 → Option ValueType
  globalType : UInt32 → Option GlobalType
  functionType : UInt32 → Option FuncType
  type : UInt32 → Option FuncType
  hasTable : Bool
  hasMemory : Bool

/-- The operands that an instruction takes, lowest first, and those that it leaves. -/
structure Effect where
  takes : List ValueType
  gives : List ValueType
  deriving Repr, DecidableEq, Inhabited

/-- The type of the values that a load gives. -/
def LoadForm.valueType : LoadForm → ValueType
  | full type | part type _ _ => type.valueType
  | word _ => .i64

/-- The type of the values that a store takes. -/
def StoreForm.valueType : StoreForm → ValueType
  | full type | part type _ => type.valueType
  | word => .i64

namespace Scope

/-- An entry that has to exist. -/
def require {α : Type} (entry : Option α) (otherwise : Violation) : Except Violation α :=
  match entry with
  | some a => .ok a
  | none => .error otherwise

/-- A memory access needs a memory and promises at most the alignment of its width. -/
def checkAccess (s : Scope) (i : Instruction) (natural : UInt32) : Except Violation Unit :=
  if ¬ s.hasMemory then .error .unknownMemory
  else if natural < i.align then .error .overAligned
  else .ok ()

/-- What an instruction without control flow takes and gives. -/
def effect (s : Scope) (op : Opcode) (i : Instruction) : Except Violation Effect :=
  match op with
  | .localGet => do
    let t ← require (s.localType i.index) .unknownLocal
    return ⟨[], [t]⟩
  | .localSet => do
    let t ← require (s.localType i.index) .unknownLocal
    return ⟨[t], []⟩
  | .localTee => do
    let t ← require (s.localType i.index) .unknownLocal
    return ⟨[t], [t]⟩
  | .globalGet => do
    let g ← require (s.globalType i.index) .unknownGlobal
    return ⟨[], [g.type]⟩
  | .globalSet => do
    let g ← require (s.globalType i.index) .unknownGlobal
    if ¬ g.mutable then throw .immutableGlobal
    return ⟨[g.type], []⟩
  | .load access => do
    s.checkAccess i access.naturalAlign
    return ⟨[.i32], [access.valueType]⟩
  | .store access => do
    s.checkAccess i access.naturalAlign
    return ⟨[.i32, access.valueType], []⟩
  | .memorySize => if s.hasMemory then .ok ⟨[], [.i32]⟩ else .error .unknownMemory
  | .memoryGrow => if s.hasMemory then .ok ⟨[.i32], [.i32]⟩ else .error .unknownMemory
  | .const type => .ok ⟨[], [type.valueType]⟩
  | .eqz type => .ok ⟨[type.valueType], [.i32]⟩
  | .compare type _ => .ok ⟨[type.valueType, type.valueType], [.i32]⟩
  | .count type _ => .ok ⟨[type.valueType], [type.valueType]⟩
  | .arith type _ => .ok ⟨[type.valueType, type.valueType], [type.valueType]⟩
  | .wrap => .ok ⟨[.i64], [.i32]⟩
  | .extend _ => .ok ⟨[.i32], [.i64]⟩
  | .extendPart type _ => .ok ⟨[type.valueType], [type.valueType]⟩
  | .extendWord => .ok ⟨[.i64], [.i64]⟩
  | .call => do
    let f ← require (s.functionType i.index) .unknownFunction
    return ⟨f.params, f.results⟩
  | .callIndirect => do
    if ¬ s.hasTable then throw .unknownTable
    let f ← require (s.type i.index) .unknownType
    return ⟨f.params ++ [.i32], f.results⟩
  | _ => .ok ⟨[], []⟩

end Scope

end IntWasm
