import IntWasm.Body.Scope
import IntWasm.Engine.Step
import IntWasm.Proofs.Structured.Syntax

/-!
# The typing rules

An instruction takes operands off the stack and leaves others; code has the type that its
instructions have one after the other, each leaving alone what lies below its operands. Stacks are
lists of integer types with the topmost first. After an instruction that never goes on, the stack
may be anything: such an instruction takes whatever lies below its operands and gives whatever is
asked for. These rules say nothing about how they are checked.
-/

namespace IntWasm

/-- The signature with given integers as parameters and results. -/
def FuncType.ofInts (params results : List IntType) : FuncType :=
  { params := params.map IntType.valueType, results := results.map IntType.valueType }

/-- A signature over the integer types. -/
def FuncType.Proper (f : FuncType) : Prop :=
  ∃ params results, f = ofInts params results

/-- A scope in which every type is an integer type. -/
structure Scope.Proper (s : Scope) : Prop where
  localType : ∀ {i t}, s.localType i = some t → ∃ width : IntType, t = width.valueType
  globalType : ∀ {i g}, s.globalType i = some g → ∃ width : IntType, g.type = width.valueType
  functionType : ∀ {i f}, s.functionType i = some f → f.Proper
  type : ∀ {i f}, s.type i = some f → f.Proper

namespace Structured

/-- What code sees besides its operands. -/
structure Context where
  scope : Scope
  /-- What branches to the enclosing blocks carry, the innermost first; the last one is the function
  itself. -/
  labels : List BlockType
  /-- What the function gives. -/
  result : BlockType

/-- What code inside a block sees, branches to which carry `label`. -/
def Context.inside (c : Context) (label : BlockType) : Context :=
  { c with labels := label :: c.labels }

/-- The type of the integers that a load gives. -/
def loadType : LoadForm → IntType
  | .full type | .part type _ _ => type
  | .word _ => .i64

/-- The type of the integers that a store takes. -/
def storeType : StoreForm → IntType
  | .full type | .part type _ => type
  | .word => .i64

/-- The typing rules of single instructions: what they take and what they leave. -/
inductive Instr.HasType (c : Context) : Instr → List IntType → List IntType → Prop
  | unreachable {ins outs} : HasType c .unreachable ins outs
  | nop : HasType c .nop [] []
  | br {label type below outs} (hlabel : c.labels[label.toNat]? = some type) :
    HasType c (.br label) (type.toList ++ below) outs
  | brIf {label type} (hlabel : c.labels[label.toNat]? = some type) :
    HasType c (.brIf label) (.i32 :: type.toList) type.toList
  | brTable {labels default type below outs} (hdefault : c.labels[default.toNat]? = some type)
      (hlabels : ∀ label ∈ labels, c.labels[label.toNat]? = some type) :
    HasType c (.brTable labels default) (.i32 :: (type.toList ++ below)) outs
  | ret {below outs} : HasType c .ret (c.result.toList ++ below) outs
  | call {function params results}
      (hfunction : c.scope.functionType function = some (.ofInts params results)) :
    HasType c (.call function) params.reverse results.reverse
  | callIndirect {type params results} (htable : c.scope.hasTable = true)
      (htype : c.scope.type type = some (.ofInts params results)) :
    HasType c (.callIndirect type) (.i32 :: params.reverse) results.reverse
  | drop {type} : HasType c .drop [type] []
  | select {type} : HasType c .select [.i32, type, type] [type]
  | localGet {i} {type : IntType} (hlocal : c.scope.localType i = some type.valueType) :
    HasType c (.localGet i) [] [type]
  | localSet {i} {type : IntType} (hlocal : c.scope.localType i = some type.valueType) :
    HasType c (.localSet i) [type] []
  | localTee {i} {type : IntType} (hlocal : c.scope.localType i = some type.valueType) :
    HasType c (.localTee i) [type] [type]
  | globalGet {i mutable} {type : IntType}
      (hglobal : c.scope.globalType i = some { type := type.valueType, mutable }) :
    HasType c (.globalGet i) [] [type]
  | globalSet {i} {type : IntType}
      (hglobal : c.scope.globalType i = some { type := type.valueType, mutable := true }) :
    HasType c (.globalSet i) [type] []
  | load {access : LoadForm} {align offset : UInt32} (hmemory : c.scope.hasMemory = true)
      (halign : 2 ^ align.toNat ≤ access.width) :
    HasType c (.load access align offset) [.i32] [loadType access]
  | store {access : StoreForm} {align offset : UInt32} (hmemory : c.scope.hasMemory = true)
      (halign : 2 ^ align.toNat ≤ access.width) :
    HasType c (.store access align offset) [storeType access, .i32] []
  | memorySize (hmemory : c.scope.hasMemory = true) : HasType c .memorySize [] [.i32]
  | memoryGrow (hmemory : c.scope.hasMemory = true) : HasType c .memoryGrow [.i32] [.i32]
  | const32 {value} : HasType c (.const32 value) [] [.i32]
  | const64 {value} : HasType c (.const64 value) [] [.i64]
  | eqz {type} : HasType c (.eqz type) [type] [.i32]
  | compare {type relation} : HasType c (.compare type relation) [type, type] [.i32]
  | count {type what} : HasType c (.count type what) [type] [type]
  | arith {type operation} : HasType c (.arith type operation) [type, type] [type]
  | wrap : HasType c .wrap [.i64] [.i32]
  | extend {sign} : HasType c (.extend sign) [.i32] [.i64]
  | extendPart {type part} : HasType c (.extendPart type part) [type] [type]
  | extendWord : HasType c .extendWord [.i64] [.i64]

/-- The typing rules of code. A block leaves its result above what was there before, and a branch to
a loop carries nothing. A conditional without a second arm cannot give anything. -/
inductive Code.HasType : Context → Code → List IntType → List IntType → Prop
  | done {c stack} : HasType c .done stack stack
  | instr {c i ins outs next below after} (hfirst : i.HasType c ins outs)
      (hnext : HasType c next (outs ++ below) after) :
    HasType c (.instr i next) (ins ++ below) after
  | block {c type body next stack after} (hbody : HasType (c.inside type) body [] type.toList)
      (hnext : HasType c next (type.toList ++ stack) after) :
    HasType c (.block type body next) stack after
  | loop {c type body next stack after} (hbody : HasType (c.inside none) body [] type.toList)
      (hnext : HasType c next (type.toList ++ stack) after) :
    HasType c (.loop type body next) stack after
  | ifThen {c body next stack after} (hbody : HasType (c.inside none) body [] [])
      (hnext : HasType c next stack after) :
    HasType c (.ifThen none body next) (.i32 :: stack) after
  | ifElse {c type first second next stack after}
      (hfirst : HasType (c.inside type) first [] type.toList)
      (hsecond : HasType (c.inside type) second [] type.toList)
      (hnext : HasType c next (type.toList ++ stack) after) :
    HasType c (.ifElse type first second next) (.i32 :: stack) after

/-- The context of the body of a function. -/
def Context.ofFunction (scope : Scope) (result : BlockType) : Context :=
  { scope, labels := [result], result }

end Structured

end IntWasm
