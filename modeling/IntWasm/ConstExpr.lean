import IntWasm.Instruction.Decode
import IntWasm.Module.Read
import IntWasm.Value

/-!
# Constant expressions

The first value of a global and the offset of a segment are given by an expression of constants and
reads of imported globals. Evaluating one runs it on a small stack, which has to hold exactly one
value at its end.
-/

namespace IntWasm

/-- Why a constant expression has no value. -/
inductive ConstFault where
  /-- It leaves no value or more than one. -/
  | empty
  | read (fault : ReadFault)
  | unknownGlobal (index : UInt32)
  | opcode (op : UInt8)
  deriving Repr, DecidableEq, Inhabited

/-- The text that is shown for a fault. -/
def ConstFault.message : ConstFault → String
  | empty => "wasm: initializer expression produces no value"
  | read fault => fault.message
  | unknownGlobal index => "wasm: invalid index to global index space: " ++ Text.hex index.toNat
  | opcode op => invalidInitOpcode op

namespace ConstExpr

/-- A number from the front of an expression. -/
def number {α : Type} (r : Reader ReadFault α) (expr : List UInt8) :
    Except ConstFault (α × List UInt8) :=
  match Leb128.decode r expr with
  | (.ok a, n) => .ok (a, expr.drop n)
  | (.error e, _) => .error (.read e)

/-- Runs the rest of an expression on a stack of values, the topmost first. -/
def evalFrom (globals : List Value) : Nat → List Value → List UInt8 → Except ConstFault Value
  | 0, _, _ => .error (.read .truncated)
  | _ + 1, _, [] => .error (.read .truncated)
  | fuel + 1, stack, op :: expr =>
    match Opcode.ofByte? op with
    | some (.const .i32) => do
      let (v, expr) ← number Leb128.s32 expr
      evalFrom globals fuel (.ofI32 v :: stack) expr
    | some (.const .i64) => do
      let (v, expr) ← number Leb128.s64 expr
      evalFrom globals fuel (.ofI64 v :: stack) expr
    | some .globalGet => do
      let (index, expr) ← number Leb128.u32 expr
      match globals[index.toNat]? with
      | none => .error (.unknownGlobal index)
      | some v => evalFrom globals fuel (v :: stack) expr
    | some .close =>
      match stack with
      | [v] => .ok v
      | _ => .error .empty
    | _ => .error (.opcode op)

/-- The value of a constant expression, given the values of the imported globals. -/
def eval (globals : List Value) (expr : List UInt8) : Except ConstFault Value :=
  if expr.isEmpty then .error .empty else evalFrom globals (expr.length + 1) [] expr

end ConstExpr

end IntWasm
