import IntWasm.Engine.Store
import IntWasm.Numeric

/-!
# The machine

A machine runs the functions of one instance. Each activation of a function has its locals, its
operands and the labels of the blocks that are open in it. All activations share an operand stack,
a control stack and a call stack of fixed sizes: an activation knows how much of them lies below
it, and a function is entered only if the most that it can need still fits.
-/

namespace IntWasm

/-- Why a machine stops before its work is done. -/
inductive Stop where
  | trap (t : Trap)
  /-- A function of the embedder failed. -/
  | host (e : TrapError)
  /-- Something was looked up past the end of a stack or a table of the machine. -/
  | outOfRange
  | crash (c : Crash)
  deriving Repr, DecidableEq, Inhabited

/-- A block that is open. -/
structure Label where
  /-- Where a branch to the block goes on. -/
  target : Nat
  /-- The number of the activation's operands at the entry of the block. -/
  height : Nat
  /-- The number of operands that a branch to the block carries. -/
  arity : Nat
  deriving Repr, DecidableEq, Inhabited

/-- An activation of a function. -/
structure Activation where
  function : Function
  /-- The index of the next instruction. -/
  ip : Nat := 0
  locals : Array UInt64
  /-- The operands, the topmost first. -/
  operands : List UInt64 := []
  /-- The open blocks, the innermost first; the last one is the function itself. -/
  labels : List Label
  /-- The height of the operand stack below the first local. It is negative if the function was
  entered with fewer arguments than it has parameters. -/
  base : Int
  /-- The number of operands for which the operand stack has room. -/
  room : Nat
  /-- The number of labels on the control stack below this activation. -/
  labelsBelow : Nat
  /-- The number of activations below this one. -/
  callers : Nat
  deriving Repr, DecidableEq, Inhabited

namespace Activation

/-- The height of the operand stack. -/
def height (f : Activation) : Int := f.base + f.locals.size + f.operands.length

/-! ## Operands -/

/-- Takes the topmost operand. -/
def pop (f : Activation) : Except Stop (UInt64 × Activation) :=
  match f.operands with
  | [] => .error .outOfRange
  | v :: operands => .ok (v, { f with operands })

/-- Takes the two topmost operands, the lower one first. -/
def pop2 (f : Activation) : Except Stop (UInt64 × UInt64 × Activation) :=
  match f.operands with
  | b :: a :: operands => .ok (a, b, { f with operands })
  | _ => .error .outOfRange

/-- Adds an operand. -/
def push (f : Activation) (v : UInt64) : Except Stop Activation :=
  if f.operands.length < f.room then .ok { f with operands := v :: f.operands }
  else .error .outOfRange

/-! ## Locals -/

/-- The value of a local. -/
def getLocal (f : Activation) (i : UInt32) : Except Stop UInt64 :=
  if f.base + i.toNat < 0 then .error .outOfRange
  else
    match f.locals[i.toNat]? with
    | some v => .ok v
    | none => .error .outOfRange

/-- Changes a local. -/
def setLocal (f : Activation) (i : UInt32) (v : UInt64) : Except Stop Activation :=
  if f.base + i.toNat < 0 then .error .outOfRange
  else if i.toNat < f.locals.size then
    .ok { f with locals := f.locals.setIfInBounds i.toNat v }
  else .error .outOfRange

/-! ## Blocks -/

/-- An index of an instruction. -/
def target (label : Option Int) : Except Stop Nat :=
  match label with
  | some l => .ok l.toNat
  | none => .error .outOfRange

/-- Opens the block that an instruction begins. -/
def openBlock (f : Activation) (i : Instruction) : Except Stop Activation := do
  let target ← target i.continuation
  return { f with labels := { target, height := i.height, arity := i.arity } :: f.labels }

/-- The results of a function that is left. -/
def results (f : Activation) : Except Stop (List UInt64) :=
  let count := f.function.type.results.length
  if f.operands.length < count then .error (.trap .heightMismatch)
  -- Results are written from the base on, which is below the stack if arguments were missing.
  else if f.base < 0 then .error .outOfRange
  else .ok (f.operands.take count)

end Activation

/-- How an activation goes on after an instruction. -/
inductive Next where
  /-- In the same function. -/
  | go (f : Activation)
  /-- The function is left with its results, the topmost first. -/
  | leave (results : List UInt64)
  /-- Another function is called. -/
  | call (f : Activation) (function : UInt32)

namespace Activation

/-- Branches to an open block, counted from the innermost. A branch to the function leaves it. -/
def branch (f : Activation) (depth : Int) : Except Stop Next := do
  if depth < 0 then throw .outOfRange
  -- The outermost label is that of the function.
  if depth.toNat + 1 = f.labels.length then
    return .leave (← f.results)
  match f.labels[depth.toNat]? with
  | none => throw .outOfRange
  | some l =>
    if f.operands.length < l.height + l.arity then throw (.trap .heightMismatch)
    let kept := f.operands.drop (f.operands.length - l.height)
    return .go
      { f with
        ip := l.target
        operands := f.operands.take l.arity ++ kept
        labels := f.labels.drop (depth.toNat + 1) }

/-- Closes the innermost block, which has to leave exactly its results. Closing the function leaves
it. -/
def close (f : Activation) : Except Stop Next := do
  match f.labels with
  | [] => throw .outOfRange
  | l :: labels =>
    if f.operands.length ≠ l.height + l.arity then throw (.trap .heightMismatch)
    if labels.isEmpty then return .leave (← f.results)
    return .go { f with labels }

end Activation

/-- A machine: its activations and what lies below them. -/
structure Machine where
  /-- The activations, the innermost first. -/
  frames : List Activation := []
  /-- The operands below the first activation, the topmost first: the arguments of the invocation
  and in the end its results. -/
  outer : List UInt64 := []
  /-- Where functions of the embedder leave their result. -/
  slot : UInt64 := 0
  deriving Repr, DecidableEq, Inhabited

namespace Machine

/-- The operands of the innermost activation. -/
def operands (m : Machine) : List UInt64 :=
  match m.frames with
  | [] => m.outer
  | f :: _ => f.operands

/-- Replaces the operands of the innermost activation. -/
def setOperands (m : Machine) (operands : List UInt64) : Machine :=
  match m.frames with
  | [] => { m with outer := operands }
  | f :: callers => { m with frames := { f with operands } :: callers }

/-- Replaces the innermost activation. -/
def resume (m : Machine) (f : Activation) : Machine := { m with frames := f :: m.frames.tail }

/-- Takes the innermost activation away and gives its results to the one below. -/
def leave (m : Machine) (results : List UInt64) : Machine :=
  let m := { m with frames := m.frames.tail }
  m.setOperands (results ++ m.operands)

/-- The function of the innermost activation and the instruction before the one that it goes on
with. -/
def place? (m : Machine) : Option (Int × Int) :=
  m.frames.head?.map fun f => (f.function.index.toNat, (f.ip : Int) - 1)

/-- The height of the operand stack. -/
def height (m : Machine) : Int :=
  match m.frames with
  | [] => m.outer.length
  | f :: _ => f.height

/-- The number of labels on the control stack. -/
def labelCount (m : Machine) : Nat :=
  match m.frames with
  | [] => 0
  | f :: _ => f.labelsBelow + f.labels.length

/-- The number of activations. -/
def depth (m : Machine) : Nat :=
  match m.frames with
  | [] => 0
  | f :: _ => f.callers + 1

/-- Whether the most that a function can need fits on the stacks. -/
def admits (m : Machine) (config : Config) (fn : Function) : Bool :=
  let top := m.height - fn.type.params.length + fn.locals
  decide (top + fn.body.metrics.maxStack ≤ config.maxOperandStack)
    && decide (m.labelCount + fn.body.metrics.maxNesting ≤ config.maxControlDepth)
    && decide (m.depth < config.maxCallDepth)

/-- The machine after a function was entered. Its parameters are taken from the operands; those for
which there is no operand and all other locals are zero. -/
def enter (m : Machine) (config : Config) (fn : Function) : Machine :=
  let count := fn.type.params.length
  let args := (m.operands.take count).reverse
  let base := m.height - count
  let missing := List.replicate (count - args.length) 0
  let declared := List.replicate (fn.locals - count) 0
  let f : Activation :=
    { function := fn
      locals := (missing ++ args ++ declared).toArray
      labels :=
        [{ target := fn.body.instructions.size - 1, height := 0
           arity := fn.type.results.length }]
      base
      room := (config.maxOperandStack - base - fn.locals).toNat
      labelsBelow := m.labelCount
      callers := m.depth }
  let m := m.setOperands (m.operands.drop count)
  { m with frames := f :: m.frames }

/-- Adds an operand to those of the innermost activation. -/
def push (m : Machine) (config : Config) (v : UInt64) : Except Stop Machine :=
  match m.frames with
  | [] =>
    if m.outer.length < config.maxOperandStack then .ok { m with outer := v :: m.outer }
    else .error .outOfRange
  | f :: callers => do
    let f ← f.push v
    return { m with frames := f :: callers }

/-- The machine with what a function of the embedder of a given type has written to its result slot,
if it has one. -/
def keepWritten (m : Machine) (type : FuncType) (written : Option UInt64) : Machine :=
  match type.results with
  | [] => m
  | _ :: _ => { m with slot := written.getD m.slot }

/-- The machine after a function of the embedder of a given type, which has written its result slot
or left it as it was. The arguments make way for the result, of which a 32-bit integer keeps the low
half. -/
def finishHostCall (m : Machine) (config : Config) (type : FuncType) (written : Option UInt64) :
    Except Stop Machine :=
  let m := m.setOperands (m.operands.drop type.params.length)
  match type.results with
  | [] => .ok m
  | t :: _ =>
    let slot := written.getD m.slot
    { m with slot }.push config (Value.word t slot)

end Machine

end IntWasm
