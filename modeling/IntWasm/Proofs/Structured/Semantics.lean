import IntWasm.Engine.Invoke
import IntWasm.Proofs.Structured.Syntax
import Mathlib.Logic.Relation

/-!
# What structured code means

A semantics of code as a tree, without addresses, labels or bounded stacks. A frame is an activation
of a function: its operands are those of the innermost block, and the blocks around it are kept with
what follows them and with the operands that were there at their entry. A branch out of `n + 1`
blocks takes the operands that it carries and goes on after the last of these blocks, or with a loop
at its beginning. `Frame.next` is what a frame does next; an execution is a stack of frames, in
which functions are called and left, and functions of the embedder are performed. Traces and
counters are no part of the semantics: they may change at any time.
-/

namespace IntWasm.Structured

variable {H σ : Type}

/-- A block that is being run. -/
structure Enclosing where
  /-- The number of operands that a branch to the block carries. -/
  arity : Nat
  /-- What a branch to the block goes on with. -/
  target : Code
  /-- What follows the block. -/
  after : Code
  /-- The operands at the entry of the block, the topmost first. -/
  below : List UInt64
  deriving Repr, Inhabited

/-- An activation of a function. -/
structure Frame where
  /-- The number of results of the function. -/
  arity : Nat
  locals : Array UInt64
  /-- The operands of the innermost block, the topmost first. -/
  operands : List UInt64 := []
  /-- What is left of the innermost block. -/
  code : Code
  /-- The blocks that are being run, the innermost first. -/
  blocks : List Enclosing := []
  deriving Repr, Inhabited

/-- What a frame does next. -/
inductive Deed where
  | go (frame : Frame)
  /-- The function is left with its results, the topmost first. -/
  | leave (results : List UInt64)
  /-- A function is called; the frame goes on when it is left. -/
  | call (frame : Frame) (function : UInt32) (args : List UInt64)
  | trap (t : Trap)

namespace Frame

/-- The frame at the beginning of a block. -/
def enter (f : Frame) (b : Enclosing) (body : Code) : Frame :=
  { f with operands := [], code := body, blocks := b :: f.blocks }

/-- Leaves `n + 1` blocks by a branch. The block behind all others is the function. -/
def jump (f : Frame) (n : Nat) : Option Deed :=
  match f.blocks[n]? with
  | some b =>
    some (.go
      { f with
        operands := f.operands.take b.arity ++ b.below
        code := b.target
        blocks := f.blocks.drop (n + 1) })
  | none => if n = f.blocks.length then some (.leave (f.operands.take f.arity)) else none

/-- Calls a function with the topmost operands. -/
def call (inst : Instance H) (f : Frame) (function : UInt32) : Option Deed := do
  let type ← inst.signature? function
  let count := type.params.length
  if f.operands.length < count then none
  else
    some (.call { f with operands := f.operands.drop count } function
      (f.operands.take count).reverse)

end Frame

/-- The function that an indirect call reaches, or the trap that it ends with. -/
def indirect (inst : Instance H) (slot type : UInt32) : Option (Except Trap UInt32) := do
  let table ← inst.table
  match table.lookup slot with
  | .error t => some (.error t)
  | .ok function =>
    let expected ← inst.types[type.toNat]?
    let actual ← inst.signature? function
    if actual = expected then some (.ok function) else some (.error .indirectTypeMismatch)

namespace Instr

/-- The operands after an instruction that concerns nothing else. -/
def compute : Instr → List UInt64 → Option (Except Trap (List UInt64))
  | nop, operands => some (.ok operands)
  | drop, _ :: operands => some (.ok operands)
  | select, condition :: b :: a :: operands =>
    some (.ok ((if condition.toUInt32 ≠ 0 then a else b) :: operands))
  | const32 value, operands => some (.ok (value.toUInt32.toUInt64 :: operands))
  | const64 value, operands => some (.ok (value.toUInt64 :: operands))
  | eqz type, a :: operands => some (.ok (Numeric.eqzWord type a :: operands))
  | compare type relation, b :: a :: operands =>
    some (.ok (Numeric.compareWord type relation a b :: operands))
  | count type what, a :: operands => some (.ok (Numeric.countWord type what a :: operands))
  | arith type operation, b :: a :: operands =>
    some ((Numeric.arithWord type operation a b).map (· :: operands))
  | wrap, a :: operands => some (.ok (Numeric.wrapWord a :: operands))
  | extend sign, a :: operands => some (.ok (Numeric.extendWord sign a :: operands))
  | extendPart type part, a :: operands =>
    some (.ok (Numeric.signExtendWord type part.bits a :: operands))
  | extendWord, a :: operands => some (.ok (Numeric.signExtendWord .i64 32 a :: operands))
  | _, _ => none

/-- What a frame does at an instruction, after which its code goes on. -/
def next (inst : Instance H) (store : Store H σ) (f : Frame) : Instr → Option (Deed × Store H σ)
  | unreachable => some (.trap .unreachable, store)
  | br n => do return (← f.jump n.toNat, store)
  | brIf n =>
    match f.operands with
    | [] => none
    | condition :: operands =>
      if condition.toUInt32 ≠ 0 then do return (← { f with operands }.jump n.toNat, store)
      else some (.go { f with operands }, store)
  | brTable labels default =>
    match f.operands with
    | [] => none
    | index :: operands => do
      let label := (labels[index.toUInt32.toNat]?).getD default
      return (← { f with operands }.jump label.toNat, store)
  | ret => some (.leave (f.operands.take f.arity), store)
  | call function => do return (← f.call inst function, store)
  | callIndirect type =>
    match f.operands with
    | [] => none
    | slot :: operands => do
      match ← indirect inst slot.toUInt32 type with
      | .ok function => return (← { f with operands }.call inst function, store)
      | .error t => return (.trap t, store)
  | localGet i => do
    let v ← f.locals[i.toNat]?
    return (.go { f with operands := v :: f.operands }, store)
  | localSet i =>
    match f.operands with
    | [] => none
    | v :: operands =>
      if i.toNat < f.locals.size then
        some (.go { f with operands, locals := f.locals.setIfInBounds i.toNat v }, store)
      else none
  | localTee i =>
    match f.operands with
    | [] => none
    | v :: _ =>
      if i.toNat < f.locals.size then
        some (.go { f with locals := f.locals.setIfInBounds i.toNat v }, store)
      else none
  | globalGet i => do
    let g ← store.globals[← inst.globals[i.toNat]?]?
    return (.go { f with operands := g.bits :: f.operands }, store)
  | globalSet i =>
    match f.operands with
    | [] => none
    | v :: operands => do
      let address ← inst.globals[i.toNat]?
      let g ← store.globals[address]?
      guard g.type.mutable
      let bits := if g.type.type = .i32 then v % 0x100000000 else v
      return (.go { f with operands },
        { store with globals := store.globals.setIfInBounds address { g with bits } })
  | load access _ offset =>
    match f.operands with
    | [] => none
    | base :: operands => do
      let memory ← store.memories[← inst.memory]?
      match memory.load base.toUInt32 offset access.width with
      | .ok w => return (.go { f with operands := access.extend w :: operands }, store)
      | .error t => return (.trap t, store)
  | Instr.store access _ offset =>
    match f.operands with
    | w :: base :: operands => do
      let address ← inst.memory
      let memory ← store.memories[address]?
      match memory.address base.toUInt32 offset access.width with
      | .ok start =>
        return (.go { f with operands }, store.modifyMemory address fun m =>
          { m with bytes := storeWord m.bytes start w access.width })
      | .error t => return (.trap t, store)
    | _ => none
  | memorySize => do
    let memory ← store.memories[← inst.memory]?
    return (.go { f with operands := memory.size.toUInt64 :: f.operands }, store)
  | memoryGrow =>
    match f.operands with
    | [] => none
    | pages :: operands => do
      match Store.growMemory (← inst.memory) pages.toUInt32 store with
      | .ok before store => return (.go { f with operands := before.toUInt64 :: operands }, store)
      | .error _ store => return (.go { f with operands := 0xffffffff :: operands }, store)
  | i => do
    match ← i.compute f.operands with
    | .ok operands => return (.go { f with operands }, store)
    | .error t => return (.trap t, store)

/-- The instructions that concern operands only. -/
def isNumeric : Instr → Bool
  | nop | drop | select | const32 _ | const64 _ | eqz _ | compare _ _ | count _ _ | arith _ _ | wrap
  | extend _ | extendPart _ _ | extendWord => true
  | _ => false

/-- A numeric instruction computes on the operands, or traps. -/
theorem next_numeric {inst : Instance H} {store : Store H σ} {i : Instr}
    (hnumeric : i.isNumeric = true) (f : Frame) :
    i.next inst store f = (i.compute f.operands).bind fun
      | .ok operands => some (.go { f with operands }, store)
      | .error t => some (.trap t, store) := by
  cases i <;> simp only [isNumeric, Bool.false_eq_true] at hnumeric <;> rw [next] <;>
    first | rfl | simp only [reduceCtorEq, imp_self, implies_true]

end Instr

/-- What a frame does next, and the store afterwards. -/
def Frame.next (inst : Instance H) (store : Store H σ) (f : Frame) : Option (Deed × Store H σ) :=
  match f.code with
  | .done =>
    match f.blocks with
    | [] => some (.leave f.operands, store)
    | b :: blocks =>
      some (.go { f with operands := f.operands ++ b.below, code := b.after, blocks }, store)
  | .instr i next => i.next inst store { f with code := next }
  | .block type body next =>
    some (.go (f.enter ⟨type.toList.length, next, next, f.operands⟩ body), store)
  | .loop type body next =>
    some (.go (f.enter ⟨0, .loop type body next, next, f.operands⟩ body), store)
  | .ifThen type body next =>
    match f.operands with
    | [] => none
    | condition :: operands =>
      if condition.toUInt32 ≠ 0 then
        some (.go (f.enter ⟨type.toList.length, next, next, operands⟩ body), store)
      else some (.go { f with operands, code := next }, store)
  | .ifElse type first second next =>
    match f.operands with
    | [] => none
    | condition :: operands =>
      some (.go (f.enter ⟨type.toList.length, next, next, operands⟩
        (if condition.toUInt32 ≠ 0 then first else second)), store)

/-! ## Executions -/

/-- What code runs with: an instance, the code of its functions, and the embedder. -/
structure Setting (H σ : Type) where
  inst : Instance H
  codes : List Code
  host : Host H σ
  invoker : Invoker H σ

/-- The frames of an invocation, and what lies outside of them. -/
structure Execution (H σ : Type) where
  store : Store H σ
  frame : Frame
  callers : List Frame
  /-- Where functions of the embedder leave their result. -/
  slot : UInt64

/-- The frame of a function that is entered: its locals are the arguments and zeros. -/
def Frame.start (fn : Function) (code : Code) (args : List UInt64) : Frame :=
  { arity := fn.type.results.length
    locals := (args ++ List.replicate (fn.locals - args.length) 0).toArray
    code }

/-- The call of a function of the embedder that an execution makes. -/
def Execution.hostCall (p : Setting H σ) (e : Execution H σ) (f : ImportedFunction H)
    (args : List UInt64) : HostCall H :=
  { code := f.code, type := f.type, args, memory := p.inst.memory
    depth := e.callers.length + 1, maxDepth := p.inst.newThread.maxDepth }

/-- The execution after a function of the embedder has written its result slot or left it as it was.
-/
def Execution.answered (e : Execution H σ) (frame : Frame) (type : FuncType)
    (written : Option UInt64) (store : Store H σ) : Execution H σ :=
  match type.results with
  | [] => { e with store, frame }
  | t :: _ =>
    let slot := written.getD e.slot
    { e with store, slot, frame := { frame with operands := Value.word t slot :: frame.operands } }

/-- The steps of an execution. -/
inductive Step (p : Setting H σ) : Execution H σ → Execution H σ → Prop
  | go {e : Execution H σ} {frame store}
      (hnext : e.frame.next p.inst e.store = some (.go frame, store)) :
    Step p e { e with frame, store }
  | leave {e : Execution H σ} {results store caller callers}
      (hnext : e.frame.next p.inst e.store = some (.leave results, store))
      (hcallers : e.callers = caller :: callers) :
    Step p e
      { e with store, callers, frame := { caller with operands := results ++ caller.operands } }
  | enter {e : Execution H σ} {frame function args store fn code}
      (hnext : e.frame.next p.inst e.store = some (.call frame function args, store))
      (himport : p.inst.imports[function.toNat]? = none)
      (hfunction : p.inst.functions[function.toNat - p.inst.imports.size]? = some fn)
      (hcode : p.codes[function.toNat - p.inst.imports.size]? = some code) :
    Step p e { e with store, callers := frame :: e.callers, frame := .start fn code args }
  | host {e : Execution H σ} {frame function args store f traces counters written store'}
      (hnext : e.frame.next p.inst e.store = some (.call frame function args, store))
      (himport : p.inst.imports[function.toNat]? = some f)
      (hcall : p.host.call p.invoker (e.hostCall p f args) { store with traces, counters } =
        .ok written store') :
    Step p e (e.answered frame f.type written store')
  | observe {e : Execution H σ} (traces : Array Sink) (counters : Counters) :
    Step p e { e with store := { e.store with traces, counters } }

/-- Any number of steps. -/
abbrev Steps (p : Setting H σ) : Execution H σ → Execution H σ → Prop :=
  Relation.ReflTransGen (Step p)

/-- The ways in which an execution fails, with the store that it leaves. -/
inductive Fails (p : Setting H σ) : Execution H σ → Stop → Store H σ → Prop
  | trap {e : Execution H σ} {t store}
      (hnext : e.frame.next p.inst e.store = some (.trap t, store)) :
    Fails p e (.trap t) store
  | host {e : Execution H σ} {frame function args store f traces counters failure store'}
      (hnext : e.frame.next p.inst e.store = some (.call frame function args, store))
      (himport : p.inst.imports[function.toNat]? = some f)
      (hcall : p.host.call p.invoker (e.hostCall p f args) { store with traces, counters } =
        .error failure store') :
    Fails p e (.host failure.fault.toTrapError) store'

/-- An invocation of a function before its first step: a frame whose only instruction calls it. -/
def Execution.invoke (store : Store H σ) (slot : UInt64) (function : UInt32) (args : List UInt64) :
    Execution H σ :=
  { store, slot, callers := []
    frame := { arity := 0, locals := #[], operands := args.reverse
               code := .instr (.call function) .done } }

/-- An invocation that has ended with its results, the topmost first. -/
structure Execution.Ended (e : Execution H σ) (results : List UInt64) : Prop where
  callers_eq : e.callers = []
  code_eq : e.frame.code = .done
  blocks_eq : e.frame.blocks = []
  operands_eq : e.frame.operands = results

end IntWasm.Structured
