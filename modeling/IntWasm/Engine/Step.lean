import IntWasm.Engine.Machine

/-!
# One instruction

`Activation.step` runs one instruction of an activation. Instructions on operands, locals and blocks
concern the activation alone; those on globals and memories change the store. Calls are left to the
machine.
-/

namespace IntWasm

/-- The number of bytes that a load reads. -/
def LoadForm.width : LoadForm → Nat
  | full .i32 | word _ => 4
  | full .i64 => 8
  | part _ .byte _ => 1
  | part _ .half _ => 2

/-- The number of bytes that a store writes. -/
def StoreForm.width : StoreForm → Nat
  | full .i32 | word => 4
  | full .i64 => 8
  | part _ .byte => 1
  | part _ .half => 2

/-- The operand that a load gives for the number that it read. -/
def LoadForm.extend (w : UInt64) : LoadForm → UInt64
  | full _ | part _ _ .unsigned | word .unsigned => w
  | part type size .signed => Numeric.signExtendWord type size.bits w
  | word .signed => Numeric.signExtendWord .i64 32 w

/-- A computation on the store that may stop the machine. -/
abbrev Exec (H σ : Type) := EStateM Stop (Store H σ)

namespace Exec

variable {H σ α : Type}

/-- A computation that does not look at the store. -/
def lift (r : Except Stop α) : Exec H σ α := fun s =>
  match r with
  | .ok a => .ok a s
  | .error e => .error e s

/-- The value of a global. -/
def getGlobal (inst : Instance H) (i : UInt32) : Exec H σ UInt64 := fun s =>
  match (inst.globals[i.toNat]?).bind fun address => s.globals[address]? with
  | some g => .ok g.bits s
  | none => .error .outOfRange s

/-- Changes a global. -/
def setGlobal (inst : Instance H) (i : UInt32) (v : UInt64) : Exec H σ Unit := fun s =>
  match inst.globals[i.toNat]? with
  | none => .error .outOfRange s
  | some address =>
    match s.globals[address]? with
    | none => .error .outOfRange s
    | some g =>
      match g.set? v with
      | some g => .ok () { s with globals := s.globals.setIfInBounds address g }
      | none => .error (.crash .immutableGlobal) s

/-- The place of the memory. -/
def memory (inst : Instance H) : Exec H σ Nat :=
  match inst.memory with
  | some address => pure address
  | none => throw (.crash .missing)

/-- Reads a number from the memory. -/
def load (inst : Instance H) (base offset : UInt32) (width : Nat) : Exec H σ UInt64 := do
  let address ← memory inst
  fun s =>
    match s.memories[address]? with
    | none => .error (.crash .missing) s
    | some m =>
      match m.load base offset width with
      | .ok w => .ok w s
      | .error t => .error (.trap t) s

/-- Writes a number to the memory. -/
def store (inst : Instance H) (base offset : UInt32) (width : Nat) (w : UInt64) :
    Exec H σ Unit := do
  let address ← memory inst
  fun s =>
    match s.memories[address]? with
    | none => .error (.crash .missing) s
    | some m =>
      match m.address base offset width with
      | .error t => .error (.trap t) s
      | .ok start =>
        .ok () (s.modifyMemory address fun m =>
          { m with bytes := storeWord m.bytes start w width })

/-- The number of pages of the memory. -/
def memorySize (inst : Instance H) : Exec H σ UInt64 := do
  let address ← memory inst
  fun s =>
    match s.memories[address]? with
    | none => .error (.crash .missing) s
    | some m => .ok m.size.toUInt64 s

/-- Adds pages to the memory. The answer is the size before, or all ones if there is no room. -/
def memoryGrow (inst : Instance H) (pages : UInt32) : Exec H σ UInt64 := do
  let address ← memory inst
  fun s =>
    match Store.growMemory address pages s with
    | .ok before s => .ok before.toUInt64 (s.count inst.config (Counters.growth true))
    | .error _ s => .ok 0xffffffff (s.count inst.config (Counters.growth false))

/-- The function that an indirect call through a slot of the table calls. -/
def indirect (inst : Instance H) (slot type : UInt32) : Exec H σ UInt32 :=
  match inst.table with
  | none => throw (.crash .missing)
  | some table =>
    match table.lookup slot with
    | .error t => throw (.trap t)
    | .ok function =>
      match inst.types[type.toNat]? with
      | none => throw .outOfRange
      | some expected =>
        match inst.signature? function with
        | none => throw .outOfRange
        | some actual =>
          if actual = expected then pure function else throw (.trap .indirectTypeMismatch)

end Exec

namespace Activation

variable {H σ : Type}

/-- Replaces the topmost operand. -/
def unary (f : Activation) (op : UInt64 → UInt64) : Except Stop Next := do
  let (a, f) ← f.pop
  return .go (← f.push (op a))

/-- Replaces the two topmost operands. -/
def binary (f : Activation) (op : UInt64 → UInt64 → Except Trap UInt64) : Except Stop Next := do
  let (a, b, f) ← f.pop2
  match op a b with
  | .ok v => return .go (← f.push v)
  | .error t => throw (.trap t)

/-- Adds an operand. -/
def constant (f : Activation) (v : UInt64) : Except Stop Next := do
  return .go (← f.push v)

/-- Runs an instruction that concerns operands, locals and blocks only. -/
def stepLocal (f : Activation) (op : Opcode) (i : Instruction) : Except Stop Next := do
  match op with
  | .unreachable => throw (.trap .unreachable)
  | .nop => return .go f
  | .block | .loop => return .go (← f.openBlock i)
  | .ifThen =>
    let (condition, f) ← f.pop
    if condition.toUInt32 ≠ 0 then return .go (← f.openBlock i)
    let other ← target i.elseLabel
    if other ≠ 0 then return .go { ← f.openBlock i with ip := other + 1 }
    return .go { f with ip := ← target i.continuation }
  | .otherwise =>
    match ← f.close with
    | .go f => return .go { f with ip := ← target i.continuation }
    | next => return next
  | .close => f.close
  | .br => f.branch i.index.toNat
  | .brIf =>
    let (condition, f) ← f.pop
    if condition.toUInt32 ≠ 0 then f.branch i.index.toNat else return .go f
  | .brTable =>
    let (index, f) ← f.pop
    match i.labels[index.toUInt32.toNat]? with
    | some label => f.branch label
    | none => f.branch i.index.toNat
  | .ret => return .leave (← f.results)
  | .drop =>
    let (_, f) ← f.pop
    return .go f
  | .select =>
    let (condition, f) ← f.pop
    f.binary fun a b => .ok (if condition.toUInt32 ≠ 0 then a else b)
  | .localGet => f.constant (← f.getLocal i.index)
  | .localSet =>
    let (v, f) ← f.pop
    return .go (← f.setLocal i.index v)
  | .localTee =>
    let (v, _) ← f.pop
    return .go (← f.setLocal i.index v)
  | .const .i32 => f.constant i.index.toUInt64
  | .const .i64 => f.constant i.immediate
  | .eqz type => f.unary (Numeric.eqzWord type)
  | .compare type relation => f.binary fun a b => .ok (Numeric.compareWord type relation a b)
  | .count type what => f.unary (Numeric.countWord type what)
  | .arith type operation => f.binary (Numeric.arithWord type operation)
  | .wrap => f.unary Numeric.wrapWord
  | .extend sign => f.unary (Numeric.extendWord sign)
  | .extendPart type size => f.unary (Numeric.signExtendWord type size.bits)
  | .extendWord => f.unary (Numeric.signExtendWord .i64 32)
  | _ => throw (.crash (.opcode i.opText))

/-- Runs an instruction of an activation that has moved on to the next one. -/
def step (inst : Instance H) (f : Activation) (i : Instruction) : Exec H σ Next := do
  match i.op? with
  | none => throw (.crash (.opcode i.opText))
  | some .call => return .call f i.index
  | some .callIndirect =>
    let (slot, f) ← Exec.lift f.pop
    return .call f (← Exec.indirect inst slot.toUInt32 i.index)
  | some .globalGet =>
    let v ← Exec.getGlobal inst i.index
    Exec.lift (f.constant v)
  | some .globalSet =>
    let (v, f) ← Exec.lift f.pop
    Exec.setGlobal inst i.index v
    return .go f
  | some (.load access) =>
    let (base, f) ← Exec.lift f.pop
    let w ← Exec.load inst base.toUInt32 i.index access.width
    Exec.lift (f.constant (access.extend w))
  | some (.store access) =>
    let (base, w, f) ← Exec.lift f.pop2
    Exec.store inst base.toUInt32 i.index access.width w
    return .go f
  | some .memorySize =>
    let pages ← Exec.memorySize inst
    Exec.lift (f.constant pages)
  | some .memoryGrow =>
    let (pages, f) ← Exec.lift f.pop
    let answer ← Exec.memoryGrow inst pages.toUInt32
    Exec.lift (f.constant answer)
  | some op => Exec.lift (f.stepLocal op i)

end Activation

end IntWasm
