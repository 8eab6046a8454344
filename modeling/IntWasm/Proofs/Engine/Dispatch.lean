import IntWasm.Engine.Step

/-!
# What each opcode does

Running an instruction is looked up by its opcode once. Proofs about one opcode then start from the
equation for it, and do not open the whole table.
-/

namespace IntWasm.Activation

/-! ## Operands -/

/-- Where there is room, a word is put on top. -/
theorem push_eq {f : Activation} {v : UInt64} (hroom : f.operands.length < f.room) :
    f.push v = .ok { f with operands := v :: f.operands } :=
  if_pos hroom

/-- A constant is put on top. -/
theorem constant_eq {f : Activation} {v : UInt64}
    (hroom : f.operands.length < f.room) :
    f.constant v = .ok (.go { f with operands := v :: f.operands }) := by
  rw [constant, push_eq hroom]
  rfl

/-- One operand is replaced by its image. -/
theorem unary_eq {f : Activation} {op : UInt64 → UInt64} {a : UInt64}
    {operands : List UInt64} (hoperands : f.operands = a :: operands)
    (hroom : operands.length < f.room) :
    f.unary op = .ok (.go { f with operands := op a :: operands }) := by
  simp only [unary, pop, hoperands]
  exact congrArg (fun r => r >>= fun f => pure (Next.go f)) (push_eq hroom)

/-- Two operands are replaced by what the operation gives, if it gives anything. -/
theorem binary_eq {f : Activation} {op : UInt64 → UInt64 → Except Trap UInt64}
    {a b : UInt64} {operands : List UInt64} (hoperands : f.operands = b :: a :: operands)
    (hroom : operands.length < f.room) :
    f.binary op =
      match op a b with
      | .ok v => .ok (.go { f with operands := v :: operands })
      | .error t => .error (.trap t) := by
  simp only [binary, pop2, hoperands]
  cases hop : op a b with
  | error t => simp only [bind, Except.bind, hop]; rfl
  | ok v =>
    simp only [bind, Except.bind, hop]
    exact congrArg (fun r => r >>= fun f => pure (Next.go f)) (push_eq hroom)

/-! ## Opcodes -/

/-- An instruction is run by its opcode. -/
theorem step_of_op {H σ : Type} {i : Instruction} {op : Opcode} (hop : i.op? = some op)
    (inst : Instance H) (f : Activation) :
    (step inst f i : Exec H σ Next) =
      match op with
      | .call => return .call f i.index
      | .callIndirect => do
        let (slot, f) ← Exec.lift f.pop
        return .call f (← Exec.indirect inst slot.toUInt32 i.index)
      | .globalGet => do
        let v ← Exec.getGlobal inst i.index
        Exec.lift (f.constant v)
      | .globalSet => do
        let (v, f) ← Exec.lift f.pop
        Exec.setGlobal inst i.index v
        return .go f
      | .load access => do
        let (base, f) ← Exec.lift f.pop
        let w ← Exec.load inst base.toUInt32 i.index access.width
        Exec.lift (f.constant (access.extend w))
      | .store access => do
        let (base, w, f) ← Exec.lift f.pop2
        Exec.store inst base.toUInt32 i.index access.width w
        return .go f
      | .memorySize => do
        let pages ← Exec.memorySize inst
        Exec.lift (f.constant pages)
      | .memoryGrow => do
        let (pages, f) ← Exec.lift f.pop
        let answer ← Exec.memoryGrow inst pages.toUInt32
        Exec.lift (f.constant answer)
      | op => Exec.lift (f.stepLocal op i) := by
  rw [step]
  cases op <;> simp only [hop]

section

variable (f : Activation) (i : Instruction)

/-! Opcodes that concern the activation alone. -/

/-- `block` opens a block. -/
theorem stepLocal_block : f.stepLocal .block i = return .go (← f.openBlock i) := rfl

/-- So does `loop`; that its branches go back is written in its label. -/
theorem stepLocal_loop : f.stepLocal .loop i = return .go (← f.openBlock i) := rfl

/-- `if` opens a block at its first branch or at its second one, or passes over both. -/
theorem stepLocal_ifThen :
    f.stepLocal .ifThen i = (do
      let (condition, f) ← f.pop
      if condition.toUInt32 ≠ 0 then return .go (← f.openBlock i)
      let other ← target i.elseLabel
      if other ≠ 0 then return .go { ← f.openBlock i with ip := other + 1 }
      return .go { f with ip := ← target i.continuation }) :=
  rfl

/-- `else` ends the first branch and passes over the second one. -/
theorem stepLocal_otherwise :
    f.stepLocal .otherwise i = (do
      match ← f.close with
      | .go f => return .go { f with ip := ← target i.continuation }
      | next => return next) :=
  rfl

/-- `end` closes a block or the function. -/
theorem stepLocal_close : f.stepLocal .close i = f.close := rfl

/-- `br` branches. -/
theorem stepLocal_br : f.stepLocal .br i = f.branch i.index.toNat := rfl

/-- `br_if` branches unless its operand is zero. -/
theorem stepLocal_brIf :
    f.stepLocal .brIf i = (do
      let (condition, f) ← f.pop
      if condition.toUInt32 ≠ 0 then f.branch i.index.toNat else return .go f) :=
  rfl

/-- `br_table` branches to the label with its operand's number, or else to the default. -/
theorem stepLocal_brTable :
    f.stepLocal .brTable i = (do
      let (index, f) ← f.pop
      match i.labels[index.toUInt32.toNat]? with
      | some label => f.branch label
      | none => f.branch i.index.toNat) :=
  rfl

/-- `return` leaves the function. -/
theorem stepLocal_ret : f.stepLocal .ret i = return .leave (← f.results) := rfl

/-- `drop` takes an operand away. -/
theorem stepLocal_drop :
    f.stepLocal .drop i = (do
      let (_, f) ← f.pop
      return .go f) :=
  rfl

/-- `select` keeps one of two operands. -/
theorem stepLocal_select :
    f.stepLocal .select i = (do
      let (condition, f) ← f.pop
      f.binary fun a b => .ok (if condition.toUInt32 ≠ 0 then a else b)) :=
  rfl

/-- `local.get` puts a local on the stack. -/
theorem stepLocal_localGet :
    f.stepLocal .localGet i = (do f.constant (← f.getLocal i.index)) :=
  rfl

/-- `local.set` takes an operand into a local. -/
theorem stepLocal_localSet :
    f.stepLocal .localSet i = (do
      let (v, f) ← f.pop
      return .go (← f.setLocal i.index v)) :=
  rfl

/-- `local.tee` leaves the operand where it is. -/
theorem stepLocal_localTee :
    f.stepLocal .localTee i = (do
      let (v, _) ← f.pop
      return .go (← f.setLocal i.index v)) :=
  rfl

/-- A constant of 32 bits is kept in the index of its instruction. -/
theorem stepLocal_const32 : f.stepLocal (.const .i32) i = f.constant i.index.toUInt64 := rfl

/-- A constant of 64 bits is kept in the immediate of its instruction. -/
theorem stepLocal_const64 : f.stepLocal (.const .i64) i = f.constant i.immediate := rfl

/-- A test for zero has one operand. -/
theorem stepLocal_eqz (type : IntType) :
    f.stepLocal (.eqz type) i = f.unary (Numeric.eqzWord type) :=
  rfl

/-- A comparison has two operands and always gives a truth value. -/
theorem stepLocal_compare (type : IntType) (relation : Comparison) :
    f.stepLocal (.compare type relation) i =
      f.binary fun a b => .ok (Numeric.compareWord type relation a b) :=
  rfl

/-- A count of bits has one operand. -/
theorem stepLocal_count (type : IntType) (what : Count) :
    f.stepLocal (.count type what) i = f.unary (Numeric.countWord type what) :=
  rfl

/-- Arithmetic has two operands and may trap. -/
theorem stepLocal_arith (type : IntType) (operation : Arith) :
    f.stepLocal (.arith type operation) i = f.binary (Numeric.arithWord type operation) :=
  rfl

/-- Wrapping has one operand. -/
theorem stepLocal_wrap : f.stepLocal .wrap i = f.unary Numeric.wrapWord := rfl

/-- Extension has one operand, with a sign or without. -/
theorem stepLocal_extend (sign : Sign) :
    f.stepLocal (.extend sign) i = f.unary (Numeric.extendWord sign) :=
  rfl

/-- The low bits of a word are extended with their sign. -/
theorem stepLocal_extendPart (type : IntType) (size : Part) :
    f.stepLocal (.extendPart type size) i = f.unary (Numeric.signExtendWord type size.bits) :=
  rfl

/-- `i64.extend32_s` is the extension of 32 bits. -/
theorem stepLocal_extendWord :
    f.stepLocal .extendWord i = f.unary (Numeric.signExtendWord .i64 32) :=
  rfl

end

end IntWasm.Activation
