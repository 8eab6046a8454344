import IntWasm.Proofs.Structured.Heights
import IntWasm.Proofs.Trace.Nesting

/-!
# What an instruction leaves as it is

An activation that runs an instruction stays in its function, whatever the instruction is and
whether or not the code was checked. If the instruction stops the machine, it does so with a trap of
code, with a height that is not as it should be, or because something is missing. Main statement:
`Activation.step_stays`.
-/

namespace IntWasm

/-- A stop that an instruction may lead to. -/
def Stop.OfCode : Stop → Prop
  | .trap t => t ∈ Trap.ofCode ∨ t = .heightMismatch
  | .host _ => False
  | .outOfRange | .crash _ => True

/-- A computation gives something with a property, or it stops as an instruction may. -/
def Proceeds {α : Type} (P : α → Prop) : Except Stop α → Prop
  | .ok a => P a
  | .error stop => stop.OfCode

namespace Proceeds

variable {α β : Type} {P : α → Prop} {Q : β → Prop}

/-- Two steps proceed if the first one does and the second one from whatever it gives. -/
theorem bind {x : Except Stop α} {f : α → Except Stop β} (hx : Proceeds P x)
    (hf : ∀ a, P a → Proceeds Q (f a)) : Proceeds Q (x >>= f) := by
  cases x with
  | error stop => exact hx
  | ok a => exact hf a hx

/-- A height mismatch is a trap of the code. -/
theorem mismatch : Proceeds P (.error (.trap .heightMismatch)) := .inr rfl

/-- A trap of the code may end a step. -/
theorem trap {t : Trap} (ht : t ∈ Trap.ofCode) : Proceeds P (.error (.trap t)) := .inl ht

end Proceeds

namespace Activation

variable {f : Activation} {fn : Function}

/-- Taking an operand stays in the function. -/
theorem pop_stays (hf : f.function = fn) : Proceeds (fun p => p.2.function = fn) f.pop := by
  unfold pop
  split
  · trivial
  · exact hf

/-- Taking two operands stays in the function. -/
theorem pop2_stays (hf : f.function = fn) : Proceeds (fun p => p.2.2.function = fn) f.pop2 := by
  unfold pop2
  split
  · exact hf
  · trivial

/-- Putting a word on the stack stays in the function. -/
theorem push_stays (hf : f.function = fn) (v : UInt64) : Proceeds (·.function = fn) (f.push v) := by
  unfold push
  split
  · exact hf
  · trivial

/-- A local is read, or the machine stops as code may stop it. -/
theorem getLocal_stays (f : Activation) (i : UInt32) : Proceeds (fun _ => True) (f.getLocal i) := by
  unfold getLocal
  split
  · trivial
  · split <;> trivial

/-- Setting a local stays in the function. -/
theorem setLocal_stays (hf : f.function = fn) (i : UInt32) (v : UInt64) :
    Proceeds (·.function = fn) (f.setLocal i v) := by
  unfold setLocal
  split
  · trivial
  · split
    · exact hf
    · trivial

/-- A label's target is found, or the machine stops as code may stop it. -/
theorem target_stays (label : Option Int) : Proceeds (fun _ => True) (target label) := by
  cases label <;> trivial

/-- Opening a block stays in the function. -/
theorem openBlock_stays (hf : f.function = fn) (i : Instruction) :
    Proceeds (·.function = fn) (f.openBlock i) :=
  (target_stays i.continuation).bind fun _ _ => hf

/-- The results are there, or the machine stops as code may stop it. -/
theorem results_stays (f : Activation) : Proceeds (fun _ => True) f.results := by
  simp only [results]
  by_cases hshort : f.operands.length < f.function.type.results.length
  · rw [if_pos hshort]
    exact .mismatch
  · rw [if_neg hshort]
    split <;> trivial

/-- Leaving the function is as good as staying in it. -/
theorem leave_stays (f : Activation) (fn : Function) :
    Proceeds (Next.StaysIn fn) (do return Next.leave (← f.results)) :=
  f.results_stays.bind fun _ _ => trivial

/-- A branch stays in the function or leaves it. -/
theorem branch_stays (hf : f.function = fn) (depth : Int) :
    Proceeds (Next.StaysIn fn) (f.branch depth) := by
  unfold branch
  by_cases hnegative : depth < 0
  · rw [if_pos hnegative]
    trivial
  · rw [if_neg hnegative]
    by_cases hlast : depth.toNat + 1 = f.labels.length
    · rw [if_pos hlast]
      exact leave_stays f fn
    · rw [if_neg hlast]
      cases f.labels[depth.toNat]? with
      | none => trivial
      | some l =>
        by_cases hshort : f.operands.length < l.height + l.arity
        · simp only [if_pos hshort]
          exact .mismatch
        · simp only [if_neg hshort]
          exact hf

/-- An end stays in the function or leaves it. -/
theorem close_stays (hf : f.function = fn) : Proceeds (Next.StaysIn fn) f.close := by
  unfold close
  cases f.labels with
  | nil => trivial
  | cons l labels =>
    by_cases hheight : f.operands.length ≠ l.height + l.arity
    · simp only [if_pos hheight]
      exact .mismatch
    · simp only [if_neg hheight]
      by_cases hempty : labels.isEmpty = true
      · simp only [if_pos hempty]
        exact leave_stays f fn
      · simp only [if_neg hempty]
        exact hf

/-- A constant stays in the function. -/
theorem constant_stays (hf : f.function = fn) (v : UInt64) :
    Proceeds (Next.StaysIn fn) (f.constant v) :=
  (push_stays hf v).bind fun _ hf' => hf'

/-- An operation on one operand stays in the function. -/
theorem unary_stays (hf : f.function = fn) (op : UInt64 → UInt64) :
    Proceeds (Next.StaysIn fn) (f.unary op) :=
  (pop_stays hf).bind fun p hp => (push_stays hp (op p.1)).bind fun _ hf' => hf'

/-- An operation on two operands stays in the function, if its traps are those of the code. -/
theorem binary_stays (hf : f.function = fn) {op : UInt64 → UInt64 → Except Trap UInt64}
    (hop : ∀ a b t, op a b = .error t → t ∈ Trap.ofCode) :
    Proceeds (Next.StaysIn fn) (f.binary op) := by
  refine (pop2_stays hf).bind fun p hp => ?_
  obtain ⟨a, b, f'⟩ := p
  simp only
  cases hresult : op a b with
  | ok v => exact (push_stays hp v).bind fun _ hf' => hf'
  | error t => exact .trap (hop a b t hresult)

/-- An instruction that concerns the activation alone stays in the function. -/
theorem stepLocal_stays (hf : f.function = fn) (op : Opcode) (i : Instruction) :
    Proceeds (Next.StaysIn fn) (f.stepLocal op i) := by
  have hpure {op : UInt64 → UInt64 → UInt64} (f : Activation) (hf : f.function = fn) :
      Proceeds (Next.StaysIn fn) (f.binary fun a b => .ok (op a b)) := binary_stays hf nofun
  -- Every operation of an activation keeps its function, so each instruction follows from those
  -- that it is made of.
  cases op
  case unreachable => exact .trap (by simp [Trap.ofCode])
  case nop => exact hf
  case block | loop => exact (openBlock_stays hf i).bind fun _ hf' => hf'
  case ifThen =>
    refine (pop_stays hf).bind fun p hp => ?_
    obtain ⟨condition, f'⟩ := p
    by_cases hcondition : condition.toUInt32 ≠ 0
    · simp only [if_pos hcondition]
      exact (openBlock_stays hp i).bind fun _ hf' => hf'
    · simp only [if_neg hcondition]
      refine (target_stays i.elseLabel).bind fun other _ => ?_
      by_cases hother : other ≠ 0
      · simp only [if_pos hother]
        exact (openBlock_stays hp i).bind fun _ hf' => hf'
      · simp only [if_neg hother]
        exact (target_stays i.continuation).bind fun _ _ => hp
  case otherwise =>
    refine (close_stays hf).bind fun next hnext => ?_
    cases next with
    | go f' => exact (target_stays i.continuation).bind fun _ _ => hnext
    | leave | call => exact hnext
  case close => exact close_stays hf
  case br => exact branch_stays hf i.index.toNat
  case brIf =>
    refine (pop_stays hf).bind fun p hp => ?_
    obtain ⟨condition, f'⟩ := p
    by_cases hcondition : condition.toUInt32 ≠ 0
    · simp only [if_pos hcondition]
      exact branch_stays hp _
    · simp only [if_neg hcondition]
      exact hp
  case brTable =>
    refine (pop_stays hf).bind fun p hp => ?_
    obtain ⟨index, f'⟩ := p
    simp only
    split <;> exact branch_stays hp _
  case ret => exact leave_stays f fn
  case drop => exact (pop_stays hf).bind fun _ hp => hp
  case select => exact (pop_stays hf).bind fun p hp => hpure p.2 hp
  case localGet => exact (getLocal_stays f i.index).bind fun v _ => constant_stays hf v
  case localSet =>
    exact (pop_stays hf).bind fun p hp => (setLocal_stays hp i.index p.1).bind fun _ hf' => hf'
  case localTee =>
    exact (pop_stays hf).bind fun p _ => (setLocal_stays hf i.index p.1).bind fun _ hf' => hf'
  case const type => cases type <;> exact constant_stays hf _
  case eqz | count | wrap | extend | extendPart | extendWord => exact unary_stays hf _
  case compare => exact hpure f hf
  case arith type operation => exact binary_stays hf fun _ _ _ => Numeric.arithWord_error
  all_goals trivial

end Activation

/-! ## Instructions on the store -/

namespace Exec

variable {H σ α : Type} {inst : Instance H}

/-- What proceeds in the activation proceeds in the store. -/
theorem lift_proceeds {P : α → Prop} {r : Except Stop α} (hr : Proceeds P r) (s : Store H σ) :
    Leads (lift r : Exec H σ α) s (fun a _ => P a) fun stop _ => stop.OfCode := by
  unfold Leads lift
  cases r <;> exact hr

/-- A computation on the memory of the instance. -/
theorem memory_proceeds {next : Nat → Exec H σ α} (s : Store H σ)
    (hnext : ∀ address, Leads (next address) s (fun _ _ => True) fun stop _ => stop.OfCode) :
    Leads (memory inst >>= next) s (fun _ _ => True) fun stop _ => stop.OfCode := by
  unfold memory
  cases inst.memory with
  | none => trivial
  | some address => exact hnext address

/-- A load ends with a word or a trap of the code. -/
theorem load_proceeds (base offset : UInt32) (width : Nat) (s : Store H σ) :
    Leads (load inst base offset width) s (fun _ _ => True) fun stop _ => stop.OfCode := by
  refine memory_proceeds s fun address => ?_
  unfold Leads
  cases hat : s.memories[address]? with
  | none => simp only [hat, Stop.OfCode]
  | some m =>
    cases hload : m.load base offset width with
    | ok w => simp only [hat, hload]
    | error t =>
      simp only [hat, hload]
      exact .inl (Memory.load_error hload)

/-- A store ends or traps as the code does. -/
theorem store_proceeds (base offset : UInt32) (width : Nat) (w : UInt64) (s : Store H σ) :
    Leads (store inst base offset width w) s (fun _ _ => True) fun stop _ => stop.OfCode := by
  refine memory_proceeds s fun address => ?_
  unfold Leads
  cases hat : s.memories[address]? with
  | none => simp only [hat, Stop.OfCode]
  | some m =>
    cases haddress : m.address base offset width with
    | ok start => simp only [hat, haddress]
    | error t =>
      simp only [hat, haddress]
      exact .inl (Memory.address_error haddress)

/-- The size of a memory is given if there is one. -/
theorem memorySize_proceeds (s : Store H σ) :
    Leads (memorySize inst) s (fun _ _ => True) fun stop _ => stop.OfCode := by
  refine memory_proceeds s fun address => ?_
  unfold Leads
  cases hat : s.memories[address]? <;> simp only [hat, Stop.OfCode]

/-- Growing a memory ends with an answer if there is one. -/
theorem memoryGrow_proceeds (pages : UInt32) (s : Store H σ) :
    Leads (memoryGrow inst pages) s (fun _ _ => True) fun stop _ => stop.OfCode := by
  refine memory_proceeds s fun address => ?_
  unfold Leads
  cases hgrow : Store.growMemory address pages s <;> simp only [hgrow]

/-- A global is read if it is there. -/
theorem getGlobal_proceeds (i : UInt32) (s : Store H σ) :
    Leads (getGlobal inst i) s (fun _ _ => True) fun stop _ => stop.OfCode := by
  unfold Leads getGlobal
  cases (inst.globals[i.toNat]?).bind fun address => s.globals[address]? <;> simp only [Stop.OfCode]

/-- A global is written if it is there. -/
theorem setGlobal_proceeds (i : UInt32) (v : UInt64) (s : Store H σ) :
    Leads (setGlobal inst i v) s (fun _ _ => True) fun stop _ => stop.OfCode := by
  unfold Leads setGlobal
  cases inst.globals[i.toNat]? with
  | none => simp only [Stop.OfCode]
  | some address =>
    cases hglobal : s.globals[address]? with
    | none => simp only [hglobal, Stop.OfCode]
    | some g => cases hset : g.set? v <;> simp only [hglobal, hset, Stop.OfCode]

/-- A function of the table is found, or the trap is one of the code's. -/
theorem indirect_proceeds (slot type : UInt32) (s : Store H σ) :
    Leads (indirect inst slot type) s (fun _ _ => True) fun stop _ => stop.OfCode := by
  unfold indirect
  cases inst.table with
  | none => trivial
  | some table =>
    cases hlookup : table.lookup slot with
    | error t =>
      simp only [hlookup]
      exact .inl (Table.lookup_error hlookup)
    | ok function =>
      simp only [hlookup]
      cases inst.types[type.toNat]? with
      | none => trivial
      | some expected =>
        cases inst.signature? function with
        | none => trivial
        | some actual =>
          by_cases hsame : actual = expected
          · simp only [hsame, if_true]
            trivial
          · simp only [hsame, if_false]
            exact .inl (by simp [Trap.ofCode])

end Exec

/-- An activation that runs an instruction stays in its function. -/
theorem Activation.step_stays {H σ : Type} (inst : Instance H) {f : Activation} {fn : Function}
    (hf : f.function = fn) (i : Instruction) (s : Store H σ) :
    Leads (step inst f i) s (fun next _ => next.StaysIn fn) fun stop _ => stop.OfCode := by
  rw [step]
  split
  · trivial
  · exact hf
  · refine (Exec.lift_proceeds (pop_stays hf) s).bind fun p t hp => ?_
    exact (Exec.indirect_proceeds _ _ t).bind fun _ _ _ => hp
  · refine (Exec.getGlobal_proceeds _ s).bind fun v t _ => ?_
    exact Exec.lift_proceeds (constant_stays hf v) t
  · refine (Exec.lift_proceeds (pop_stays hf) s).bind fun p t hp => ?_
    exact (Exec.setGlobal_proceeds _ _ t).bind fun _ _ _ => hp
  · refine (Exec.lift_proceeds (pop_stays hf) s).bind fun p t hp => ?_
    exact (Exec.load_proceeds _ _ _ t).bind fun w u _ => Exec.lift_proceeds (constant_stays hp _) u
  · refine (Exec.lift_proceeds (pop2_stays hf) s).bind fun p t hp => ?_
    exact (Exec.store_proceeds _ _ _ _ t).bind fun _ _ _ => hp
  · refine (Exec.memorySize_proceeds s).bind fun v t _ => ?_
    exact Exec.lift_proceeds (constant_stays hf v) t
  · refine (Exec.lift_proceeds (pop_stays hf) s).bind fun p t hp => ?_
    exact (Exec.memoryGrow_proceeds _ t).bind fun v u _ =>
      Exec.lift_proceeds (constant_stays hp v) u
  · exact Exec.lift_proceeds (stepLocal_stays hf _ i) s

end IntWasm
