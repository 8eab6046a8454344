import IntWasm.Proofs.Structured.Correspondence

/-!
# Instructions in step

Running an instruction of an activation comes to what the frame that stands for it does. Enough
operands are there because the code is placed, and there is room for more. Main statements:
`Meets.follows` for the instructions after which code goes on, and `Stands.follows_jump` for the
others.
-/

namespace IntWasm

/-- Counting changes nothing but the counters. -/
theorem Store.count_eq {H σ : Type} (s : Store H σ) (config : Config)
    (change : Counters → Counters) : ∃ counters, s.count config change = { s with counters } := by
  unfold Store.count
  split
  · exact ⟨_, rfl⟩
  · exact ⟨s.counters, rfl⟩

namespace Structured

open Body

variable {H σ : Type}

/-- A flat instruction has the opcode of the instruction. -/
theorem Instr.op?_flat (i : Instr) : i.flat.op? = some i.op := Token.op?_flat (.instr i)

/-! ## Operands -/

/-- The low half of a constant is the constant. -/
theorem index_const32 (value : Int32) : (Instr.const32 value).flat.index = value.toUInt32 := by
  apply UInt32.toBitVec_inj.mp
  simp only [Instr.flat, Instr.immediate, Instruction.index, UInt64.toBitVec_toUInt32,
    Int64.toBitVec_toUInt64, Int32.toBitVec_toInt64, Int32.toBitVec_toUInt32]
  ext i hi
  simp [BitVec.getElem_signExtend, hi, show i < 64 by omega]

/-- An activation computes the operands that the code computes. -/
theorem Instr.HasType.compute {c : Context} {i : Instr} {ins outs : List IntType} {rest : Nat}
    (htype : i.HasType c ins outs) (hnumeric : i.isNumeric = true) {operands below : List UInt64}
    (hlength : operands.length = ins.length + rest) {f : Activation}
    (hoperands : f.operands = operands ++ below)
    (hroom : outs.length + rest + below.length ≤ f.room) :
    (∃ values, i.compute operands = some (.ok values) ∧ values.length = outs.length + rest ∧
      f.stepLocal i.op i.flat = .ok (.go { f with operands := values ++ below })) ∨
    ∃ t, i.compute operands = some (.error t) ∧ f.stepLocal i.op i.flat = .error (.trap t) := by
  -- The type says how many operands there are, so they come apart; the operands `below` the block
  -- are never reached.
  have hfirst (n : Nat) (hpos : operands.length = n + 1) :
      ∃ a more, operands = a :: more ∧ more.length = n := by
    obtain ⟨a, more, rfl⟩ := List.exists_cons_of_length_eq_add_one hpos
    exact ⟨a, more, rfl, by simpa using hpos⟩
  cases htype <;> simp only [Instr.isNumeric, Bool.false_eq_true] at hnumeric <;>
    simp only [List.length_cons, List.length_nil, Nat.zero_add] at hlength hroom ⊢
  case nop =>
    refine .inl ⟨operands, rfl, hlength, ?_⟩
    rw [← hoperands]
    rfl
  case drop =>
    obtain ⟨a, more, rfl, hmore⟩ := hfirst rest (by omega)
    refine .inl ⟨more, rfl, hmore, ?_⟩
    simp only [op, Activation.stepLocal_drop, Activation.pop, hoperands]
    rfl
  case const32 value =>
    refine .inl ⟨_, rfl, by rw [List.length_cons]; omega, ?_⟩
    rw [← index_const32, List.cons_append, ← hoperands]
    exact Activation.constant_eq (by rw [hoperands, List.length_append]; omega)
  case const64 value =>
    refine .inl ⟨_, rfl, by rw [List.length_cons]; omega, ?_⟩
    rw [List.cons_append, ← hoperands]
    exact Activation.constant_eq (by rw [hoperands, List.length_append]; omega)
  case eqz | count | wrap | extend | extendPart | extendWord =>
    obtain ⟨a, more, rfl, hmore⟩ := hfirst rest (by omega)
    rw [List.cons_append] at hoperands
    have hspace : (more ++ below).length < f.room := by
      rw [List.length_append]
      omega
    exact .inl ⟨_, rfl, by rw [List.length_cons]; omega, Activation.unary_eq hoperands hspace⟩
  case compare type relation =>
    obtain ⟨b, more, rfl, hmore⟩ := hfirst (rest + 1) (by omega)
    obtain ⟨a, more, rfl⟩ := List.exists_cons_of_length_eq_add_one hmore
    rw [List.cons_append, List.cons_append] at hoperands
    rw [List.length_cons] at hmore
    have hspace : (more ++ below).length < f.room := by
      rw [List.length_append]
      omega
    have hbinary : f.binary (fun a b => .ok (Numeric.compareWord type relation a b)) = _ :=
      Activation.binary_eq hoperands hspace
    exact .inl ⟨_, rfl, by rw [List.length_cons]; omega, hbinary⟩
  -- Arithmetic is the only case that may trap: the result decides which side of the disjunction
  -- holds.
  case arith type operation =>
    obtain ⟨b, more, rfl, hmore⟩ := hfirst (rest + 1) (by omega)
    obtain ⟨a, more, rfl⟩ := List.exists_cons_of_length_eq_add_one hmore
    rw [List.cons_append, List.cons_append] at hoperands
    rw [List.length_cons] at hmore
    have hbinary : f.stepLocal (.arith type operation) (Instr.arith type operation).flat = _ :=
      Activation.binary_eq hoperands (by rw [List.length_append]; omega)
    cases hword : Numeric.arithWord type operation a b with
    | error t => exact .inr ⟨t, by simp [Instr.compute, hword, Except.map], by
        rw [op, hbinary, hword]⟩
    | ok v =>
      refine .inl ⟨v :: more, by simp [Instr.compute, hword, Except.map], ?_, by
        rw [op, hbinary, hword]; rfl⟩
      rw [List.length_cons]
      omega
  case select =>
    obtain ⟨condition, more, rfl, hmore⟩ := hfirst (rest + 2) (by omega)
    obtain ⟨b, more, rfl⟩ := List.exists_cons_of_length_eq_add_one hmore
    obtain ⟨a, more, rfl⟩ := List.exists_cons_of_length_eq_add_one (Nat.succ.inj hmore)
    simp only [List.cons_append, List.length_cons] at hoperands hmore
    have hspace : (more ++ below).length < f.room := by
      rw [List.length_append]
      omega
    refine .inl ⟨_, rfl, by rw [List.length_cons]; omega, ?_⟩
    have hbinary : ({ f with operands := b :: a :: (more ++ below) } : Activation).binary
        (fun a b => .ok (if condition.toUInt32 ≠ 0 then a else b)) = _ :=
      Activation.binary_eq rfl hspace
    simp only [op, Activation.stepLocal_select, Activation.pop, hoperands]
    exact hbinary

/-! ## One instruction after the other -/

section

variable {m : Module} {inst : Instance H} {frame : Frame} {f : Activation} {c : Context}
  {height last count : Nat} {below : List UInt64} {store : Store H σ}

/-- Going on with the next instruction in the same block. -/
theorem Stands.follows_go {next : Code} {n : Nat} {store₁ store' : Store H σ} {counters : Counters}
    (hstands : Stands m inst 0 frame f c height last count below)
    (hplaced : next.Placed f.function.body c height last count (f.ip + 1) n) (values : List UInt64)
    (hlength : values.length = n) (locals : Array UInt64) (hsize : locals.size = f.function.locals)
    (hframe : frame.next inst store =
      some (.go { frame with code := next, operands := values, locals }, store₁))
    (hstore : store' = { store₁ with counters }) :
    Follows m inst frame f store
      (.ok (.go { f with ip := f.ip + 1, operands := values ++ below, locals }) store') := by
  refine ⟨_, store₁, counters, hframe, hstore,
    .go ⟨rfl, rfl, rfl, rfl, rfl⟩ ⟨c, height, last, count, below, ?_⟩⟩
  exact
    { hstands with
      placed := by simpa [hlength] using hplaced
      operands_eq := rfl
      locals_eq := rfl
      size_eq := hsize }

/-- The instructions that an activation runs without the store. -/
def Instr.isLocal : Instr → Bool
  | .call _ | .callIndirect _ | .globalGet _ | .globalSet _ | .load _ _ _ | .store _ _ _
  | .memorySize | .memoryGrow => false
  | _ => true

/-- An instruction that depends on the activation only is carried out there. -/
theorem step_local {i : Instr} (hlocal : i.isLocal = true) (f : Activation) :
    Activation.step inst f i.flat store = Exec.lift (f.stepLocal i.op i.flat) store := by
  rw [Activation.step_of_op (Instr.op?_flat i)]
  cases i <;> first | rfl | cases hlocal

/-- The code that an activation goes on with and its operands, for an instruction in the middle of a
block. -/
structure Meets (frame : Frame) (f : Activation) (c : Context) (height last count : Nat) (i : Instr)
    (next : Code) (ins outs : List IntType) (rest : Nat) : Prop where
  code_eq : frame.code = .instr i next
  type : i.HasType c ins outs
  length_eq : frame.operands.length = ins.length + rest
  placed : next.Placed f.function.body c height last count (f.ip + 1) (outs.length + rest)

/-- The frame's next step is that of its instruction. -/
theorem Meets.next_eq {i : Instr} {next : Code} {ins outs : List IntType} {rest : Nat}
    (hmeets : Meets frame f c height last count i next ins outs rest) (inst : Instance H)
    (store : Store H σ) :
    frame.next inst store = i.next inst store { frame with code := next } := by
  rw [Frame.next, hmeets.code_eq]

/-- There is room for what the instruction leaves. -/
theorem Meets.room {i : Instr} {next : Code} {ins outs : List IntType} {rest : Nat}
    (hmeets : Meets frame f c height last count i next ins outs rest)
    (hstands : Stands m inst 0 frame f c height last count below) :
    outs.length + rest + below.length ≤ f.room := by
  have hfits := hmeets.placed.fits
  have hheight := hstands.within.length_below
  have hroom := hstands.room_ge
  omega

/-- A numeric instruction does the same in both. -/
theorem Meets.follows_numeric {i : Instr} {next : Code} {ins outs : List IntType} {rest : Nat}
    (hmeets : Meets frame f c height last count i next ins outs rest)
    (hstands : Stands m inst 0 frame f c height last count below) (hnumeric : i.isNumeric = true) :
    Follows m inst frame f store
      (Activation.step inst { f with ip := f.ip + 1 } i.flat store) := by
  have hlocal : i.isLocal = true := by cases i <;> first | rfl | cases hnumeric
  have hnext := hmeets.next_eq inst store
  rw [Instr.next_numeric hnumeric] at hnext
  rw [step_local hlocal]
  rcases hmeets.type.compute hnumeric hmeets.length_eq
      (f := { f with ip := f.ip + 1 }) hstands.operands_eq (hmeets.room hstands) with
    ⟨values, hvalues, hlength, hstep⟩ | ⟨t, ht, hstep⟩
  · rw [hstep]
    refine hstands.follows_go hmeets.placed _ hlength f.locals hstands.size_eq ?_ rfl
    rw [hnext, hvalues, hstands.locals_eq]
    rfl
  · rw [hstep]
    refine ⟨rfl, .inl ?_⟩
    rw [hnext, ht]
    rfl

/-- The topmost operand of an instruction that takes one. -/
theorem Meets.exists_operand {i : Instr} {next : Code} {type : IntType} {ins outs : List IntType}
    {rest : Nat} (hmeets : Meets frame f c height last count i next (type :: ins) outs rest)
    (hstands : Stands m inst 0 frame f c height last count below) :
    ∃ a operands, frame.operands = a :: operands ∧ operands.length = ins.length + rest ∧
      f.operands = a :: (operands ++ below) := by
  have hlength := hmeets.length_eq
  rw [List.length_cons, Nat.add_right_comm] at hlength
  obtain ⟨a, operands, hoperands⟩ := List.exists_cons_of_length_eq_add_one hlength
  refine ⟨a, operands, hoperands, ?_, ?_⟩
  · rw [hoperands, List.length_cons] at hlength
    omega
  · rw [hstands.operands_eq, hoperands, List.cons_append]

/-! ## Locals -/

/-- A local of the scope is there, and is the same in both. -/
theorem Stands.getLocal_eq {i : UInt32} {type : ValueType}
    (hstands : Stands m inst 0 frame f c height last count below)
    (hlocal : c.scope.localType i = some type) (ip : Nat) :
    ∃ v, frame.locals[i.toNat]? = some v ∧ { f with ip }.getLocal i = .ok v := by
  have hlt : i.toNat < f.locals.size := by
    rw [hstands.size_eq]
    exact hstands.links.localType hlocal
  have hbase : ¬ f.base + (i.toNat : Int) < 0 := by
    have hnonneg := hstands.base_nonneg
    omega
  refine ⟨f.locals[i.toNat], ?_, ?_⟩
  · rw [← hstands.locals_eq, Array.getElem?_eq_getElem hlt]
  · simp only [Activation.getLocal, hbase, if_false, Array.getElem?_eq_getElem hlt]

/-- A local of the scope can be set. -/
theorem Stands.setLocal_eq {i : UInt32} {type : ValueType}
    (hstands : Stands m inst 0 frame f c height last count below)
    (hlocal : c.scope.localType i = some type) (ip : Nat) (operands : List UInt64) (v : UInt64) :
    i.toNat < frame.locals.size ∧ { f with ip, operands }.setLocal i v =
      .ok { f with ip, operands, locals := frame.locals.setIfInBounds i.toNat v } := by
  have hlt : i.toNat < f.locals.size := by
    rw [hstands.size_eq]
    exact hstands.links.localType hlocal
  have hbase : ¬ f.base + (i.toNat : Int) < 0 := by
    have hnonneg := hstands.base_nonneg
    omega
  rw [hstands.locals_eq] at hlt
  refine ⟨hlt, ?_⟩
  simp only [Activation.setLocal, hbase, if_false, hstands.locals_eq, hlt, if_true]

/-- An operand is added and the code goes on. -/
theorem Meets.follows_constant {i : Instr} {next : Code} {type : IntType} {rest : Nat} {v : UInt64}
    {store₁ : Store H σ} (hmeets : Meets frame f c height last count i next [] [type] rest)
    (hstands : Stands m inst 0 frame f c height last count below)
    (hframe : frame.next inst store =
      some (.go { frame with code := next, operands := v :: frame.operands }, store₁)) :
    Follows m inst frame f store
      (Exec.lift ({ f with ip := f.ip + 1 }.constant v) store₁) := by
  have hroom := hmeets.room hstands
  have hlength := hmeets.length_eq
  simp only [List.length_cons, List.length_nil] at hroom hlength
  have hconstant : { f with ip := f.ip + 1 }.constant v =
      .ok (.go { f with ip := f.ip + 1, operands := v :: frame.operands ++ below }) := by
    rw [List.cons_append, ← hstands.operands_eq]
    refine Activation.constant_eq ?_
    simp only [hstands.operands_eq, List.length_append]
    omega
  rw [hconstant]
  refine hstands.follows_go hmeets.placed _ ?_ f.locals hstands.size_eq ?_ rfl
  · simp only [List.length_cons, List.length_nil]
    omega
  · rw [hframe, hstands.locals_eq]

/-- The topmost operand is replaced and the code goes on. -/
theorem Meets.follows_replace {i : Instr} {next : Code} {ins : List IntType} {type type' : IntType}
    {rest : Nat} {v : UInt64} {operands : List UInt64} {store₁ store' : Store H σ}
    {counters : Counters}
    (hmeets : Meets frame f c height last count i next (type :: ins) [type'] rest)
    (hstands : Stands m inst 0 frame f c height last count below) (hlength : operands.length = rest)
    (hstore : store' = { store₁ with counters })
    (hframe : frame.next inst store =
      some (.go { frame with code := next, operands := v :: operands }, store₁)) :
    Follows m inst frame f store
      (Exec.lift ({ f with ip := f.ip + 1, operands := operands ++ below }.constant v) store') := by
  have hroom := hmeets.room hstands
  simp only [List.length_cons, List.length_nil] at hroom
  have hspace : (operands ++ below).length < f.room := by
    rw [List.length_append]
    omega
  have hconstant : { f with ip := f.ip + 1, operands := operands ++ below }.constant v =
      .ok (.go { f with ip := f.ip + 1, operands := v :: operands ++ below }) :=
    Activation.constant_eq hspace
  rw [hconstant]
  refine hstands.follows_go hmeets.placed _ ?_ f.locals hstands.size_eq ?_ hstore
  · simp only [List.length_cons, List.length_nil]
    omega
  · rw [hframe, hstands.locals_eq]

/-- `local.get` does the same in both. -/
theorem Meets.follows_localGet {i : UInt32} {next : Code} {ins outs : List IntType} {rest : Nat}
    (hmeets : Meets frame f c height last count (.localGet i) next ins outs rest)
    (hstands : Stands m inst 0 frame f c height last count below) :
    Follows m inst frame f store
      (Activation.step inst { f with ip := f.ip + 1 } (Instr.localGet i).flat store) := by
  cases hmeets.type with
  | localGet hlocal =>
    obtain ⟨v, hv, hget⟩ := hstands.getLocal_eq hlocal (f.ip + 1)
    rw [step_local rfl]
    simp only [Instr.op, Activation.stepLocal_localGet,
      Instr.index_flat (i := .localGet i) (n := i) rfl]
    rw [hget]
    refine hmeets.follows_constant hstands ?_
    rw [hmeets.next_eq, Instr.next, hv]
    rfl

/-- `local.set` does the same in both. -/
theorem Meets.follows_localSet {i : UInt32} {next : Code} {ins outs : List IntType} {rest : Nat}
    (hmeets : Meets frame f c height last count (.localSet i) next ins outs rest)
    (hstands : Stands m inst 0 frame f c height last count below) :
    Follows m inst frame f store
      (Activation.step inst { f with ip := f.ip + 1 } (Instr.localSet i).flat store) := by
  cases hmeets.type with
  | localSet hlocal =>
    obtain ⟨v, operands, hoperands, hlength, hmachine⟩ := hmeets.exists_operand hstands
    obtain ⟨hlt, hset⟩ := hstands.setLocal_eq hlocal (f.ip + 1) (operands ++ below) v
    rw [step_local rfl]
    simp only [Instr.op, Activation.stepLocal_localSet, Activation.pop, hmachine,
      Instr.index_flat (i := .localSet i) (n := i) rfl]
    simp only [bind, Except.bind, hset]
    refine hstands.follows_go hmeets.placed _ hlength _ ?_ ?_ rfl
    · rw [Array.size_setIfInBounds, ← hstands.locals_eq, hstands.size_eq]
    · rw [hmeets.next_eq, Instr.next]
      simp only [hoperands, hlt, if_true]

/-- `local.tee` does the same in both. -/
theorem Meets.follows_localTee {i : UInt32} {next : Code} {ins outs : List IntType} {rest : Nat}
    (hmeets : Meets frame f c height last count (.localTee i) next ins outs rest)
    (hstands : Stands m inst 0 frame f c height last count below) :
    Follows m inst frame f store
      (Activation.step inst { f with ip := f.ip + 1 } (Instr.localTee i).flat store) := by
  cases hmeets.type with
  | localTee hlocal =>
    obtain ⟨v, operands, hoperands, hlength, hmachine⟩ := hmeets.exists_operand hstands
    obtain ⟨hlt, hset⟩ := hstands.setLocal_eq hlocal (f.ip + 1) (v :: (operands ++ below)) v
    rw [step_local rfl]
    simp only [Instr.op, Activation.stepLocal_localTee, Activation.pop, hmachine,
      Instr.index_flat (i := .localTee i) (n := i) rfl]
    simp only [bind, Except.bind, hset]
    refine hstands.follows_go hmeets.placed (v :: operands) ?_ _ ?_ ?_ rfl
    · rw [← hoperands, hmeets.length_eq]
    · rw [Array.size_setIfInBounds, ← hstands.locals_eq, hstands.size_eq]
    · rw [hmeets.next_eq, Instr.next]
      simp only [hoperands, hlt, if_true]

/-! ## Globals and memories -/

/-- A store without a global that the code uses. -/
theorem Stands.exists_global {i : UInt32} {type : GlobalType}
    (hstands : Stands m inst 0 frame f c height last count below)
    (hsupports : Supports m inst store) (hglobal : c.scope.globalType i = some type) : ∃ address g,
      inst.globals[i.toNat]? = some address ∧ store.globals[address]? = some g ∧ g.type = type := by
  obtain ⟨locals, hscope⟩ := hstands.scope_eq
  rw [hscope] at hglobal
  exact hsupports.global hglobal

/-- The instance has a memory if the scope says so. -/
theorem Stands.exists_memory (hstands : Stands m inst 0 frame f c height last count below)
    (hsupports : Supports m inst store) (hmemory : c.scope.hasMemory = true) :
    ∃ address memory, inst.memory = some address ∧ store.memories[address]? = some memory := by
  obtain ⟨locals, hscope⟩ := hstands.scope_eq
  rw [hscope] at hmemory
  exact hsupports.memory hmemory

/-- The store lacks something if the code uses a global that cannot be found. -/
theorem Stands.lacks_global {i : UInt32} {type : GlobalType}
    (hstands : Stands m inst 0 frame f c height last count below)
    (hglobal : c.scope.globalType i = some type)
    (hnone : ((inst.globals[i.toNat]?).bind fun address => store.globals[address]?) = none) :
    ¬ Supports m inst store := by
  intro hsupports
  obtain ⟨address, g, haddress, hg, -⟩ := hstands.exists_global hsupports hglobal
  simp [haddress, hg] at hnone

/-- The store lacks something if the code uses a memory and there is none. -/
theorem Stands.lacks_memory (hstands : Stands m inst 0 frame f c height last count below)
    (hmemory : c.scope.hasMemory = true)
    (hnone : (inst.memory.bind fun address => store.memories[address]?) = none) :
    ¬ Supports m inst store := by
  intro hsupports
  obtain ⟨address, memory, haddress, hfound⟩ := hstands.exists_memory hsupports hmemory
  simp [haddress, hfound] at hnone

/-- `global.get` reads the same global. -/
theorem Meets.follows_globalGet {i : UInt32} {next : Code} {ins outs : List IntType} {rest : Nat}
    (hmeets : Meets frame f c height last count (.globalGet i) next ins outs rest)
    (hstands : Stands m inst 0 frame f c height last count below) :
    Follows m inst frame f store
      (Activation.step inst { f with ip := f.ip + 1 } (Instr.globalGet i).flat store) := by
  cases hmeets.type with
  | globalGet hglobal =>
    rw [Activation.step_of_op (Instr.op?_flat _)]
    simp only [Instr.op, Instr.index_flat (i := .globalGet i) (n := i) rfl, bind, EStateM.bind,
      Exec.getGlobal]
    cases hfound : (inst.globals[i.toNat]?).bind fun address => store.globals[address]? with
    | none => exact hstands.lacks_global hglobal hfound
    | some g =>
      refine hmeets.follows_constant hstands ?_
      rw [hmeets.next_eq, Instr.next]
      obtain ⟨address, haddress, hg⟩ := Option.bind_eq_some_iff.mp hfound
      simp only [haddress, hg, bind, Option.bind]
      rfl

/-- `global.set` writes the same global, or refuses to. -/
theorem Meets.follows_globalSet {i : UInt32} {next : Code} {ins outs : List IntType} {rest : Nat}
    (hmeets : Meets frame f c height last count (.globalSet i) next ins outs rest)
    (hstands : Stands m inst 0 frame f c height last count below) :
    Follows m inst frame f store
      (Activation.step inst { f with ip := f.ip + 1 } (Instr.globalSet i).flat store) := by
  cases hmeets.type with
  | globalSet hglobal =>
    obtain ⟨v, operands, hoperands, hlength, hmachine⟩ := hmeets.exists_operand hstands
    rw [Activation.step_of_op (Instr.op?_flat _)]
    simp only [Instr.op, Instr.index_flat (i := .globalSet i) (n := i) rfl, bind, EStateM.bind,
      Activation.pop, hmachine, Exec.lift, Exec.setGlobal]
    have hnext := hmeets.next_eq inst store
    simp only [Instr.next, hoperands] at hnext
    cases haddress : inst.globals[i.toNat]? with
    | none => exact hstands.lacks_global hglobal (by rw [haddress, Option.bind_none])
    | some address =>
      simp only
      cases hg : store.globals[address]? with
      | none => exact hstands.lacks_global hglobal (by rw [haddress, Option.bind_some, hg])
      | some g =>
        simp only [haddress, hg, bind, Option.bind] at hnext ⊢
        by_cases hmutable : g.type.mutable = true
        · simp only [Global.set?, hmutable, if_true, Value.word, UInt64.toUInt64_toUInt32, guard,
            pure, EStateM.pure] at hnext ⊢
          rw [← hstands.locals_eq] at hnext
          exact hstands.follows_go hmeets.placed _ hlength f.locals hstands.size_eq hnext rfl
        · simp only [Global.set?, hmutable]
          intro hsupports
          obtain ⟨found, g', hfound, hstore, htype⟩ := hstands.exists_global hsupports hglobal
          simp only [haddress, Option.some.injEq] at hfound
          rw [← hfound, hg, Option.some.injEq] at hstore
          exact hmutable (by rw [hstore, htype])

/-- A load reads the same bytes, or traps in both. -/
theorem Meets.follows_load {access : LoadForm} {align offset : UInt32} {next : Code}
    {ins outs : List IntType} {rest : Nat}
    (hmeets : Meets frame f c height last count (.load access align offset) next ins outs rest)
    (hstands : Stands m inst 0 frame f c height last count below) :
    Follows m inst frame f store
      (Activation.step inst { f with ip := f.ip + 1 }
        (Instr.load access align offset).flat store) := by
  cases hmeets.type with
  | load hmemory halign =>
    obtain ⟨base, operands, hoperands, hlength, hmachine⟩ := hmeets.exists_operand hstands
    rw [List.length_nil, Nat.zero_add] at hlength
    rw [Activation.step_of_op (Instr.op?_flat _)]
    simp only [Instr.op, Instr.index_flat_load, bind, EStateM.bind, Activation.pop, hmachine,
      Exec.lift, Exec.load, Exec.memory]
    have hnext := hmeets.next_eq inst store
    simp only [Instr.next, hoperands] at hnext
    cases haddress : inst.memory with
    | none => exact hstands.lacks_memory hmemory (by rw [haddress, Option.bind_none])
    | some address =>
      simp only [pure, EStateM.pure]
      cases hstore : store.memories[address]? with
      | none => exact hstands.lacks_memory hmemory (by rw [haddress, Option.bind_some, hstore])
      | some memory =>
        simp only [haddress, hstore, bind, Option.bind] at hnext ⊢
        cases hload : memory.load base.toUInt32 offset access.width with
        | error t =>
          simp only [hload] at hnext ⊢
          exact ⟨rfl, .inl hnext⟩
        | ok w =>
          simp only [hload] at hnext ⊢
          exact hmeets.follows_replace hstands hlength rfl hnext

/-- A store writes the same bytes, or traps in both. -/
theorem Meets.follows_store {access : StoreForm} {align offset : UInt32} {next : Code}
    {ins outs : List IntType} {rest : Nat}
    (hmeets : Meets frame f c height last count (.store access align offset) next ins outs rest)
    (hstands : Stands m inst 0 frame f c height last count below) :
    Follows m inst frame f store
      (Activation.step inst { f with ip := f.ip + 1 } (Instr.store access align offset).flat
        store) := by
  cases hmeets.type with
  | store hmemory halign =>
    obtain ⟨w, operands, hoperands, hlength, hmachine⟩ := hmeets.exists_operand hstands
    obtain ⟨base, operands, rfl⟩ :=
      List.exists_cons_of_length_eq_add_one (hlength.trans (Nat.add_comm _ _))
    simp only [List.length_cons, List.length_nil] at hlength
    rw [List.cons_append] at hmachine
    rw [Activation.step_of_op (Instr.op?_flat _)]
    simp only [Instr.op, Instr.index_flat_store, bind, EStateM.bind, Activation.pop2, hmachine,
      Exec.lift, Exec.store, Exec.memory]
    have hnext := hmeets.next_eq inst store
    simp only [Instr.next, hoperands] at hnext
    -- The instance supports the module, so it has a memory, and the store has it, too.
    cases haddress : inst.memory with
    | none => exact hstands.lacks_memory hmemory (by rw [haddress, Option.bind_none])
    | some address =>
      simp only [pure, EStateM.pure]
      cases hstore : store.memories[address]? with
      | none => exact hstands.lacks_memory hmemory (by rw [haddress, Option.bind_some, hstore])
      | some memory =>
        simp only [haddress, hstore, bind, Option.bind] at hnext ⊢
        cases hstart : memory.address base.toUInt32 offset access.width with
        | error t =>
          simp only [hstart] at hnext ⊢
          exact ⟨rfl, .inl hnext⟩
        | ok start =>
          simp only [hstart] at hnext ⊢
          rw [← hstands.locals_eq] at hnext
          exact hstands.follows_go hmeets.placed operands (by rw [List.length_nil]; omega) f.locals
            hstands.size_eq hnext rfl

/-- `memory.size` gives the same number. -/
theorem Meets.follows_memorySize {next : Code} {ins outs : List IntType} {rest : Nat}
    (hmeets : Meets frame f c height last count .memorySize next ins outs rest)
    (hstands : Stands m inst 0 frame f c height last count below) :
    Follows m inst frame f store
      (Activation.step inst { f with ip := f.ip + 1 } Instr.memorySize.flat store) := by
  cases hmeets.type with
  | memorySize hmemory =>
    rw [Activation.step_of_op (Instr.op?_flat _)]
    simp only [Instr.op, bind, EStateM.bind, Exec.memorySize, Exec.memory]
    have hnext := hmeets.next_eq inst store
    simp only [Instr.next] at hnext
    cases haddress : inst.memory with
    | none => exact hstands.lacks_memory hmemory (by rw [haddress, Option.bind_none])
    | some address =>
      simp only [pure, EStateM.pure]
      cases hstore : store.memories[address]? with
      | none => exact hstands.lacks_memory hmemory (by rw [haddress, Option.bind_some, hstore])
      | some memory =>
        simp only [haddress, hstore, bind, Option.bind] at hnext ⊢
        exact hmeets.follows_constant hstands hnext

/-- `memory.grow` grows the same memory. -/
theorem Meets.follows_memoryGrow {next : Code} {ins outs : List IntType} {rest : Nat}
    (hmeets : Meets frame f c height last count .memoryGrow next ins outs rest)
    (hstands : Stands m inst 0 frame f c height last count below) :
    Follows m inst frame f store
      (Activation.step inst { f with ip := f.ip + 1 } Instr.memoryGrow.flat store) := by
  cases hmeets.type with
  | memoryGrow hmemory =>
    obtain ⟨pages, operands, hoperands, hlength, hmachine⟩ := hmeets.exists_operand hstands
    rw [List.length_nil, Nat.zero_add] at hlength
    rw [Activation.step_of_op (Instr.op?_flat _)]
    simp only [Instr.op, bind, EStateM.bind, Activation.pop, hmachine, Exec.lift, Exec.memoryGrow,
      Exec.memory]
    have hnext := hmeets.next_eq inst store
    simp only [Instr.next, hoperands] at hnext
    cases haddress : inst.memory with
    | none => exact hstands.lacks_memory hmemory (by rw [haddress, Option.bind_none])
    | some address =>
      simp only [pure, EStateM.pure]
      simp only [haddress, bind, Option.bind] at hnext
      cases hgrow : Store.growMemory address pages.toUInt32 store with
      | ok before grown =>
        simp only [hgrow] at hnext ⊢
        obtain ⟨counters, hcounters⟩ := grown.count_eq inst.config (Counters.growth true)
        exact hmeets.follows_replace hstands hlength hcounters hnext
      | error e grown =>
        simp only [hgrow] at hnext ⊢
        obtain ⟨counters, hcounters⟩ := grown.count_eq inst.config (Counters.growth false)
        exact hmeets.follows_replace hstands hlength hcounters hnext

/-! ## Branches -/

/-- The results of a function are on top of its operands. -/
theorem Stands.results_eq' (hstands : Stands m inst 0 frame f c height last count below)
    {operands : List UInt64} (hlength : c.result.toList.length ≤ operands.length) (ip : Nat) :
    { f with ip, operands := operands ++ below }.results = .ok (operands.take frame.arity) := by
  have hbase := hstands.base_nonneg
  have hresults := hstands.results_eq
  have hcount : ¬ (operands ++ below).length < f.function.type.results.length := by
    rw [List.length_append]
    omega
  simp only [Activation.results, hcount, if_false, if_neg (Int.not_lt.mpr hbase)]
  rw [List.take_append_of_le_length (by omega), hresults, hstands.arity_eq]

/-- Both leave with the topmost operands, as many as the function has results. -/
theorem Stands.answers_leave (hstands : Stands m inst 0 frame f c height last count below)
    {operands : List UInt64} (hlength : c.result.toList.length ≤ operands.length) :
    Answers m inst f (.leave (operands.take frame.arity)) (.leave (operands.take frame.arity)) := by
  refine .leave ?_
  rw [List.length_take, hstands.arity_eq, hstands.results_eq]
  omega

/-- A branch that carries operands leaves the same blocks on both sides. -/
theorem Stands.branch_eq (hstands : Stands m inst 0 frame f c height last count below) {n : Nat}
    {type : BlockType} (hlabel : c.labels[n]? = some type) {operands : List UInt64}
    (hlength : type.toList.length ≤ operands.length) (ip : Nat) (code : Code) :
    ∃ deed next, { frame with code, operands }.jump n = some deed ∧
      { f with ip, operands := operands ++ below }.branch (n : Nat) = .ok next ∧
      Answers m inst f deed next := by
  have hblocks := hstands.within.length_blocks
  have hnonneg : ¬ (n : Int) < 0 := by omega
  -- The outermost label leaves the function; any other is found at the same depth in the labels and
  -- in the blocks.
  rcases hstands.within.branch hlabel with ⟨rfl, rfl⟩ | hfound
  · refine ⟨_, _, ?_, ?_, hstands.answers_leave hlength⟩
    · simp [Frame.jump]
    · simp only [Activation.branch, hnonneg, if_false, Int.toNat_natCast, hblocks, if_true,
        hstands.results_eq' hlength]
      rfl
  · obtain ⟨l, b, front, c', height', last', count', below', hl, hb, rfl, hheight, harity, hsame,
      hscope, hresult, hwithin, htarget⟩ := hfound
    have hlt : n < frame.blocks.length := (List.getElem?_eq_some_iff.mp hb).1
    have hdepth : ¬ n + 1 = f.labels.length := by omega
    have henough : ¬ (operands ++ (front ++ (b.below ++ below'))).length < l.height + l.arity := by
      simp only [List.length_append] at *
      omega
    have hrep : Represents m inst 0
        { frame with
          operands := operands.take b.arity ++ b.below
          code := b.target
          blocks := frame.blocks.drop (n + 1) }
        { f with
          ip := l.target
          operands := operands.take b.arity ++ b.below ++ below'
          labels := f.labels.drop (n + 1) } := by
      refine ⟨c', height', last', count', below', ?_⟩
      exact
        { hstands with
          scope_eq := by rw [hscope]; exact hstands.scope_eq
          links := by rw [hscope]; exact hstands.links
          results_eq := by rw [hresult]; exact hstands.results_eq
          arity_eq := by rw [hresult]; exact hstands.arity_eq
          within := hwithin
          placed := by
            have hcarried : min b.arity operands.length = l.arity := by omega
            simpa [hcarried] using htarget
          operands_eq := rfl }
    refine ⟨_, _, ?_, ?_, .go ?_ hrep⟩
    · simp only [Frame.jump, hb]
    · simp only [Activation.branch, hnonneg, if_false, Int.toNat_natCast, hdepth, hl, henough]
      have hkept : (operands ++ (front ++ (b.below ++ below'))).drop
          ((operands ++ (front ++ (b.below ++ below'))).length - l.height) = b.below ++ below' := by
        rw [hheight, ← List.append_assoc operands, List.length_append, Nat.add_sub_cancel]
        exact List.drop_left
      have htaken : (operands ++ (front ++ (b.below ++ below'))).take l.arity =
          operands.take b.arity := by
        rw [List.take_append_of_le_length (by omega), hsame]
      rw [hkept, htaken, List.append_assoc]
      rfl
    · exact ⟨rfl, rfl, rfl, rfl, rfl⟩

/-- An activation with its operands split at the entry of the innermost block. -/
theorem Stands.moved_eq (hstands : Stands m inst 0 frame f c height last count below) (ip : Nat) :
    { f with ip } = { f with ip, operands := frame.operands ++ below } := by
  rw [← hstands.operands_eq]

/-- `br` leads both to the same place. -/
theorem Stands.follows_br {n : UInt32} {next : Code} {type : BlockType}
    (hstands : Stands m inst 0 frame f c height last count below)
    (hcode : frame.code = .instr (.br n) next) (hlabel : c.labels[n.toNat]? = some type)
    (hlength : type.toList.length ≤ frame.operands.length) :
    Follows m inst frame f store
      (Activation.step inst { f with ip := f.ip + 1 } (Instr.br n).flat store) := by
  obtain ⟨deed, next', hjump, hbranch, hanswers⟩ :=
    hstands.branch_eq hlabel hlength (f.ip + 1) next
  rw [step_local rfl, hstands.moved_eq]
  simp only [Instr.op, Activation.stepLocal_br, Instr.index_flat (i := .br n) (n := n) rfl, hbranch]
  refine ⟨deed, store, store.counters, ?_, rfl, hanswers⟩
  simp only [Frame.next, hcode, Instr.next, hjump]
  rfl

/-- `br_if` branches in both or goes on in both. -/
theorem Stands.follows_brIf {n : UInt32} {next : Code} {type : BlockType} {rest : Nat}
    (hstands : Stands m inst 0 frame f c height last count below)
    (hmeets : Meets frame f c height last count (.brIf n) next (.i32 :: type.toList)
      type.toList rest)
    (hlabel : c.labels[n.toNat]? = some type) :
    Follows m inst frame f store
      (Activation.step inst { f with ip := f.ip + 1 } (Instr.brIf n).flat store) := by
  obtain ⟨condition, operands, hoperands, hlength, hmachine⟩ := hmeets.exists_operand hstands
  have hnext := hmeets.next_eq inst store
  simp only [Instr.next, hoperands] at hnext
  rw [step_local rfl]
  simp only [Instr.op, Activation.stepLocal_brIf, Activation.pop, hmachine,
    Instr.index_flat (i := .brIf n) (n := n) rfl, bind, Except.bind]
  by_cases hcondition : condition.toUInt32 ≠ 0
  · obtain ⟨deed, next', hjump, hbranch, hanswers⟩ :=
      hstands.branch_eq hlabel (by omega : type.toList.length ≤ operands.length) (f.ip + 1) next
    simp only [hcondition, if_true, ne_eq, not_false_eq_true, hbranch, hjump] at hnext ⊢
    exact ⟨deed, store, store.counters, hnext, rfl, hanswers⟩
  · simp only [hcondition, if_false] at hnext ⊢
    rw [← hstands.locals_eq] at hnext
    exact hstands.follows_go hmeets.placed _ hlength f.locals hstands.size_eq hnext rfl

/-- `br_table` leads both to the same place, whatever the operand. -/
theorem Stands.follows_brTable {labels : List UInt32} {default : UInt32} {next : Code}
    {type : BlockType} {rest : Nat} (hstands : Stands m inst 0 frame f c height last count below)
    (hcode : frame.code = .instr (.brTable labels default) next)
    (hdefault : c.labels[default.toNat]? = some type)
    (hlabels : ∀ label ∈ labels, c.labels[label.toNat]? = some type)
    (hlength : frame.operands.length = (IntType.i32 :: type.toList).length + rest) :
    Follows m inst frame f store
      (Activation.step inst { f with ip := f.ip + 1 }
        (Instr.brTable labels default).flat store) := by
  rw [List.length_cons, Nat.add_right_comm] at hlength
  obtain ⟨index, operands, hoperands⟩ := List.exists_cons_of_length_eq_add_one hlength
  rw [hoperands, List.length_cons] at hlength
  have hmachine : f.operands = index :: (operands ++ below) := by
    rw [hstands.operands_eq, hoperands, List.cons_append]
  have hchosen : c.labels[((labels[index.toUInt32.toNat]?).getD default).toNat]? = some type := by
    cases hfound : labels[index.toUInt32.toNat]? with
    | none => exact hdefault
    | some label => exact hlabels label (List.mem_of_getElem? hfound)
  obtain ⟨deed, next', hjump, hbranch, hanswers⟩ :=
    hstands.branch_eq hchosen (by omega : type.toList.length ≤ operands.length) (f.ip + 1) next
  have hcases : (Instr.brTable labels default).flat.labels[index.toUInt32.toNat]? =
      (labels[index.toUInt32.toNat]?).map fun label => (label.toNat : Int) := by
    simp [Instr.flat, Instr.labels]
  have hstep : { f with ip := f.ip + 1 }.stepLocal .brTable (Instr.brTable labels default).flat =
      .ok next' := by
    simp only [Activation.stepLocal_brTable, Activation.pop, hmachine, hcases,
      Instr.index_flat (i := .brTable labels default) (n := default) rfl, bind, Except.bind]
    cases hfound : labels[index.toUInt32.toNat]? with
    | none =>
      rw [hfound] at hbranch
      exact hbranch
    | some label =>
      rw [hfound] at hbranch
      exact hbranch
  rw [step_local rfl, Instr.op]
  rw [hstep]
  refine ⟨deed, store, store.counters, ?_, rfl, hanswers⟩
  simp only [Frame.next, hcode, Instr.next, hoperands, hjump]
  rfl

/-- `return` leaves both with the same results. -/
theorem Stands.follows_ret {next : Code}
    (hstands : Stands m inst 0 frame f c height last count below)
    (hcode : frame.code = .instr .ret next)
    (hlength : c.result.toList.length ≤ frame.operands.length) :
    Follows m inst frame f store
      (Activation.step inst { f with ip := f.ip + 1 } Instr.ret.flat store) := by
  rw [step_local rfl, hstands.moved_eq]
  simp only [Instr.op, Activation.stepLocal_ret, hstands.results_eq' hlength]
  refine ⟨_, store, store.counters, ?_, rfl, hstands.answers_leave hlength⟩
  simp only [Frame.next, hcode, Instr.next]

/-- The instructions after which code does not go on. -/
theorem Stands.follows_jump {i : Instr} {next : Code} {ins : List IntType} {rest : Nat}
    (hstands : Stands m inst 0 frame f c height last count below)
    (hcode : frame.code = .instr i next) (hjumps : i.Jumps c ins)
    (hlength : frame.operands.length = ins.length + rest) :
    Follows m inst frame f store
      (Activation.step inst { f with ip := f.ip + 1 } i.flat store) := by
  cases hjumps with
  | unreachable =>
    rw [step_local rfl]
    refine ⟨rfl, .inl ?_⟩
    simp only [Frame.next, hcode, Instr.next]
  | br hlabel => exact hstands.follows_br hcode hlabel (by omega)
  | brTable hdefault hlabels => exact hstands.follows_brTable hcode hdefault hlabels hlength
  | ret => exact hstands.follows_ret hcode (by omega)

/-! ## Calls -/

/-- A function is called with the topmost operands, and the caller goes on with its results. -/
theorem Stands.call_eq {function : UInt32} {type : FuncType} {next : Code} {operands : List UInt64}
    {rest : Nat} (hstands : Stands m inst 0 frame f c height last count below)
    (hsignature : inst.signature? function = some type)
    (hlength : operands.length = type.params.length + rest)
    (hle : operands.length ≤ frame.operands.length)
    (hplaced : next.Placed f.function.body c height last count (f.ip + 1)
      (type.results.length + rest)) :
    ∃ deed, { frame with code := next, operands }.call inst function = some deed ∧
      Answers m inst f deed
        (.call { f with ip := f.ip + 1, operands := operands ++ below } function) := by
  have henough : ¬ operands.length < type.params.length := by omega
  have hargs : (operands.take type.params.length).reverse.length = type.params.length := by
    rw [List.length_reverse, List.length_take]
    omega
  have hsplit : operands ++ below = (operands.take type.params.length).reverse.reverse ++
      (operands.drop type.params.length ++ below) := by
    rw [List.reverse_reverse, ← List.append_assoc, List.take_append_drop]
  have hrep : Represents m inst type.results.length
      { frame with code := next, operands := operands.drop type.params.length }
      { f with
        ip := f.ip + 1
        operands := operands.drop type.params.length ++ below } := by
    refine ⟨c, height, last, count, below, { hstands with placed := ?_, operands_eq := rfl }⟩
    simpa [hlength] using hplaced
  refine ⟨.call { frame with code := next, operands := operands.drop type.params.length } function
    (operands.take type.params.length).reverse, ?_, .call hsignature hargs ?_ ?_ hsplit hrep⟩
  · simp only [Frame.call, hsignature, bind, Option.bind, henough, if_false]
  · exact ⟨rfl, rfl, rfl, rfl, rfl⟩
  · simp only [hstands.operands_eq, List.length_append]
    omega

/-- `call` calls the same function with the same arguments. -/
theorem Meets.follows_call {function : UInt32} {next : Code} {ins outs : List IntType} {rest : Nat}
    (hmeets : Meets frame f c height last count (.call function) next ins outs rest)
    (hstands : Stands m inst 0 frame f c height last count below) :
    Follows m inst frame f store
      (Activation.step inst { f with ip := f.ip + 1 } (Instr.call function).flat store) := by
  cases hmeets.type with
  | call hfunction =>
    have hsignature := hstands.links.functionType hfunction
    obtain ⟨deed, hdeed, hanswers⟩ := hstands.call_eq hsignature
      (by simpa [FuncType.ofInts] using hmeets.length_eq) le_rfl
      (by simpa [FuncType.ofInts] using hmeets.placed)
    rw [Activation.step_of_op (Instr.op?_flat _), hstands.moved_eq]
    simp only [Instr.op, Instr.index_flat (i := .call function) (n := function) rfl]
    refine ⟨deed, store, store.counters, ?_, rfl, hanswers⟩
    simp only [hmeets.next_eq, Instr.next, hdeed]
    rfl

/-- `call_indirect` finds the same function in the table, or traps in both. -/
theorem Meets.follows_callIndirect {type : UInt32} {next : Code} {ins outs : List IntType}
    {rest : Nat}
    (hmeets : Meets frame f c height last count (.callIndirect type) next ins outs rest)
    (hstands : Stands m inst 0 frame f c height last count below) :
    Follows m inst frame f store
      (Activation.step inst { f with ip := f.ip + 1 } (Instr.callIndirect type).flat store) := by
  cases hmeets.type with
  | @callIndirect _ params results htable htype =>
    obtain ⟨slot, operands, hoperands, hlength, hmachine⟩ := hmeets.exists_operand hstands
    have hexpected := hstands.links.type htype
    have hnext := hmeets.next_eq inst store
    simp only [Instr.next, hoperands, indirect] at hnext
    rw [Activation.step_of_op (Instr.op?_flat _)]
    simp only [Instr.op, Instr.index_flat (i := .callIndirect type) (n := type) rfl, bind,
      EStateM.bind, Activation.pop, hmachine, Exec.lift, Exec.indirect]
    -- Validation has seen that there is a table; that the instance has it, with functions that have
    -- signatures, is what `Supports` adds.
    have hsupported (hsupports : Supports m inst store) : ∃ table, inst.table = some table ∧
        ∀ slot function, table.lookup slot = .ok function → (inst.signature? function).isSome := by
      obtain ⟨locals, hscope⟩ := hstands.scope_eq
      rw [hscope] at htable
      exact hsupports.table htable
    cases htable' : inst.table with
    | none =>
      intro hsupports
      obtain ⟨table, hfound, -⟩ := hsupported hsupports
      simp [htable'] at hfound
    | some table =>
      simp only [htable', bind, Option.bind] at hnext ⊢
      cases hlookup : table.lookup slot.toUInt32 with
      | error t =>
        simp only [hlookup] at hnext ⊢
        exact ⟨rfl, .inl hnext⟩
      | ok function =>
        simp only [hlookup, hexpected] at hnext ⊢
        cases hactual : inst.signature? function with
        | none =>
          intro hsupports
          obtain ⟨found, hfound, hall⟩ := hsupported hsupports
          simp only [htable', Option.some.injEq] at hfound
          have hsome := hall slot.toUInt32 function (hfound ▸ hlookup)
          simp [hactual] at hsome
        | some actual =>
          simp only [hactual] at hnext ⊢
          by_cases hsame : actual = .ofInts params results
          · obtain ⟨deed, hdeed, hanswers⟩ := hstands.call_eq (hsame ▸ hactual)
              (by simpa [FuncType.ofInts] using hlength) (by rw [hoperands]; exact Nat.le_succ _)
              (by simpa [FuncType.ofInts] using hmeets.placed)
            simp only [hsame, if_true, hdeed] at hnext ⊢
            exact ⟨deed, store, store.counters, hnext, rfl, hanswers⟩
          · simp only [hsame, if_false] at hnext ⊢
            exact ⟨rfl, .inl hnext⟩

/-- The instructions after which code goes on. -/
theorem Meets.follows {i : Instr} {next : Code} {ins outs : List IntType} {rest : Nat}
    (hmeets : Meets frame f c height last count i next ins outs rest)
    (hstands : Stands m inst 0 frame f c height last count below) (hgoes : i.goesOn = true) :
    Follows m inst frame f store
      (Activation.step inst { f with ip := f.ip + 1 } i.flat store) := by
  by_cases hnumeric : i.isNumeric = true
  · exact hmeets.follows_numeric hstands hnumeric
  cases i with
  | brIf n =>
    cases hmeets.type with
    | brIf hlabel => exact hstands.follows_brIf hmeets hlabel
  | call function => exact hmeets.follows_call hstands
  | callIndirect type => exact hmeets.follows_callIndirect hstands
  | localGet i => exact hmeets.follows_localGet hstands
  | localSet i => exact hmeets.follows_localSet hstands
  | localTee i => exact hmeets.follows_localTee hstands
  | globalGet i => exact hmeets.follows_globalGet hstands
  | globalSet i => exact hmeets.follows_globalSet hstands
  | load access align offset => exact hmeets.follows_load hstands
  | store access align offset => exact hmeets.follows_store hstands
  | memorySize => exact hmeets.follows_memorySize hstands
  | memoryGrow => exact hmeets.follows_memoryGrow hstands
  | unreachable | br | brTable | ret => cases hgoes
  | nop | drop | select | const32 | const64 | eqz | compare | count | arith | wrap | extend
  | extendPart | extendWord => exact absurd rfl hnumeric

end

end Structured

end IntWasm
