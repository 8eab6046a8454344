import IntWasm.Proofs.Engine.Instances
import IntWasm.Proofs.Structured.Refinement

/-!
# The heights of operand stacks

The machine checks the height of its operands where a block ends, at branches and at returns. A body
that the checker has accepted has the right number of operands at all these places, and there is one
way only in which such a check fails: the label of a loop carries nothing, and a loop with a result
leaves more than that at its end. Main statement: `Instance.Visits.heights`.
-/

namespace IntWasm

/-! ## The traps of code -/

/-- The traps that instructions raise. -/
def Trap.ofCode : List Trap :=
  [.undefinedElement, .uninitializedElement, .indirectTypeMismatch, .memoryOutOfBounds,
    .integerOverflow, .divideByZero, .unreachable]

/-- A table refuses with a trap of the code. -/
theorem Table.lookup_error {t : Table} {slot : UInt32} {trap : Trap}
    (herror : t.lookup slot = .error trap) : trap ∈ Trap.ofCode := by
  unfold lookup at herror
  split at herror
  · obtain rfl := Except.error.inj herror
    simp [Trap.ofCode]
  · split at herror
    · obtain rfl := Except.error.inj herror
      simp [Trap.ofCode]
    · cases herror

/-- An access outside the memory is a trap of the code. -/
theorem Memory.address_error {m : Memory} {base offset : UInt32} {width : Nat} {trap : Trap}
    (herror : m.address base offset width = .error trap) : trap ∈ Trap.ofCode := by
  simp only [address] at herror
  split at herror
  · obtain rfl := Except.error.inj herror
    simp [Trap.ofCode]
  · cases herror

/-- So it is when loading. -/
theorem Memory.load_error {m : Memory} {base offset : UInt32} {width : Nat} {trap : Trap}
    (herror : m.load base offset width = .error trap) : trap ∈ Trap.ofCode := by
  unfold load at herror
  cases haddress : m.address base offset width with
  | ok start => simp [haddress] at herror
  | error t =>
    simp only [haddress, Except.error.injEq] at herror
    exact herror ▸ Memory.address_error haddress

/-- Division traps as the code does. -/
theorem Numeric.div_error {n : Nat} {sign : Sign} {a b : BitVec n} {trap : Trap}
    (herror : div sign a b = .error trap) : trap ∈ Trap.ofCode := by
  unfold div at herror
  split at herror
  · obtain rfl := Except.error.inj herror
    simp [Trap.ofCode]
  · cases sign with
    | unsigned => cases herror
    | signed =>
      simp only at herror
      split at herror
      · obtain rfl := Except.error.inj herror
        simp [Trap.ofCode]
      · cases herror

/-- The remainder traps as the code does. -/
theorem Numeric.rem_error {n : Nat} {sign : Sign} {a b : BitVec n} {trap : Trap}
    (herror : rem sign a b = .error trap) : trap ∈ Trap.ofCode := by
  unfold rem at herror
  split at herror
  · obtain rfl := Except.error.inj herror
    simp [Trap.ofCode]
  · cases sign with
    | unsigned => cases herror
    | signed =>
      simp only at herror
      split at herror <;> cases herror

/-- Arithmetic traps as the code does. -/
theorem Numeric.arithWord_error {type : IntType} {op : Arith} {a b : UInt64} {trap : Trap}
    (herror : arithWord type op a b = .error trap) : trap ∈ Trap.ofCode := by
  unfold arithWord at herror
  cases hword : arith op (ofWord type.bits a) (ofWord type.bits b) with
  | ok w => simp [hword, bind, Except.bind, pure, Except.pure] at herror
  | error t =>
    simp only [hword, bind, Except.bind, Except.error.injEq] at herror
    subst herror
    cases op with
    | div sign => exact div_error hword
    | rem sign => exact rem_error hword
    | shr sign => cases sign <;> cases hword
    | _ => cases hword

/-! ## Where heights matter -/

/-- The number of results of the block that ends at an index of a function. -/
def Function.resultsAt (fn : Function) (ip : Nat) : Nat :=
  match fn.body.opener ip with
  | some opener => opener.blockResults.length
  | none => fn.type.results.length

/-- The depths of the blocks that an instruction can branch to. -/
def Instruction.depths (i : Instruction) : List Int :=
  match i.op? with
  | some .br | some .brIf => [i.index.toNat]
  | some .brTable => i.labels ++ [(i.index.toNat : Int)]
  | _ => []

/-- The number of operands that decide on a branch, above those that it carries. -/
def Instruction.deciders (i : Instruction) : Nat :=
  match i.op? with
  | some .brIf | some .brTable => 1
  | _ => 0

namespace Structured

open Body

variable {H σ : Type}

/-- Computing on operands traps only as instructions do. -/
theorem Instr.compute_error {i : Instr} {operands : List UInt64} {t : Trap}
    (herror : i.compute operands = some (.error t)) : t ∈ Trap.ofCode := by
  unfold Instr.compute at herror
  split at herror
  case h_9 type operation b a rest =>
    cases hword : Numeric.arithWord type operation a b with
    | ok w => simp [hword, Except.map] at herror
    | error t' =>
      simp only [hword, Except.map, Option.some.injEq, Except.error.injEq] at herror
      exact herror ▸ Numeric.arithWord_error hword
  all_goals simp at herror

/-- A branch never traps. -/
theorem Frame.jump_ne_trap {f : Frame} {n : Nat} {t : Trap} : f.jump n ≠ some (.trap t) := by
  unfold Frame.jump
  split
  · simp
  · split <;> simp

/-- A call does not trap by itself. -/
theorem Frame.call_ne_trap {inst : Instance H} {f : Frame} {function : UInt32} {t : Trap} :
    f.call inst function ≠ some (.trap t) := by
  unfold Frame.call
  cases inst.signature? function with
  | none => simp
  | some type =>
    simp only [Option.bind_eq_bind, Option.bind_some]
    split <;> simp

/-- An indirect call traps as the code does. -/
theorem indirect_error {inst : Instance H} {slot type : UInt32} {t : Trap}
    (herror : indirect inst slot type = some (.error t)) : t ∈ Trap.ofCode := by
  simp only [indirect, Option.bind_eq_bind, Option.bind_eq_some_iff] at herror
  obtain ⟨table, -, herror⟩ := herror
  cases hlookup : table.lookup slot with
  | error t' =>
    simp only [hlookup, Option.some.injEq, Except.error.injEq] at herror
    exact herror ▸ Table.lookup_error hlookup
  | ok function =>
    simp only [hlookup, Option.bind_eq_some_iff] at herror
    obtain ⟨expected, -, actual, -, herror⟩ := herror
    split at herror
    · simp at herror
    · simp only [Option.some.injEq, Except.error.injEq] at herror
      simp [← herror, Trap.ofCode]

/-- Code traps only where an instruction does. -/
theorem Instr.next_trap {inst : Instance H} {store store' : Store H σ} {f : Frame} {i : Instr}
    {t : Trap} (hnext : i.next inst store f = some (.trap t, store')) : t ∈ Trap.ofCode := by
  -- Branches and calls only change the place: their deeds are never traps, so they are set aside
  -- first. What is left traps through a helper whose errors are known.
  have hjump {f : Frame} {n : Nat} :
      ¬ (do return (← f.jump n, store) : Option (Deed × Store H σ)) = some (.trap t, store') := by
    intro hsome
    simp only [Option.bind_eq_bind, Option.bind_eq_some_iff, Option.pure_def, Option.some.injEq,
      Prod.mk.injEq] at hsome
    obtain ⟨deed, hdeed, rfl, -⟩ := hsome
    exact Frame.jump_ne_trap hdeed
  have hcall {f : Frame} {function : UInt32} :
      ¬ (do return (← f.call inst function, store) : Option (Deed × Store H σ)) =
        some (.trap t, store') := by
    intro hsome
    simp only [Option.bind_eq_bind, Option.bind_eq_some_iff, Option.pure_def, Option.some.injEq,
      Prod.mk.injEq] at hsome
    obtain ⟨deed, hdeed, rfl, -⟩ := hsome
    exact Frame.call_ne_trap hdeed
  by_cases hnumeric : i.isNumeric = true
  · rw [Instr.next_numeric hnumeric] at hnext
    obtain ⟨result, hresult, hnext⟩ := Option.bind_eq_some_iff.mp hnext
    cases result with
    | ok operands => simp at hnext
    | error t' =>
      simp only [Option.some.injEq, Prod.mk.injEq, Deed.trap.injEq] at hnext
      exact hnext.1 ▸ Instr.compute_error hresult
  · cases i with
    | unreachable =>
      simp only [Instr.next, Option.some.injEq, Prod.mk.injEq, Deed.trap.injEq] at hnext
      simp [← hnext.1, Trap.ofCode]
    | br n => exact absurd hnext hjump
    | brIf n =>
      simp only [Instr.next] at hnext
      split at hnext
      · cases hnext
      · split at hnext
        · exact absurd hnext hjump
        · simp at hnext
    | brTable labels default =>
      simp only [Instr.next] at hnext
      split at hnext
      · cases hnext
      · exact absurd hnext hjump
    | ret => simp [Instr.next] at hnext
    | call function => exact absurd hnext hcall
    | callIndirect type =>
      simp only [Instr.next] at hnext
      split at hnext
      · cases hnext
      · obtain ⟨result, hresult, hnext⟩ := Option.bind_eq_some_iff.mp hnext
        cases result with
        | ok function => exact absurd hnext hcall
        | error t' =>
          simp only [Option.pure_def, Option.some.injEq, Prod.mk.injEq, Deed.trap.injEq] at hnext
          exact hnext.1 ▸ indirect_error hresult
    | load access align offset =>
      simp only [Instr.next] at hnext
      split at hnext
      · cases hnext
      · simp only [Option.bind_eq_bind, Option.bind_eq_some_iff] at hnext
        obtain ⟨address, -, memory, -, hnext⟩ := hnext
        split at hnext
        · simp at hnext
        · rename_i hload
          simp only [Option.pure_def, Option.some.injEq, Prod.mk.injEq, Deed.trap.injEq] at hnext
          exact hnext.1 ▸ Memory.load_error hload
    | store access align offset =>
      simp only [Instr.next] at hnext
      split at hnext
      · simp only [Option.bind_eq_bind, Option.bind_eq_some_iff] at hnext
        obtain ⟨address, -, memory, -, hnext⟩ := hnext
        split at hnext
        · simp at hnext
        · rename_i haddress
          simp only [Option.pure_def, Option.some.injEq, Prod.mk.injEq, Deed.trap.injEq] at hnext
          exact hnext.1 ▸ Memory.address_error haddress
      · cases hnext
    | localGet | globalGet | memorySize => simp [Instr.next, Option.bind_eq_some_iff] at hnext
    | localSet | localTee =>
      simp only [Instr.next] at hnext
      split at hnext
      · cases hnext
      · split at hnext <;> simp at hnext
    | globalSet =>
      simp only [Instr.next] at hnext
      split at hnext
      · cases hnext
      · simp [Option.bind_eq_some_iff] at hnext
    | memoryGrow =>
      simp only [Instr.next] at hnext
      split at hnext
      · cases hnext
      · simp only [Option.bind_eq_bind, Option.bind_eq_some_iff] at hnext
        obtain ⟨address, -, hnext⟩ := hnext
        split at hnext <;> simp at hnext
    | _ => exact absurd rfl hnumeric

/-- What a frame traps with is the trap of an instruction. -/
theorem Frame.next_trap {inst : Instance H} {store store' : Store H σ} {f : Frame} {t : Trap}
    (hnext : f.next inst store = some (.trap t, store')) : t ∈ Trap.ofCode := by
  unfold Frame.next at hnext
  split at hnext
  · split at hnext <;> simp at hnext
  · exact Instr.next_trap hnext
  · simp at hnext
  · simp at hnext
  · split at hnext
    · cases hnext
    · split at hnext <;> simp at hnext
  · split at hnext <;> simp at hnext

/-! ## Ends of blocks -/

section

variable {m : Module} {inst : Instance H} {pending : Nat} {frame : Frame} {f : Activation}
  {c : Context} {height last count : Nat} {below : List UInt64} {i : Instruction}

/-- No instruction of the code itself ends a block. -/
theorem Instr.op_ne_end (i : Instr) : i.op ≠ .close ∧ i.op ≠ .otherwise := by
  cases i <;> simp [Instr.op]

/-- What an activation is at: an instruction of the code with its operands, the beginning of a
block, or the end of one of which all code has been run. -/
theorem Stands.instruction_cases (hstands : Stands m inst 0 frame f c height last count below)
    (hat : f.function.body.instructions[f.ip]? = some i) :
    (∃ (j : Instr) (ins outs : List IntType), i = j.flat ∧ j.goesOn = true ∧ j.HasType c ins outs ∧
      ins.length ≤ frame.operands.length) ∨
    (∃ (j : Instr) (ins : List IntType), i = j.flat ∧ j.Jumps c ins ∧
      ins.length ≤ frame.operands.length) ∨
    (i.op? = some .block ∨ i.op? = some .loop ∨ i.op? = some .ifThen) ∨
    ((i.op? = some .close ∨ i.op? = some .otherwise) ∧ f.ip = last ∧
      frame.operands.length = count) := by
  have hplaced := hstands.placed
  -- The code and the number of operands are indices of `Placed`, so they are made variables before
  -- its cases are taken.
  generalize hcode : frame.code = code at hplaced
  generalize hn : 0 + frame.operands.length = n at hplaced
  rw [Nat.zero_add] at hn
  cases hplaced with
  | done _ hip hcount =>
    refine .inr (.inr (.inr ⟨?_, hip, hn.trans hcount⟩))
    rw [hip] at hat
    have hwithin := hstands.within
    generalize f.labels = labels at hwithin
    generalize frame.blocks = blocks at hwithin
    cases hwithin with
    | function _ hclose =>
      obtain rfl := Option.some.inj (hat.symm.trans hclose)
      exact .inl (Token.op?_flat .close)
    | block _ _ _ _ _ hlast hleaves =>
      obtain rfl := Option.some.inj (hat.symm.trans hlast)
      rcases hleaves with ⟨rfl, -⟩ | ⟨hop, -⟩
      · exact .inl (Token.op?_flat .close)
      · exact .inr hop
  | step _ hflat hgoes htype hcount =>
    exact .inl ⟨_, _, _, Option.some.inj (hat.symm.trans hflat), hgoes, htype, by omega⟩
  | jump _ hflat hjumps hcount =>
    exact .inr (.inl ⟨_, _, Option.some.inj (hat.symm.trans hflat), hjumps, by omega⟩)
  | block _ hj hopens =>
    obtain rfl := Option.some.inj (hat.symm.trans hj)
    exact .inr (.inr (.inl (.inl hopens.op?_eq)))
  | loop _ hj hopens =>
    obtain rfl := Option.some.inj (hat.symm.trans hj)
    exact .inr (.inr (.inl (.inr (.inl hopens.op?_eq))))
  | ifThen _ hj hopens =>
    obtain rfl := Option.some.inj (hat.symm.trans hj)
    exact .inr (.inr (.inl (.inr (.inr hopens.op?_eq))))
  | ifElse _ hj hopens =>
    obtain rfl := Option.some.inj (hat.symm.trans hj)
    exact .inr (.inr (.inl (.inr (.inr hopens.op?_eq))))

/-- An activation that is at the end of a block has run all the code of the block. -/
theorem Stands.at_end (hstands : Stands m inst 0 frame f c height last count below)
    (hat : f.function.body.instructions[f.ip]? = some i)
    (hend : i.op? = some .close ∨ i.op? = some .otherwise) :
    f.ip = last ∧ frame.operands.length = count := by
  have hinstr (j : Instr) (hflat : i = j.flat) : False := by
    rw [hflat, Instr.op?_flat] at hend
    rcases hend with hop | hop
    · exact j.op_ne_end.1 (Option.some.inj hop)
    · exact j.op_ne_end.2 (Option.some.inj hop)
  rcases hstands.instruction_cases hat with
    ⟨j, -, -, hflat, -⟩ | ⟨j, -, hflat, -⟩ | hopens | ⟨-, hip, hlength⟩
  · exact (hinstr j hflat).elim
  · exact (hinstr j hflat).elim
  · rcases hopens with hop | hop | hop <;> simp [hop] at hend
  · exact ⟨hip, hlength⟩

/-- At the end of a block there are the operands below it and its results. -/
theorem Stands.height_end (hstands : Stands m inst 0 frame f c height last count below)
    (hat : f.function.body.instructions[f.ip]? = some i)
    (hend : i.op? = some .close ∨ i.op? = some .otherwise) :
    ∃ l labels, f.labels = l :: labels ∧
      f.operands.length = l.height + f.function.resultsAt f.ip := by
  obtain ⟨hip, hlength⟩ := hstands.at_end hat hend
  have htotal : f.operands.length = count + height := by
    rw [hstands.operands_eq, List.length_append, hlength, hstands.within.length_below]
  have hresults := hstands.results_eq
  have hwithin := hstands.within
  generalize f.labels = labels at hwithin
  generalize frame.blocks = blocks at hwithin
  cases hwithin with
  | @function _ _ l _ _ hopener _ hheight _ =>
    refine ⟨l, [], rfl, ?_⟩
    simp only [Function.resultsAt, hip, hopener]
    omega
  | @block _ _ _ _ _ _ _ _ l b _ _ _ _ opener houter hheight _ _ _ _ _ _ hopener hcount =>
    refine ⟨l, _, rfl, ?_⟩
    simp only [Function.resultsAt, hip, hopener]
    omega

/-- The end of a loop with a result is refused. -/
theorem Stands.step_endsLoop (hstands : Stands m inst 0 frame f c height last count below)
    (hends : EndsLoop f.function.body f.ip) (store : Store H σ) :
    Activation.step inst { f with ip := f.ip + 1 } Token.close.flat store =
      .error (.trap .heightMismatch) store := by
  obtain ⟨hat, opener, hopener, hloop, hresults⟩ := hends
  have hop : Token.close.flat.op? = some .close := Token.op?_flat .close
  obtain ⟨hip, hlength⟩ := hstands.at_end hat (.inl hop)
  have htotal : f.operands.length = count + height := by
    rw [hstands.operands_eq, List.length_append, hlength, hstands.within.length_below]
  rw [hip] at hopener
  obtain ⟨labels, hlabels⟩ : ∃ labels, f.labels = labels := ⟨_, rfl⟩
  have hwithin := hstands.within
  rw [hlabels] at hwithin
  generalize frame.blocks = blocks at hwithin
  cases hwithin with
  | function _ _ hnone =>
    rw [hnone] at hopener
    cases hopener
  | @block _ _ _ _ _ labels _ _ l b _ _ _ _ _ _ hheight _ _ _ _ _ _ hfound hcount harity =>
    rw [hfound, Option.some.injEq] at hopener
    subst hopener
    rw [if_pos hloop] at harity
    have hdiffer : f.operands.length ≠ l.height + l.arity := by
      have hpos := List.length_pos_iff.mpr hresults
      omega
    rw [Activation.step_of_op hop]
    simp only [Activation.stepLocal_close]
    rw [close_eq { f with ip := f.ip + 1 } hlabels, if_pos hdiffer]
    rfl

/-! ## Branches -/

/-- The label behind all others is that of the function. -/
theorem Within.last_label {body : Body} {labels : List Label} {blocks : List Enclosing}
    (hwithin : Within body c height last count labels blocks below) :
    ∃ l, labels[blocks.length]? = some l ∧ l.height = 0 ∧ l.arity = c.result.toList.length := by
  induction hwithin with
  | @function _ _ l _ _ _ _ hheight harity => exact ⟨l, rfl, hheight, harity⟩
  | block _ _ _ _ _ _ _ _ _ _ _ _ _ ih => simpa [Context.inside] using ih

/-- A branch to an open block has its operands above those at the entry of the block. -/
theorem Stands.exists_label (hstands : Stands m inst 0 frame f c height last count below)
    {n k : Nat} {type : BlockType} (hlabel : c.labels[n]? = some type)
    (hlength : type.toList.length + k ≤ frame.operands.length) :
    ∃ l, f.labels[n]? = some l ∧ l.height + l.arity + k ≤ f.operands.length := by
  have htotal : f.operands.length = frame.operands.length + below.length := by
    rw [hstands.operands_eq, List.length_append]
  rcases hstands.within.branch hlabel with ⟨rfl, rfl⟩ | hfound
  · obtain ⟨l, hl, hheight, harity⟩ := hstands.within.last_label
    exact ⟨l, hl, by omega⟩
  · obtain ⟨l, b, front, c', height', last', count', below', hl, hb, rfl, hheight, harity, -⟩ :=
      hfound
    refine ⟨l, hl, ?_⟩
    simp only [List.length_append] at htotal hheight
    omega

/-- At a branch there are the operands that it carries, above those at the entry of the block. -/
theorem Stands.height_branch (hstands : Stands m inst 0 frame f c height last count below)
    (hat : f.function.body.instructions[f.ip]? = some i) {n : Int} (hn : n ∈ i.depths) :
    0 ≤ n ∧ ∃ l, f.labels[n.toNat]? = some l ∧
      l.height + l.arity + i.deciders ≤ f.operands.length := by
  -- Only branches have depths; the other instructions and the ends of blocks are ruled out by their
  -- opcodes.
  rcases hstands.instruction_cases hat with
    ⟨j, ins, outs, rfl, hgoes, htype, hlength⟩ | ⟨j, ins, rfl, hjumps, hlength⟩ | hopens | ⟨hend, -⟩
  · rw [Instruction.depths, Instr.op?_flat] at hn
    rw [Instruction.deciders, Instr.op?_flat]
    cases htype <;> simp only [Instr.op, List.not_mem_nil] at hn
    case brIf label type hlabel =>
      obtain rfl := List.mem_singleton.mp hn
      rw [Instr.index_flat (i := .brIf label) (n := label) rfl, Int.toNat_natCast]
      exact ⟨Int.natCast_nonneg _, hstands.exists_label hlabel hlength⟩
    all_goals cases hgoes
  · rw [Instruction.depths, Instr.op?_flat] at hn
    rw [Instruction.deciders, Instr.op?_flat]
    cases hjumps with
    | unreachable => simp [Instr.op] at hn
    | ret => simp [Instr.op] at hn
    | @br label type hlabel =>
      obtain rfl := List.mem_singleton.mp hn
      rw [Instr.index_flat (i := .br label) (n := label) rfl, Int.toNat_natCast]
      exact ⟨Int.natCast_nonneg _, hstands.exists_label hlabel hlength⟩
    | @brTable labels default type hdefault hlabels =>
      rw [List.length_cons] at hlength
      simp only [Instr.op, Instr.index_flat (i := .brTable labels default) (n := default) rfl,
        List.mem_append, List.mem_singleton] at hn ⊢
      rcases hn with hn | rfl
      · obtain ⟨label, hlabel, rfl⟩ : ∃ label ∈ labels, (label.toNat : Int) = n := by
          simpa [Instr.flat, Instr.labels] using hn
        rw [Int.toNat_natCast]
        exact ⟨Int.natCast_nonneg _, hstands.exists_label (hlabels label hlabel) hlength⟩
      · rw [Int.toNat_natCast]
        exact ⟨Int.natCast_nonneg _, hstands.exists_label hdefault hlength⟩
  · rcases hopens with hop | hop | hop <;> rw [Instruction.depths, hop] at hn <;> cases hn
  · rcases hend with hop | hop <;> rw [Instruction.depths, hop] at hn <;> cases hn

/-- At a return there are the results of the function. -/
theorem Stands.height_ret (hstands : Stands m inst 0 frame f c height last count below)
    (hat : f.function.body.instructions[f.ip]? = some i) (hret : i.op? = some .ret) :
    f.function.type.results.length ≤ f.operands.length := by
  rw [hstands.results_eq, hstands.operands_eq, List.length_append]
  rcases hstands.instruction_cases hat with
    ⟨j, ins, outs, rfl, hgoes, htype, hlength⟩ | ⟨j, ins, rfl, hjumps, hlength⟩ | hopens | ⟨hend, -⟩
  · rw [Instr.op?_flat] at hret
    cases j <;> simp [Instr.op, Instr.goesOn] at hret hgoes
  · rw [Instr.op?_flat] at hret
    cases hjumps <;> simp only [Instr.op, Option.some.injEq, reduceCtorEq] at hret
    omega
  · rcases hopens with hop | hop | hop <;> simp [hop] at hret
  · rcases hend with hop | hop <;> simp [hop] at hret

end

/-! ## Runs -/

/-- Code never fails because of a height. -/
theorem not_fails_mismatch {p : Setting H σ} {e : Execution H σ} {store : Store H σ} :
    ¬ Fails p e (.trap .heightMismatch) store := by
  intro hfails
  cases hfails with
  | trap hnext => exact absurd (Frame.next_trap hnext) (by decide)

/-- A machine that stands for an execution finds a wrong height only at the end of a loop with a
result. -/
theorem Stops.endsLoop {p : Setting H σ} {m : Module} {e : Execution H σ} {s : State H σ}
    {store : Store H σ} (hstops : Stops p m e s (.trap .heightMismatch) store) :
    ∃ f, s.machine.frames.head? = some f ∧ EndsLoop f.function.body f.ip := by
  cases hstops with
  | exhausted hfull => exact absurd hfull (by decide)
  | mismatch _ hhead hends => exact ⟨_, hhead, hends⟩
  | fails _ hfails => exact (not_fails_mismatch hfails).elim
  | unsupported hnot => exact absurd rfl (hnot _)

/-- At the end of a loop with a result the machine finds a wrong height. -/
theorem Represents.advance_endsLoop {m : Module} {inst : Instance H} {frame : Frame} {s : State H σ}
    {f : Activation} {callers : List Activation} (hrep : Represents m inst 0 frame f)
    (hframes : s.machine.frames = f :: callers) (hends : EndsLoop f.function.body f.ip) :
    ∃ s', Run.advance inst s = .error (.trap .heightMismatch) s' := by
  obtain ⟨c, height, last, count, below, hstands⟩ := hrep
  obtain ⟨store, thread, ⟨fs, outer, slot⟩⟩ := s
  subst hframes
  obtain ⟨traces, out, htraced⟩ := Run.traced_eq inst.config
    ⟨store, thread, ⟨f :: callers, outer, slot⟩⟩
    (fun t => t.instruction f.ip Token.close.flat f.operands.length)
  exact ⟨_, Run.advance_of_error hends.1 htraced (hstands.step_endsLoop hends _)⟩

/-- What the heights are in a state of a machine that stands for an execution. -/
theorem Mirrors.heights {p : Setting H σ} {m : Module} {count : Nat} {e : Execution H σ}
    {s : State H σ} {f : Activation} {callers : List Activation} (hrealizes : Realizes p m)
    (hmirrors : Mirrors p m count e s) (hframes : s.machine.frames = f :: callers) :
    ∃ i, f.function.body.instructions[f.ip]? = some i ∧
      (i.op? = some .close ∨ i.op? = some .otherwise → ∃ l labels, f.labels = l :: labels ∧
        f.operands.length = l.height + f.function.resultsAt f.ip) ∧
      (∀ n ∈ i.depths, 0 ≤ n ∧ ∃ l, f.labels[n.toNat]? = some l ∧
        l.height + l.arity + i.deciders ≤ f.operands.length) ∧
      (i.op? = some .ret → f.function.type.results.length ≤ f.operands.length) ∧
      ((∃ s', Run.advance p.inst s = .error (.trap .heightMismatch) s') ↔
        EndsLoop f.function.body f.ip) := by
  have hstacked := hmirrors.stacked
  rw [hframes] at hstacked
  have hrep := hstacked.represents.1
  obtain ⟨i, hat, -⟩ := hrep.step e.store
  obtain ⟨c, height, last, count, below, hstands⟩ := id hrep
  refine ⟨i, hat, fun hend => hstands.height_end hat hend, fun n hn => hstands.height_branch hat hn,
    fun hret => hstands.height_ret hat hret, ?_, hrep.advance_endsLoop hframes⟩
  rintro ⟨s', herror⟩
  have hproceeds := hmirrors.advance hrealizes
  rw [herror] at hproceeds
  obtain ⟨f', hhead, hends⟩ := Stops.endsLoop hproceeds
  rw [hframes] at hhead
  obtain rfl := Option.some.inj hhead
  exact hends

/-- Heights are right in all states that a call goes through. Whatever a loaded module, an instance
of it, a function with arguments and an embedder are: where a block or a function ends there are
exactly the operands at its entry and its results; at every branch there are the operands that its
label carries, above those at the entry of the block; and at a return there are the results. The
machine finds a wrong height exactly at the end of a loop with a result, whose label carries
nothing, and a call ends with that trap only there. -/
theorem heights_of_loaded_code {bytes : List UInt8} {ending : Ending} {m : Module}
    (hload : Module.load bytes ending = .ok m) {config : Config} {inst : Instance H}
    (hconfig : config.check = .ok inst.config) (himpl : inst.Implements m) (host : Host H σ)
    (invoker : Invoker H σ) {function : UInt32} {type : FuncType}
    (htype : m.functionType? function = some type) {args : List UInt64}
    (hargs : args.length = type.params.length) (store : Store H σ) (slot : UInt64) :
    (∀ s f callers, inst.Visits host invoker function args store slot .more s →
      s.machine.frames = f :: callers →
      ∃ i, f.function.body.instructions[f.ip]? = some i ∧
        (i.op? = some .close ∨ i.op? = some .otherwise → ∃ l labels, f.labels = l :: labels ∧
          f.operands.length = l.height + f.function.resultsAt f.ip) ∧
        (∀ n ∈ i.depths, 0 ≤ n ∧ ∃ l, f.labels[n.toNat]? = some l ∧
          l.height + l.arity + i.deciders ≤ f.operands.length) ∧
        (i.op? = some .ret → f.function.type.results.length ≤ f.operands.length) ∧
        ((∃ s', Run.advance inst s = .error (.trap .heightMismatch) s') ↔
          EndsLoop f.function.body f.ip)) ∧
    (∀ fuel s', inst.runFunction host invoker fuel function args
        ⟨store, inst.newThread, { slot }⟩ = .error (.trap .heightMismatch) s' →
      ∃ s f, inst.Visits host invoker function args store slot .more s ∧
        s.machine.frames.head? = some f ∧ EndsLoop f.function.body f.ip) := by
  have hvalid := Module.valid_of_load hload
  have hsignature := (himpl.signature?_eq hvalid function).trans htype
  have hcount := length_results_le hvalid (Config.positive_of_check hconfig) htype
  obtain ⟨codes, hrealizes⟩ := exists_realizes hvalid himpl host invoker
  constructor
  · intro s f callers hvisits hframes
    obtain ⟨e, -, hmirrors⟩ := hrealizes.visits hsignature hargs hcount hvisits
    exact Mirrors.heights hrealizes hmirrors hframes
  · intro fuel s' herror
    rcases Instance.runFunction_error herror with
      ⟨-, hfull⟩ | ⟨hroom, hcall⟩ | hfuel | ⟨t, hvisits, hadvance⟩ | ⟨c, t, hvisits, hperform⟩
    · exact absurd hfull (by decide)
    · have hasks := asks_invoke (p := ⟨inst, codes, host, invoker⟩) (m := m) store inst.newThread
        slot hsignature hargs hroom
      have hproceeds : Proceeds ⟨inst, codes, host, invoker⟩ m _ _
          ⟨store, inst.newThread, { slot }⟩ (Run.call inst function _) :=
        hasks.call hrealizes (attends_newThread inst)
      rw [hcall] at hproceeds
      obtain ⟨f, hhead, -⟩ := Stops.endsLoop hproceeds
      cases hhead
    · cases hfuel
    · obtain ⟨e, -, hmirrors⟩ := hrealizes.visits hsignature hargs hcount hvisits
      have hproceeds := Mirrors.advance hrealizes hmirrors
      rw [hadvance] at hproceeds
      obtain ⟨f, hhead, hends⟩ := Stops.endsLoop hproceeds
      exact ⟨t, f, hvisits, hhead, hends⟩
    · obtain ⟨e, -, hcalls⟩ := hrealizes.visits hsignature hargs hcount hvisits
      have hfails := Calls.perform hcalls hcount
      rw [hperform] at hfails
      exact (not_fails_mismatch hfails).elim

end Structured

/-- A module whose function `f` gives seven out of a loop. -/
def sevenFromLoop : List UInt8 :=
  [0, 0x61, 0x73, 0x6d, 1, 0, 0, 0, 1, 5, 1, 0x60, 0, 1, 0x7f, 3, 2, 1, 0, 7, 5, 1, 1, 0x66, 0, 0,
    10, 9, 1, 7, 0, 0x03, 0x7f, 0x41, 7, 0x0b, 0x0b]

/-- The function stops at the end of its loop, and an invocation of it traps. -/
theorem exists_sevenFromLoop :
    ∃ m place s₀ s₁ s₂ e, ∃ (inst : Instance Unit) (s' : State Unit Unit),
    Module.load sevenFromLoop .eof = .ok m ∧
    m.functionType? 0 = some { params := [], results := [.i32] } ∧
    Engine.instantiate growingHost 100 0 m none {} bareStore = .ok place s₀ ∧
    s₀.instances[place]? = some inst ∧
    inst.runFunction growingHost (Engine.invoke growingHost 100 0) 100 0 []
      ⟨bareStore, inst.newThread, {}⟩ = .error (.trap .heightMismatch) s' ∧
    Engine.instantiate growingHost 100 1 m none {} bareStore = .ok 0 s₁ ∧
    Engine.invoke growingHost 100 1 0 "f" [] s₁ = .error (.trapped e) s₂ ∧
    e.trap = .heightMismatch := by
  have hruns : ((Module.load sevenFromLoop .eof).toOption.any fun m =>
      m.functionType? 0 == some { params := [], results := [.i32] } &&
      ((succeeded (Engine.instantiate growingHost 100 0 m none {} bareStore)).any fun made =>
        made.2.instances[made.1]?.any fun (inst : Instance Unit) =>
          (failed (inst.runFunction growingHost (Engine.invoke growingHost 100 0) 100 0 []
            ⟨bareStore, inst.newThread, {}⟩)).any fun halted =>
              halted.1 == .trap .heightMismatch) &&
      (succeeded (Engine.instantiate growingHost 100 1 m none {} bareStore)).any fun made =>
        made.1 == 0 && (failed (Engine.invoke growingHost 100 1 0 "f" [] made.2)).any fun stopped =>
          match stopped.1 with
          | .trapped e => e.trap == .heightMismatch
          | _ => false) = true := by decide +kernel
  simp only [Option.any_eq_true, Bool.and_eq_true, beq_iff_eq, succeeded_eq_some, failed_eq_some,
    except_toOption_eq_some] at hruns
  obtain ⟨m, hload, ⟨htype, ⟨place, s₀⟩, hmade, inst, hplace, ⟨_, s'⟩, hresult, rfl⟩, ⟨_, s₁⟩,
    hinstance, rfl, ⟨stopped, s₂⟩, herror, htrap⟩ := hruns
  cases stopped with
  | trapped e =>
    exact ⟨m, place, s₀, s₁, s₂, e, inst, s', hload, htype, hmade, hplace, hresult, hinstance,
      herror, beq_iff_eq.mp htrap⟩
  | refused | crashed => cases htrap

/-- A loop with a result, at whose end the heights are taken for different. -/
theorem heights_of_loaded_code_sevenFromLoop :
    ∃ m, ∃ inst : Instance Unit, ∃ s', Module.load sevenFromLoop .eof = .ok m ∧ inst.Implements m ∧
      inst.runFunction growingHost (Engine.invoke growingHost 100 0) 100 0 []
        ⟨bareStore, inst.newThread, {}⟩ = .error (.trap .heightMismatch) s' ∧
      ∃ s f, inst.Visits growingHost (Engine.invoke growingHost 100 0) 0 [] bareStore 0 .more s ∧
        s.machine.frames.head? = some f ∧ Structured.EndsLoop f.function.body f.ip := by
  obtain ⟨m, place, s₁, _, _, _, inst, s', hload, htype, hinstance, hplace, hresult, -, -, -⟩ :=
    exists_sevenFromLoop
  obtain ⟨hcheck, himplements⟩ := Structured.growingHost_implements hload hinstance hplace
  have hargs : ([] : List UInt64).length = ([] : List ValueType).length := rfl
  exact ⟨m, inst, s', hload, himplements, hresult,
    (Structured.heights_of_loaded_code hload hcheck himplements growingHost
      (Engine.invoke growingHost 100 0) htype hargs bareStore 0).2 100 s' hresult⟩

/-- Loaded code may stop at a wrong height. -/
theorem invoke_heightMismatch_sevenFromLoop :
    ∃ m s₁ e s₂, m.Loaded ∧ Engine.instantiate growingHost 100 1 m none {} bareStore = .ok 0 s₁ ∧
      Engine.invoke growingHost 100 1 0 "f" [] s₁ = .error (.trapped e) s₂ ∧
      e.trap = .heightMismatch := by
  obtain ⟨m, _, _, s₁, s₂, e, _, _, hload, -, -, -, -, hinstance, herror, htrap⟩ :=
    exists_sevenFromLoop
  exact ⟨m, s₁, e, s₂, ⟨_, _, hload⟩, hinstance, herror, htrap⟩

end IntWasm
