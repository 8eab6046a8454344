import IntWasm.ConstExpr
import IntWasm.Proofs.Module.Checked
import IntWasm.Proofs.Structured.Acceptance

/-!
# Constant expressions have values

A constant expression that was checked consists of one instruction and its end: every constant
instruction leaves a value, nothing takes one, and in the end there is exactly one. So evaluating it
with values of the types that it was checked for gives a value of the expected type. Main statement:
`eval_of_checkConst`.
-/

namespace IntWasm

open Structured Body Leb128

/-! ## Instructions of constant expressions -/

/-- An instruction that may stand in a constant expression. -/
def Opcode.IsConstant : Opcode → Prop
  | .const _ | .close | .globalGet => True
  | _ => False

namespace Module

/-- An instruction that is accepted in a constant expression is constant. -/
theorem checkConstInstruction_eq_ok {globals : List GlobalType} {i : Instruction} {u : Unit}
    (hok : checkConstInstruction globals i = .ok u) : ∃ op, i.op? = some op ∧ op.IsConstant := by
  rw [checkConstInstruction] at hok
  split at hok
  · rename_i hop
    exact ⟨_, hop, trivial⟩
  · rename_i hop
    exact ⟨_, hop, trivial⟩
  · rename_i hop
    exact ⟨_, hop, trivial⟩
  · cases hok

/-- So are all of them. -/
theorem checkConstInstructions_eq_ok {globals : List GlobalType} {instructions : List Instruction}
    {u : Unit} (hok : checkConstInstructions globals instructions = .ok u) :
    ∀ i ∈ instructions, ∃ op, i.op? = some op ∧ op.IsConstant := by
  induction instructions with
  | nil => simp
  | cons i rest ih =>
    simp only [checkConstInstructions, except_bind_eq_ok] at hok
    obtain ⟨_, hfirst, hrest⟩ := hok
    intro j hj
    rcases List.mem_cons.mp hj with rfl | hj
    · exact checkConstInstruction_eq_ok hfirst
    · exact ih hrest j hj

/-- The scope of constant expressions has integer types only. -/
theorem constScope_proper {globals : List GlobalType} (hints : ∀ g ∈ globals, g.type.IsInt) :
    (constScope globals).Proper where
  localType := by simp [constScope]
  globalType hg := hints _ (List.mem_of_getElem? hg)
  functionType := by simp [constScope]
  type := by simp [constScope]

/-- The code of a constant expression that was checked: its instructions are constant, and it gives
a value of the expected type. -/
theorem exists_code_of_checkConst {globals : List GlobalType} (hints : ∀ g ∈ globals, g.type.IsInt)
    {width : IntType} {expr : List UInt8}
    (hok : checkConst globals width.valueType expr = .ok ()) :
    ∃ (code : Code) (first : List UInt8), code.Spells first ∧ expr = first ++ [closingByte] ∧
      (∀ token ∈ code.tokens, token.op.IsConstant) ∧
      code.HasType (.ofFunction (constScope globals) (some width)) [] [width] := by
  unfold checkConst at hok
  split at hok
  · cases hok
  · rename_i body hcheck
    have hproper := constScope_proper hints
    obtain ⟨tokens, first, s', rfl, hspells, hruns, hdone⟩ :=
      exists_runs_of_checkFrom (check_eq_checkFrom.mp hcheck)
    obtain ⟨code, rfl⟩ := exists_code_of_runs hruns hdone
    have hsees := sees_start (constScope globals) (some width)
    have hinside := inside_start (some width)
    refine ⟨code, first, hspells, rfl, fun token htoken => ?_,
      (Code.accepted_iff_hasType hproper hspells).mp ⟨body, hcheck⟩⟩
    obtain ⟨dead, mine, -, hinside'⟩ := code.checks_of_runs
      (c := .ofFunction (constScope globals) (some width)) hproper hsees hinside hruns
    obtain ⟨-, rfl⟩ := (hinside'.step_done_iff rfl rfl).mp hdone
    have hgrows := code.grows_of_runs (c := .ofFunction (constScope globals) (some width)) hproper
      hsees hinside hruns
    have hbyte : token.op.byte ∈ opcodes s'.instructions := by
      rw [hgrows.opcodes_eq]
      exact List.mem_append_right _ (List.mem_map_of_mem htoken)
    obtain ⟨i, hi, hopcode⟩ := List.mem_map.mp hbyte
    obtain ⟨op, hop, hconstant⟩ := checkConstInstructions_eq_ok hok i (by simp [hi])
    rw [Instruction.op?, hopcode, Opcode.ofByte?_byte] at hop
    obtain rfl := Option.some.inj hop
    exact hconstant

end Module

/-! ## Values -/

/-- A constant instruction takes nothing and gives one value. -/
theorem Structured.Instr.HasType.constant {c : Context} {i : Instr} {ins outs : List IntType}
    (htype : i.HasType c ins outs) (hconstant : i.op.IsConstant) : ins = [] ∧ ∃ t, outs = [t] := by
  cases htype with
  | const32 => exact ⟨rfl, _, rfl⟩
  | const64 => exact ⟨rfl, _, rfl⟩
  | globalGet => exact ⟨rfl, _, rfl⟩
  | _ => exact hconstant.elim

/-- Constant code leaves a value for every instruction. -/
theorem Structured.Code.HasType.length_eq {c : Context} {code : Code} {before after : List IntType}
    (htype : code.HasType c before after) (hconstant : ∀ token ∈ code.tokens, token.op.IsConstant) :
    after.length = before.length + code.tokens.length := by
  induction htype with
  | done => rfl
  | instr hfirst _ ih =>
    obtain ⟨rfl, t, rfl⟩ := hfirst.constant (hconstant (.instr _) (by simp [Code.tokens]))
    have hrest := ih fun token htoken => hconstant token (by simp [Code.tokens, htoken])
    simp only [hrest, Code.tokens, List.length_cons, List.nil_append, List.cons_append]
    omega
  -- A token that opens a block is not constant.
  | block => exact False.elim (hconstant (.block _) List.mem_cons_self)
  | loop => exact False.elim (hconstant (.loop _) List.mem_cons_self)
  | ifThen => exact False.elim (hconstant (.ifThen _) List.mem_cons_self)
  | ifElse => exact False.elim (hconstant (.ifThen _) List.mem_cons_self)

/-- Constant code that leaves one value is one instruction. -/
theorem Structured.Code.HasType.exists_constant {c : Context} {code : Code} {width : IntType}
    (htype : code.HasType c [] [width]) (hconstant : ∀ token ∈ code.tokens, token.op.IsConstant) :
    ∃ i : Instr, code.tokens = [.instr i] ∧ i.op.IsConstant ∧ i.HasType c [] [width] := by
  have hlength : code.tokens.length = 1 := by simpa using (htype.length_eq hconstant).symm
  cases code with
  | done => cases hlength
  | instr i next =>
    have hop := hconstant (.instr i) List.mem_cons_self
    have hnone : next.tokens = [] := by simpa [Code.tokens] using hlength
    have hdone : next = .done := by cases next <;> first | rfl | cases hnone
    subst hdone
    refine ⟨i, rfl, hop, ?_⟩
    generalize hbefore : ([] : List IntType) = before, hafter : [width] = after at htype
    cases htype with
    | instr hfirst hnext =>
      obtain ⟨rfl, t, rfl⟩ := hfirst.constant hop
      cases hnext
      simp only [List.nil_append, List.cons_append, List.cons.injEq] at hbefore hafter
      obtain ⟨rfl, rfl⟩ := hafter
      exact hfirst
  | block => exact False.elim (hconstant (.block _) List.mem_cons_self)
  | loop => exact False.elim (hconstant (.loop _) List.mem_cons_self)
  | ifThen => exact False.elim (hconstant (.ifThen _) List.mem_cons_self)
  | ifElse => exact False.elim (hconstant (.ifThen _) List.mem_cons_self)

/-- A number at the front of an expression. -/
theorem ConstExpr.number_eq_ok {α : Type} {r : Reader ReadFault α} {expr rest : List UInt8} {a : α}
    (hread : Instruction.number r expr = .ok (a, rest)) : number r expr = .ok (a, rest) := by
  unfold Instruction.number at hread
  unfold number
  generalize decode r expr = result at hread ⊢
  obtain ⟨read, n⟩ := result
  cases read with
  | error e => cases hread
  | ok b => exact congrArg Except.ok (Except.ok.inj hread)

/-- Values begin with one for each of the given globals, of its type. -/
def ConstExpr.Supply (values : List Value) (globals : List GlobalType) : Prop :=
  ∀ {i : Nat} {g : GlobalType}, globals[i]? = some g → ∃ v, values[i]? = some v ∧ v.type = g.type

/-- The value of an expression of one instruction. -/
theorem ConstExpr.eval_instr {globals : List GlobalType} {values : List Value}
    (hvalues : Supply values globals) {i : Instr}
    {width : IntType} (hconstant : i.op.IsConstant)
    (htype : i.HasType (.ofFunction (Module.constScope globals) (some width)) [] [width])
    {first : List UInt8} (hspells : (Token.instr i).Spells first) :
    ∃ v, eval values (first ++ [closingByte]) = .ok v ∧ v.type = width.valueType := by
  obtain ⟨more, rfl, hmore⟩ := hspells
  -- The instruction leaves its value, and the end finds it.
  have hend (v : Value) :
      evalFrom values ((more ++ [closingByte]).length + 1) [v] [closingByte] = .ok v := by
    rw [evalFrom, closingByte, Opcode.ofByte?_byte]
  rw [eval, List.cons_append, List.isEmpty_cons, if_neg Bool.false_ne_true, List.length_cons,
    evalFrom, Opcode.ofByte?_byte, Token.op]
  swap
  · simp
  -- To evaluate the end the kernel would have to build the table of opcodes.
  generalize evalFrom values ((more ++ [closingByte]).length + 1) = goOn at hend ⊢
  as_aux_lemma =>
    generalize hins : ([] : List IntType) = ins, houts : [width] = outs at htype
    cases htype with
    | @const32 value =>
      have hnumber := number_eq_ok (number_s32_iff.mpr ⟨more, rfl, hmore⟩ :
        Instruction.number s32 (more ++ [closingByte]) = .ok (value, [closingByte]))
      simp only [Instr.op, hnumber]
      obtain ⟨rfl, -⟩ := List.cons.inj houts
      exact ⟨.ofI32 value, hend _, rfl⟩
    | @const64 value =>
      have hnumber := number_eq_ok (number_s64_iff.mpr ⟨more, rfl, hmore⟩ :
        Instruction.number s64 (more ++ [closingByte]) = .ok (value, [closingByte]))
      simp only [Instr.op, hnumber]
      obtain ⟨rfl, -⟩ := List.cons.inj houts
      exact ⟨.ofI64 value, hend _, rfl⟩
    | @globalGet index mutable _ hglobal =>
      have hnumber := number_eq_ok (number_u32_iff.mpr ⟨more, rfl, hmore⟩ :
        Instruction.number u32 (more ++ [closingByte]) = .ok (index, [closingByte]))
      obtain ⟨v, hv, htype⟩ := hvalues hglobal
      obtain ⟨rfl, -⟩ := List.cons.inj houts
      refine ⟨v, ?_, htype⟩
      simp only [Instr.op, hnumber, except_bind_eq_ok]
      exact ⟨_, rfl, by simp only [hv, hend]⟩
    | _ => exact hconstant.elim

namespace Module

/-- A constant expression that was checked has a value of the expected type, whatever values of
their types the globals have that it may read. -/
theorem eval_of_checkConst {globals : List GlobalType} (hints : ∀ g ∈ globals, g.type.IsInt)
    {expected : ValueType} (hexpected : expected.IsInt) {expr : List UInt8}
    (hok : checkConst globals expected expr = .ok ()) {values : List Value}
    (hvalues : ConstExpr.Supply values globals) :
    ∃ v, ConstExpr.eval values expr = .ok v ∧ v.type = expected := by
  obtain ⟨width, rfl⟩ := hexpected
  obtain ⟨code, first, hspells, rfl, hconstant, htype⟩ := exists_code_of_checkConst hints hok
  obtain ⟨i, htokens, hconstant, htype⟩ := htype.exists_constant hconstant
  rw [Code.Spells, htokens] at hspells
  obtain ⟨first, more, rfl, hspells, rfl⟩ := hspells
  rw [List.append_nil]
  exact ConstExpr.eval_instr hvalues hconstant htype hspells

end Module

end IntWasm
