import IntWasm.Proofs.Leb128.Strict
import IntWasm.Proofs.Module.Constants
import IntWasm.Proofs.Module.Format

/-!
# Constant expressions are evaluated as they are checked

The checker of constant expressions and their evaluator are different programs. Both accept exactly
one instruction and its end: whatever comes first leaves a value, and nothing takes it away. So what
was checked has a value of its type that depends on no global that can change, and what has such a
value whatever the globals hold was checked. Main statement: `Module.checkConst_agrees`.
-/

namespace IntWasm

open Structured Body Leb128

/-! ## What an evaluation looks at -/

namespace ConstExpr

/-- An evaluation: its value, the bytes that it has left, and the indices of the globals that it has
read. -/
structure Evaluation where
  value : Value
  rest : List UInt8
  reads : List UInt32
  deriving Repr, DecidableEq

/-- The instruction that an expression begins with: the value that it leaves, the globals that it
reads and the bytes behind it. There is none at the end. -/
def next (globals : List Value) (op : UInt8) (expr : List UInt8) :
    Except ConstFault (Option (Value × List UInt32 × List UInt8)) :=
  match Opcode.ofByte? op with
  | some (.const .i32) => do
    let (v, expr) ← number Leb128.s32 expr
    return some (.ofI32 v, [], expr)
  | some (.const .i64) => do
    let (v, expr) ← number Leb128.s64 expr
    return some (.ofI64 v, [], expr)
  | some .globalGet => do
    let (index, expr) ← number Leb128.u32 expr
    match globals[index.toNat]? with
    | none => .error (.unknownGlobal index)
    | some v => return some (v, [index], expr)
  | some .close => return none
  | _ => .error (.opcode op)

/-- Runs the rest of an expression like `evalFrom` and notes what it looks at. -/
def watchFrom (globals : List Value) :
    Nat → List Value → List UInt32 → List UInt8 → Except ConstFault Evaluation
  | 0, _, _, _ => .error (.read .truncated)
  | _ + 1, _, _, [] => .error (.read .truncated)
  | fuel + 1, stack, reads, op :: expr => do
    match ← next globals op expr with
    | some (v, more, expr) => watchFrom globals fuel (v :: stack) (reads ++ more) expr
    | none =>
      match stack with
      | [value] => .ok { value, rest := expr, reads }
      | _ => .error .empty

/-- Evaluates an expression and notes what it looks at. -/
def watch (globals : List Value) (expr : List UInt8) : Except ConstFault Evaluation :=
  if expr.isEmpty then .error .empty else watchFrom globals (expr.length + 1) [] [] expr

/-- An evaluation looks at one instruction after the other. -/
theorem evalFrom_cons (globals : List Value) (fuel : Nat) (stack : List Value) (op : UInt8)
    (expr : List UInt8) :
    evalFrom globals (fuel + 1) stack (op :: expr) = (do
      match ← next globals op expr with
      | some (v, _, expr) => evalFrom globals fuel (v :: stack) expr
      | none =>
        match stack with
        | [v] => .ok v
        | _ => .error .empty) := by
  rw [evalFrom.eq_def, next]
  -- To look the byte up the kernel would have to build the table of opcodes.
  generalize Opcode.ofByte? = find
  as_aux_lemma =>
    simp only
    cases find op with
    | none => rfl
    | some found =>
      cases found with
      | const type =>
        cases type with
        | i32 => cases number Leb128.s32 expr <;> rfl
        | i64 => cases number Leb128.s64 expr <;> rfl
      | globalGet =>
        cases number Leb128.u32 expr with
        | error e => rfl
        | ok found =>
          simp only [bind, Except.bind]
          cases globals[found.1.toNat]? <;> rfl
      | _ => rfl

/-- Watching what is read does not change what is evaluated. -/
theorem map_watchFrom (globals : List Value) (fuel : Nat) (stack : List Value) (reads : List UInt32)
    (expr : List UInt8) :
    (watchFrom globals fuel stack reads expr).map (·.value) = evalFrom globals fuel stack expr := by
  induction fuel generalizing stack reads expr with
  | zero => rfl
  | succ fuel ih =>
    cases expr with
    | nil => rfl
    | cons op expr =>
      simp only [evalFrom_cons, watchFrom]
      cases next globals op expr with
      | error e => rfl
      | ok found =>
        cases found with
        | some found => exact ih _ _ _
        | none =>
          cases stack with
          | nil => rfl
          | cons v below => cases below <;> rfl

/-- Noting what an evaluation looks at does not change its outcome. -/
theorem map_watch (globals : List Value) (expr : List UInt8) :
    (watch globals expr).map (·.value) = eval globals expr := by
  unfold watch eval
  split
  · rfl
  · exact map_watchFrom ..

end ConstExpr

/-! ## Single instructions -/

namespace Structured.Instr

/-- The value that an instruction of a constant expression leaves. -/
def value? (globals : List Value) : Instr → Option Value
  | const32 v => some (.ofI32 v)
  | const64 v => some (.ofI64 v)
  | globalGet index => globals[index.toNat]?
  | _ => none

/-- What an instruction of a constant expression reads: a constant is like a global that never
changes. -/
def source? (globals : List GlobalType) : Instr → Option GlobalType
  | const32 _ => some { type := .i32, mutable := false }
  | const64 _ => some { type := .i64, mutable := false }
  | globalGet index => globals[index.toNat]?
  | _ => none

/-- The indices of the globals that an instruction reads. -/
def reads : Instr → List UInt32
  | globalGet index => [index]
  | _ => []

end Structured.Instr

namespace ConstExpr

/-! ## Evaluation -/

/-- A number that evaluation reads is the one that validation reads. -/
theorem number_eq_ok_iff {α : Type} {r : Reader ReadFault α} {expr rest : List UInt8} {a : α} :
    number r expr = .ok (a, rest) ↔ Instruction.number r expr = .ok (a, rest) := by
  refine ⟨fun hread => ?_, number_eq_ok⟩
  unfold number at hread
  unfold Instruction.number
  generalize decode r expr = result at hread ⊢
  obtain ⟨read, n⟩ := result
  cases read with
  | error e => cases hread
  | ok b => exact congrArg Except.ok (Except.ok.inj hread)

section

variable {globals : List Value} {fuel : Nat} {stack : List Value} {reads : List UInt32}
  {expr : List UInt8} {e : Evaluation}

/-- An instruction puts its value on the stack. -/
theorem watchFrom_of_value {op : UInt8} {v : Value} {more : List UInt32} {rest : List UInt8}
    (hnext : next globals op expr = .ok (some (v, more, rest))) :
    watchFrom globals (fuel + 1) stack reads (op :: expr) =
      watchFrom globals fuel (v :: stack) (reads ++ more) rest := by
  rw [watchFrom.eq_def]
  generalize next = step at hnext ⊢
  as_aux_lemma => simp only [hnext, bind, Except.bind]

/-- At the end the one value on the stack is the result. -/
theorem watchFrom_of_end {op : UInt8} {v : Value} (hnext : next globals op expr = .ok none) :
    watchFrom globals (fuel + 1) [v] reads (op :: expr) = .ok ⟨v, expr, reads⟩ := by
  rw [watchFrom, hnext]
  rfl

/-- The end ends the expression. -/
theorem next_close (expr : List UInt8) : next globals closingByte expr = .ok none := by
  rw [next, closingByte, Opcode.ofByte?_byte]
  rfl

/-- An instruction that has a value gives it. -/
theorem next_instr {i : Instr} {v : Value} {op : UInt8} {run : List UInt8} (tail : List UInt8)
    (hspells : (Token.instr i).Spells (op :: run)) (hvalue : i.value? globals = some v) :
    next globals op (run ++ tail) = .ok (some (v, i.reads, tail)) := by
  obtain ⟨_, ⟨⟩, hrun⟩ := hspells
  rw [next, Opcode.ofByte?_byte]
  cases i <;> simp only [Instr.value?, reduceCtorEq, Option.some.injEq] at hvalue
  case const32 n =>
    have hnumber : number s32 (run ++ tail) = .ok (n, tail) :=
      number_eq_ok_iff.mpr (number_s32_iff.mpr ⟨run, rfl, hrun⟩)
    simp only [Token.op, Instr.op, hnumber, ← hvalue]
    rfl
  case const64 n =>
    have hnumber : number s64 (run ++ tail) = .ok (n, tail) :=
      number_eq_ok_iff.mpr (number_s64_iff.mpr ⟨run, rfl, hrun⟩)
    simp only [Token.op, Instr.op, hnumber, ← hvalue]
    rfl
  case globalGet index =>
    have hnumber : number u32 (run ++ tail) = .ok (index, tail) :=
      number_eq_ok_iff.mpr (number_u32_iff.mpr ⟨run, rfl, hrun⟩)
    simp only [Token.op, Instr.op, hnumber, bind, Except.bind, hvalue]
    rfl

/-- The bytes up to an instruction's successor spell it, and the end has a byte of its own. -/
theorem next_eq_ok {op : UInt8} {found : Option (Value × List UInt32 × List UInt8)}
    (hok : next globals op expr = .ok found) :
    match found with
    | none => op = closingByte
    | some (v, more, tail) => ∃ (i : Instr) (run : List UInt8), (Token.instr i).Spells (op :: run) ∧
        expr = run ++ tail ∧ i.value? globals = some v ∧ more = i.reads := by
  rw [next] at hok
  cases hfound : Opcode.ofByte? op with
  | none =>
    rw [hfound] at hok
    cases hok
  | some code =>
    rw [hfound] at hok
    obtain rfl := Opcode.ofByte?_eq_some_iff.mp hfound
    cases code with
    | const type =>
      cases type <;> simp only [except_bind_eq_ok, except_pure_eq_ok, Prod.exists] at hok
      case i32 =>
        obtain ⟨n, tail, hnumber, rfl⟩ := hok
        obtain ⟨run, rfl, hrun⟩ := number_s32_iff.mp (number_eq_ok_iff.mp hnumber)
        exact ⟨.const32 n, run, ⟨run, rfl, hrun⟩, rfl, rfl, rfl⟩
      case i64 =>
        obtain ⟨n, tail, hnumber, rfl⟩ := hok
        obtain ⟨run, rfl, hrun⟩ := number_s64_iff.mp (number_eq_ok_iff.mp hnumber)
        exact ⟨.const64 n, run, ⟨run, rfl, hrun⟩, rfl, rfl, rfl⟩
    | globalGet =>
      simp only [except_bind_eq_ok, Prod.exists] at hok
      obtain ⟨index, tail, hnumber, hglobal⟩ := hok
      obtain ⟨run, rfl, hrun⟩ := number_u32_iff.mp (number_eq_ok_iff.mp hnumber)
      cases hv : globals[index.toNat]? with
      | none =>
        rw [hv] at hglobal
        cases hglobal
      | some v =>
        rw [hv] at hglobal
        cases hglobal
        exact ⟨.globalGet index, run, ⟨run, rfl, hrun⟩, rfl, hv, rfl⟩
    | close =>
      cases hok
      rfl
    | _ => cases hok

/-- An evaluation that has a value is at its end, or it goes on behind an instruction. -/
theorem watchFrom_eq_ok (hok : watchFrom globals (fuel + 1) stack reads expr = .ok e) :
    (∃ tail v, expr = closingByte :: tail ∧ stack = [v] ∧ e = ⟨v, tail, reads⟩) ∨
    ∃ (i : Instr) (head tail : List UInt8) (v : Value), (Token.instr i).Spells head ∧
      i.value? globals = some v ∧ expr = head ++ tail ∧
      watchFrom globals fuel (v :: stack) (reads ++ i.reads) tail = .ok e := by
  cases expr with
  | nil => cases hok
  | cons op expr =>
    simp only [watchFrom, except_bind_eq_ok] at hok
    obtain ⟨found, hnext, hok⟩ := hok
    have hfound := next_eq_ok hnext
    cases found with
    | none =>
      obtain rfl : op = closingByte := hfound
      cases stack with
      | nil => cases hok
      | cons v below =>
        cases below with
        | nil => exact .inl ⟨expr, v, rfl, rfl, (Except.ok.inj hok).symm⟩
        | cons => cases hok
    | some found =>
      obtain ⟨i, run, hspells, rfl, hvalue, hreads⟩ := hfound
      exact .inr ⟨i, op :: run, found.2.2, found.1, hspells, hvalue, rfl, hreads ▸ hok⟩

/-- Values on the stack stay there, so an evaluation with two of them has no value. -/
theorem watchFrom_ne_ok (hstack : 2 ≤ stack.length) :
    watchFrom globals fuel stack reads expr ≠ .ok e := by
  intro hok
  induction fuel generalizing stack reads expr with
  | zero => cases hok
  | succ fuel ih =>
    rcases watchFrom_eq_ok hok with ⟨tail, v, rfl, rfl, rfl⟩ | ⟨i, head, tail, v, -, -, -, hok⟩
    · simp at hstack
    · exact ih (by simp; omega) hok

/-- An expression has a value if it is one instruction that leaves it, up to its end. -/
theorem watch_eq_ok_iff :
    watch globals expr = .ok e ↔ ∃ (i : Instr) (head : List UInt8), (Token.instr i).Spells head ∧
      expr = head ++ closingByte :: e.rest ∧ i.value? globals = some e.value ∧
      e.reads = i.reads := by
  constructor
  · intro hok
    unfold watch at hok
    split at hok
    · cases hok
    rcases watchFrom_eq_ok hok with ⟨_, _, _, hstack, -⟩ |
      ⟨i, head, tail, v, hspells, hvalue, rfl, hok⟩
    · cases hstack
    have hlength : 0 < (head ++ tail).length := by
      rw [List.length_append]
      exact Nat.add_pos_left hspells.length_pos _
    obtain ⟨fuel, hfuel⟩ := Nat.exists_eq_add_one.mpr hlength
    rw [hfuel] at hok
    rcases watchFrom_eq_ok hok with ⟨rest, w, rfl, hstack, rfl⟩ | ⟨_, _, _, w, -, -, -, hok⟩
    · obtain rfl := (List.cons.inj hstack).1
      exact ⟨i, head, hspells, rfl, hvalue, rfl⟩
    · exact absurd hok (watchFrom_ne_ok (by simp))
  · rintro ⟨i, head, hspells, rfl, hvalue, hreads⟩
    obtain ⟨op, run, rfl⟩ := List.exists_cons_of_length_pos hspells.length_pos
    have hfirst := next_instr (closingByte :: e.rest) hspells hvalue
    rw [watch, List.cons_append, List.isEmpty_cons, if_neg Bool.false_ne_true, List.length_cons,
      watchFrom_of_value hfirst, List.length_append, List.length_cons, ← Nat.add_assoc,
      watchFrom_of_end (next_close e.rest), List.nil_append, ← hreads]

/-- An expression of one instruction has its value. -/
theorem eval_spelled {i : Instr} {head : List UInt8} {v : Value}
    (hspells : (Token.instr i).Spells head) (hvalue : i.value? globals = some v) :
    eval globals (head ++ [closingByte]) = .ok v := by
  have hwatch : watch globals (head ++ [closingByte]) = .ok ⟨v, [], i.reads⟩ :=
    watch_eq_ok_iff.mpr ⟨i, head, hspells, rfl, hvalue, rfl⟩
  rw [← map_watch, hwatch]
  rfl

end

end ConstExpr

/-! ## Checking -/

namespace Module

section

variable {types : List GlobalType} {i : Instr} {g : GlobalType}

/-- The checker goes on behind an instruction with the type of what it reads. -/
theorem step_source (hsource : i.source? types = some g) (s : Checker) :
    s.step (constScope types) i.op i.flat false =
      .ok (.more ((s.append i.flat).push [g.type])) := by
  cases i <;> simp only [Instr.source?, reduceCtorEq, Option.some.injEq] at hsource
  case const32 => subst hsource; rfl
  case const64 => subst hsource; rfl
  case globalGet index =>
    have hindex : (Instr.globalGet index).flat.index = index := Instr.index_flat rfl
    simp only [Instr.op, Checker.step, Scope.effect, constScope, hindex, hsource, Scope.require]
    rfl

/-- At the end of an expression the checker has one type, which has to be the expected one. -/
theorem step_close (scope : Scope) (i : Instruction) (expected given : IntType) :
    (((Checker.openBlock {} .function [expected.valueType]).append i).push [given.valueType]).step
        scope Token.close.op Token.close.flat true =
      if given = expected then
        .ok (.done
          { instructions := #[i, Token.close.flat]
            metrics := { maxNesting := 1, maxStack := 1, labels := 1 } })
      else .error (.typeMismatch expected.valueType given.valueType) := by
  cases expected <;> cases given <;> rfl

/-- Checking one instruction and its end compares the types and then looks for what may change. -/
theorem checkConst_instr (hints : ∀ g ∈ types, g.type.IsInt) {expected : IntType}
    {head : List UInt8} (hspells : (Token.instr i).Spells head)
    (hsource : i.source? types = some g) :
    checkConst types expected.valueType (head ++ [closingByte]) = .ok () ↔
      g = { type := expected.valueType, mutable := false } := by
  obtain ⟨given, hgiven⟩ : g.type.IsInt := by
    cases i <;> simp only [Instr.source?, reduceCtorEq, Option.some.injEq] at hsource
    case const32 => exact ⟨.i32, by rw [← hsource]; rfl⟩
    case const64 => exact ⟨.i64, by rw [← hsource]; rfl⟩
    case globalGet => exact hints g (List.mem_of_getElem? hsource)
  have hstep := step_source hsource (Checker.openBlock {} .function [expected.valueType])
  rw [hgiven] at hstep
  -- The checker compares the types; whether a global may change is looked at afterwards, on the
  -- flat instructions.
  have hchecked (body : Body) :
      check (constScope types) [expected.valueType] 0 (head ++ [closingByte]) = .ok body ↔
        given = expected ∧ body =
        { instructions := #[i.flat, Token.close.flat]
          metrics := { maxNesting := 1, maxStack := 1, labels := 1 } } := by
    have htokens : SpellsTokens [.instr i] head := ⟨head, [], by simp, hspells, rfl⟩
    rw [check_spelled_iff htokens]
    constructor
    · rintro ⟨s', ⟨t, ht, rfl⟩, hdone⟩
      cases hstep.symm.trans ht
      rw [step_close] at hdone
      split at hdone
      · rename_i htypes
        cases hdone
        exact ⟨htypes, rfl⟩
      · cases hdone
    · rintro ⟨rfl, rfl⟩
      exact ⟨_, ⟨_, hstep, rfl⟩, by rw [step_close, if_pos rfl]⟩
  have hflat : checkConstInstruction types i.flat = .ok () ↔ g.mutable = false := by
    cases i <;> simp only [Instr.source?, reduceCtorEq, Option.some.injEq] at hsource
    case const32 n =>
      have hop : (Instr.const32 n).flat.op? = some (.const .i32) :=
        Opcode.ofByte?_byte (.const .i32)
      rw [checkConstInstruction, hop, ← hsource]
      simp only
    case const64 n =>
      have hop : (Instr.const64 n).flat.op? = some (.const .i64) :=
        Opcode.ofByte?_byte (.const .i64)
      rw [checkConstInstruction, hop, ← hsource]
      simp only
    case globalGet index =>
      have hindex : (Instr.globalGet index).flat.index = index := Instr.index_flat rfl
      have hop : (Instr.globalGet index).flat.op? = some .globalGet :=
        Opcode.ofByte?_byte .globalGet
      rw [checkConstInstruction, hop, hindex]
      simp only [hsource]
      cases g.mutable <;> simp
  have hclose : checkConstInstruction types Token.close.flat = .ok () := by
    have hop : Token.close.flat.op? = some .close := Opcode.ofByte?_byte .close
    rw [checkConstInstruction, hop]
  obtain ⟨type, changes⟩ := g
  simp only at hgiven hflat
  subst hgiven
  unfold checkConst
  cases hcheck : check (constScope types) [expected.valueType] 0 (head ++ [closingByte]) with
  | error e =>
    constructor
    · intro hok
      cases hok
    · intro hsame
      have htypes := IntType.valueType_injective (congrArg GlobalType.type hsame)
      rw [(hchecked _).mpr ⟨htypes, rfl⟩] at hcheck
      cases hcheck
  | ok body =>
    obtain ⟨rfl, rfl⟩ := (hchecked body).mp hcheck
    simp [checkConstInstructions, hclose, hflat]

/-- An expression was checked if it is one instruction that reads what never changes, up to its
end. -/
theorem checkConst_iff (hints : ∀ g ∈ types, g.type.IsInt) {expected : ValueType}
    (hexpected : expected.IsInt) {expr : List UInt8} :
    checkConst types expected expr = .ok () ↔ ∃ (i : Instr) (head : List UInt8),
      (Token.instr i).Spells head ∧ expr = head ++ [closingByte] ∧
        i.source? types = some { type := expected, mutable := false } := by
  obtain ⟨width, rfl⟩ := hexpected
  constructor
  · intro hok
    obtain ⟨code, first, hspells, rfl, hconstant, htype⟩ := exists_code_of_checkConst hints hok
    obtain ⟨i, htokens, hconstant, htype⟩ := htype.exists_constant hconstant
    rw [Code.Spells, htokens] at hspells
    obtain ⟨head, _, rfl, hspells, rfl⟩ := hspells
    rw [List.append_nil] at hok ⊢
    obtain ⟨g, hsource⟩ : ∃ g, i.source? types = some g := by
      generalize ([] : List IntType) = ins, [width] = outs at htype
      cases htype with
      | const32 | const64 => exact ⟨_, rfl⟩
      | globalGet hglobal => exact ⟨_, hglobal⟩
      | _ => exact hconstant.elim
    refine ⟨i, head, hspells, rfl, ?_⟩
    rw [hsource, (checkConst_instr hints hspells hsource).mp hok]
  · rintro ⟨i, head, hspells, rfl, hsource⟩
    exact (checkConst_instr hints hspells hsource).mpr rfl

end

end Module

namespace ConstExpr

/-! ## Agreement -/

/-- An expression has a value of a type that is found without a byte left, and no global that it
reads can change. -/
def Settles (globals : List Global) (expected : ValueType) (expr : List UInt8) : Prop :=
  ∃ e, watch (globals.map (·.value)) expr = .ok e ∧ e.value.type = expected ∧ e.rest = [] ∧
    ∀ i ∈ e.reads, ∃ g, globals[i.toNat]? = some g ∧ g.type.mutable = false

/-- What settles an expression is one instruction and its end. -/
theorem settles_iff {globals : List Global} {expected : ValueType} {expr : List UInt8} :
    Settles globals expected expr ↔ ∃ (i : Instr) (head : List UInt8), (Token.instr i).Spells head ∧
      expr = head ++ [closingByte] ∧
        i.source? (globals.map (·.type)) = some { type := expected, mutable := false } := by
  constructor
  · rintro ⟨e, hwatch, htype, hrest, hreads⟩
    obtain ⟨i, head, hspells, rfl, hvalue, hi⟩ := watch_eq_ok_iff.mp hwatch
    refine ⟨i, head, hspells, by rw [hrest], ?_⟩
    rw [hi] at hreads
    subst htype
    cases i <;> simp only [Instr.value?, reduceCtorEq, Option.some.injEq] at hvalue
    case const32 => rw [← hvalue]; rfl
    case const64 => rw [← hvalue]; rfl
    case globalGet index =>
      obtain ⟨g, hg, hfixed⟩ := hreads index (by simp [Instr.reads])
      rw [List.getElem?_map, hg, Option.map_some, Option.some.injEq] at hvalue
      rw [Instr.source?, List.getElem?_map, hg, Option.map_some, ← hvalue, ← hfixed]
      rfl
  · rintro ⟨i, head, hspells, rfl, hsource⟩
    have hwatch {v : Value} (hvalue : i.value? (globals.map (·.value)) = some v) :
        watch (globals.map (·.value)) (head ++ [closingByte]) = .ok ⟨v, [], i.reads⟩ :=
      watch_eq_ok_iff.mpr ⟨i, head, hspells, rfl, hvalue, rfl⟩
    cases i <;> simp only [Instr.source?, reduceCtorEq, Option.some.injEq,
      GlobalType.mk.injEq] at hsource
    case const32 => exact ⟨_, hwatch rfl, hsource.1, rfl, by simp [Instr.reads]⟩
    case const64 => exact ⟨_, hwatch rfl, hsource.1, rfl, by simp [Instr.reads]⟩
    case globalGet index =>
      rw [List.getElem?_map, Option.map_eq_some_iff] at hsource
      obtain ⟨g, hg, htype⟩ := hsource
      refine ⟨_, hwatch (v := g.value) (by simp [Instr.value?, hg]), by
        rw [Global.value, htype], rfl, ?_⟩
      rintro _ (_ | ⟨_, ⟨⟩⟩)
      exact ⟨g, hg, by rw [htype]⟩

/-- An instruction of a constant expression is read as one. -/
theorem spelled_instr {types : List GlobalType} {i : Instr} {g : GlobalType} {head : List UInt8}
    (hspells : (Token.instr i).Spells head) (hsource : i.source? types = some g) :
    Spelled (head ++ [closingByte]) := by
  obtain ⟨run, rfl, hrun⟩ := hspells
  refine .more ?_ (.last .last)
  cases i <;> simp only [Instr.source?, reduceCtorEq] at hsource
  case const32 => exact .const32 hrun
  case const64 => exact .const64 hrun
  case globalGet => exact .global hrun

/-- The value is the constant that the bytes stand for, or that of the global that they name. -/
def Means (globals : List Global) (expr : List UInt8) (v : Value) : Prop :=
  (∃ run n, expr = 0x41 :: (run ++ [0x0b]) ∧ Leb128.decode s32 run = (.ok n, run.length) ∧
    v = .ofI32 n) ∨
  (∃ run n, expr = 0x42 :: (run ++ [0x0b]) ∧ Leb128.decode s64 run = (.ok n, run.length) ∧
    v = .ofI64 n) ∨
  ∃ run index g, expr = 0x23 :: (run ++ [0x0b]) ∧ Leb128.decode u32 run = (.ok index, run.length) ∧
    globals[index.toNat]? = some g ∧ v = g.value

/-- One instruction and its end mean the instruction's value. -/
theorem means_instr {globals : List Global} {i : Instr} {v : Value} {head : List UInt8}
    (hspells : (Token.instr i).Spells head) (hvalue : i.value? (globals.map (·.value)) = some v) :
    Means globals (head ++ [closingByte]) v := by
  obtain ⟨run, rfl, hrun⟩ := hspells
  cases i <;> simp only [Instr.value?, reduceCtorEq, Option.some.injEq] at hvalue
  case const32 n =>
    exact .inl ⟨run, n, rfl, (decode_eq_ok_iff s32_eq_ok_iff).mpr ⟨run, [], by simp, hrun, rfl⟩,
      hvalue.symm⟩
  case const64 n =>
    exact .inr (.inl ⟨run, n, rfl,
      (decode_eq_ok_iff s64_eq_ok_iff).mpr ⟨run, [], by simp, hrun, rfl⟩, hvalue.symm⟩)
  case globalGet index =>
    rw [List.getElem?_map, Option.map_eq_some_iff] at hvalue
    obtain ⟨g, hg, rfl⟩ := hvalue
    exact .inr (.inr ⟨run, index, g, rfl,
      (decode_eq_ok_iff u32_eq_ok_iff).mpr ⟨run, [], by simp, hrun, rfl⟩, hg, rfl⟩)

end ConstExpr

/-- A constant expression is checked for a type exactly if it has a value of that type that reads no
global that can change, for one choice of what the imported globals hold and then for all. This
value is the constant that is spelled out or that of the global; and the expression is read as it
stands from whatever begins with it. -/
theorem Module.checkConst_agrees {types : List GlobalType} (hints : ∀ g ∈ types, g.type.IsInt)
    {expected : ValueType} (hexpected : expected.IsInt) (expr : List UInt8) :
    (checkConst types expected expr = .ok () ↔
      ∀ globals : List Global, globals.map (·.type) = types →
        ConstExpr.Settles globals expected expr) ∧
    (checkConst types expected expr = .ok () ↔
      ∃ globals : List Global, globals.map (·.type) = types ∧
        ConstExpr.Settles globals expected expr) ∧
    (∀ values, (ConstExpr.watch values expr).map (·.value) = ConstExpr.eval values expr) ∧
    (checkConst types expected expr = .ok () →
      (∀ globals : List Global, globals.map (·.type) = types →
        ∃ v, ConstExpr.eval (globals.map (·.value)) expr = .ok v ∧ v.type = expected ∧
          ConstExpr.Means globals expr v) ∧
      ∀ (c : Cursor) (more : List UInt8), c.rest = expr ++ more →
        readConstExpr c =
          .ok expr { c with rest := more, consumed := c.consumed + expr.length }) := by
  have hsettles {globals : List Global} (htypes : globals.map (·.type) = types) :
      checkConst types expected expr = .ok () ↔ ConstExpr.Settles globals expected expr := by
    rw [checkConst_iff hints hexpected, ConstExpr.settles_iff, htypes]
  have hsome : ∃ globals : List Global, globals.map (·.type) = types :=
    ⟨types.map fun type => { type, bits := 0 }, by simp [Function.comp_def]⟩
  refine ⟨⟨fun hok globals htypes => (hsettles htypes).mp hok, fun hall => ?_⟩,
    ⟨fun hok => ?_, fun ⟨globals, htypes, h⟩ => (hsettles htypes).mpr h⟩,
    fun values => ConstExpr.map_watch values expr, fun hok => ⟨fun globals htypes => ?_, ?_⟩⟩
  · obtain ⟨globals, htypes⟩ := hsome
    exact (hsettles htypes).mpr (hall globals htypes)
  · obtain ⟨globals, htypes⟩ := hsome
    exact ⟨globals, htypes, (hsettles htypes).mp hok⟩
  · obtain ⟨e, hwatch, htype, hrest, -⟩ := (hsettles htypes).mp hok
    obtain ⟨i, head, hspells, rfl, hvalue, -⟩ := ConstExpr.watch_eq_ok_iff.mp hwatch
    rw [hrest]
    exact ⟨e.value, ConstExpr.eval_spelled hspells hvalue, htype,
      ConstExpr.means_instr hspells hvalue⟩
  · obtain ⟨i, head, hspells, rfl, hsource⟩ := (checkConst_iff hints hexpected).mp hok
    exact fun c more hrest =>
      ConstExpr.reads_readConstExpr.ok hrest ⟨rfl, ConstExpr.spelled_instr hspells hsource⟩

/-- The offset of a segment may be an imported global that never changes, with its index padded. -/
theorem Module.checkConst_agrees_padded :
    (∀ g ∈ [({ type := .i32, mutable := false } : GlobalType)], g.type.IsInt) ∧
      ValueType.IsInt .i32 ∧
      checkConst [{ type := .i32, mutable := false }] .i32 [0x23, 0x80, 0x00, 0x0b] = .ok () ∧
      ∃ v, ConstExpr.eval [⟨.i32, 7⟩] [0x23, 0x80, 0x00, 0x0b] = .ok v ∧ v.type = .i32 ∧
        ConstExpr.Means [⟨{ type := .i32, mutable := false }, 7⟩] [0x23, 0x80, 0x00, 0x0b] v := by
  have hints : ∀ g ∈ [({ type := .i32, mutable := false } : GlobalType)], g.type.IsInt := by
    rintro _ (_ | ⟨_, ⟨⟩⟩)
    exact ⟨.i32, rfl⟩
  have hexpected : ValueType.IsInt .i32 := ⟨.i32, rfl⟩
  obtain ⟨-, -, -, hvalue⟩ := Module.checkConst_agrees hints hexpected [0x23, 0x80, 0x00, 0x0b]
  have hok : checkConst [{ type := .i32, mutable := false }] .i32
      [0x23, 0x80, 0x00, 0x0b] = .ok () := by
    decide +kernel
  exact ⟨hints, hexpected, hok, (hvalue hok).1 [⟨{ type := .i32, mutable := false }, 7⟩] rfl⟩

end IntWasm
