import IntWasm.Proofs.Structured.Effects

/-!
# Checking single instructions

`Instr.Checks` says what checking an instruction does to the operands of the innermost block and to
its reachability, without the state that the checker keeps. Main statements: a step of the checker
on an instruction that opens no block succeeds exactly in these cases, and then nothing but the
operands, the reachability and the record of instructions changes.
-/

namespace IntWasm.Structured

open Body

/-- The instructions after which the rest of a block cannot be reached, and what they take. -/
inductive Instr.Jumps (c : Context) : Instr → List IntType → Prop
  | unreachable : Jumps c .unreachable []
  | br {label type} (hlabel : c.labels[label.toNat]? = some type) : Jumps c (.br label) type.toList
  | brTable {labels default type} (hdefault : c.labels[default.toNat]? = some type)
      (hlabels : ∀ label ∈ labels, c.labels[label.toNat]? = some type) :
    Jumps c (.brTable labels default) (.i32 :: type.toList)
  | ret : Jumps c .ret c.result.toList

/-- The instructions that go on and for which the rules fix all types. -/
def Instr.isSteady : Instr → Bool
  | .unreachable | .br _ | .brTable _ _ | .ret | .drop | .select => false
  | _ => true

/-- What an instruction does to the operands of its block, which may be unreachable. -/
inductive Instr.Checks (c : Context) (dead : Bool) (mine : List ValueType) :
    Instr → Bool → List ValueType → Prop
  | steady {i ins outs rest} (hsteady : i.isSteady = true) (htype : i.HasType c ins outs)
      (hpops : Pops dead mine ins rest) :
    Checks c dead mine i dead (outs.map IntType.valueType ++ rest)
  | drop {a rest} (htakes : Takes dead mine a rest) : Checks c dead mine .drop dead rest
  | select {second first rest₁ rest₂ rest₃} (hcondition : Pops dead mine [.i32] rest₁)
      (hsecond : Takes dead rest₁ second rest₂) (hfirst : Takes dead rest₂ first rest₃)
      (hagree : second = .any ∨ first = .any ∨ first = second) :
    Checks c dead mine .select dead ((if second = .any then first else second) :: rest₃)
  | jump {i ins rest} (hjumps : i.Jumps c ins) (hpops : Pops dead mine ins rest) :
    Checks c dead mine i true []

/-! ## The enclosing blocks -/

/-- The open blocks of a checker are those of a context. -/
structure Sees (s : Checker) (c : Context) : Prop where
  labels_eq : s.blocks.map Block.branchTypes = c.labels.map results
  result_eq : s.blocks.getLast?.map Block.results = some (results c.result)

/-- Block types have different results. -/
theorem results_injective {a b : BlockType} (heq : results a = results b) : a = b := by
  rcases a with _ | a <;> rcases b with _ | b
  · rfl
  · cases heq
  · cases heq
  · simp only [results, Option.toList_some, List.map_cons, List.map_nil, List.cons.injEq,
      and_true] at heq
    rw [IntType.valueType_injective heq]

/-- The results of a block type, the topmost last. -/
theorem results_eq (type : BlockType) :
    results type = type.toList.reverse.map IntType.valueType := by
  cases type <;> rfl

/-- The checker knows the labels that code sees. -/
theorem Sees.branchTypes_iff {s : Checker} {c : Context} (hsees : Sees s c) {n : Nat}
    {types : List ValueType} :
    s.branchTypes n = .ok types ↔ ∃ type, c.labels[n]? = some type ∧ types = results type := by
  have hlabels : (s.blocks[n]?).map Block.branchTypes = (c.labels[n]?).map results := by
    rw [← List.getElem?_map, hsees.labels_eq, List.getElem?_map]
  unfold Checker.branchTypes
  cases hblock : s.blocks[n]? with
  | none =>
    rw [hblock] at hlabels
    simp [Option.map_eq_none_iff.mp hlabels.symm]
  | some b =>
    rw [hblock] at hlabels
    obtain ⟨type, htype, hresults⟩ := Option.map_eq_some_iff.mp hlabels.symm
    simp [htype, ← hresults, eq_comm]

/-- The labels of a table have the type of the default. -/
theorem Sees.checkCases_iff {s : Checker} {c : Context} (hsees : Sees s c) {type : BlockType}
    {labels : List UInt32} {u : Unit} :
    s.checkCases (results type) (labels.map fun l => (l.toNat : Int)) = .ok u ↔
      ∀ label ∈ labels, c.labels[label.toNat]? = some type := by
  induction labels with
  | nil => simp [Checker.checkCases]
  | cons label labels ih =>
    simp only [List.map_cons, Checker.checkCases, except_bind_eq_ok, Int.toNat_natCast,
      hsees.branchTypes_iff, List.forall_mem_cons]
    constructor
    · rintro ⟨_, ⟨other, hother, rfl⟩, hok⟩
      split at hok
      · simp at hok
      · rename_i hsame
        obtain rfl := results_injective (not_not.mp hsame)
        exact ⟨hother, ih.mp hok⟩
    · rintro ⟨hfirst, hmore⟩
      refine ⟨_, ⟨type, hfirst, rfl⟩, ?_⟩
      simpa using ih.mpr hmore

/-! ## Steps -/

/-- What a step on an instruction that opens no block leaves alone: it adds the instruction and lets
the noted sizes grow, so that they still bound the stacks. -/
structure Advances (s : Checker) (i : Instruction) (s' : Checker) : Prop where
  instructions_eq : s'.instructions = s.instructions.push i
  nesting_eq : s'.metrics.maxNesting = s.metrics.maxNesting
  maxStack_le : s.metrics.maxStack ≤ s'.metrics.maxStack
  stack_fits : s.stack.length ≤ s.metrics.maxStack → s'.stack.length ≤ s'.metrics.maxStack

section

variable {c : Context} {s s' : Checker} {b : Block} {outer : List Block}
  {mine below : List ValueType} {i : Instr} {last : Bool}

/-- The checker after operands were replaced by others, which are listed lowest first. -/
def pushed (s : Checker) (i : Instr) (stack types : List ValueType) : Checker :=
  ({ s with stack }.append i.flat).push types

/-- An instruction leaves its results among the block's operands. -/
theorem Inside.pushed (hinside : Inside s b outer mine below) (rest : List ValueType)
    (types : List IntType) :
    Inside (pushed s i (rest ++ below) (types.reverse.map IntType.valueType)) b outer
      (types.map IntType.valueType ++ rest) below := by
  refine ⟨hinside.blocks_eq, ?_, hinside.height_eq⟩
  simp [Structured.pushed, Checker.push, Checker.append, ← List.map_reverse]

/-- An instruction that pushes operands advances the code. -/
theorem advances_pushed (stack types : List ValueType) :
    Advances s i.flat (pushed s i stack types) := by
  refine ⟨rfl, rfl, ?_, fun _ => ?_⟩
  · exact le_max_left _ _
  · exact le_max_right _ _

/-- The checker after a jump. -/
def jumped (s : Checker) (i : Instr) (stack : List ValueType) : Checker :=
  ({ s with stack }.append i.flat).jump

/-- After a jump the block is unreachable and its stack is as it was entered. -/
theorem Inside.jumped (hinside : Inside s b outer mine below) (rest : List ValueType) :
    Inside (jumped s i (rest ++ below)) { b with unreachable := true } outer [] below := by
  have hstack : (rest ++ below).drop ((rest ++ below).length - b.height) = below := by
    simp [hinside.height_eq]
  refine ⟨?_, ?_, hinside.height_eq⟩
  · simp [Structured.jumped, Checker.jump, Checker.append, hinside.blocks_eq]
  · simpa [Structured.jumped, Checker.jump, Checker.append, hinside.blocks_eq] using hstack

/-- A jump advances the code. -/
theorem Inside.advances_jumped (hinside : Inside s b outer mine below) (rest : List ValueType) :
    Advances s i.flat (Structured.jumped s i (rest ++ below)) := by
  have hstack := (hinside.jumped (i := i) rest).stack_eq
  have hlength := congrArg List.length hinside.stack_eq
  refine ⟨?_, ?_, ?_, ?_⟩
  · simp [Structured.jumped, Checker.jump, Checker.append, hinside.blocks_eq]
  · simp [Structured.jumped, Checker.jump, Checker.append, hinside.blocks_eq]
  · simp [Structured.jumped, Checker.jump, Checker.append, hinside.blocks_eq]
  · intro hfits
    rw [hstack]
    simp only [Structured.jumped, Checker.jump, Checker.append, hinside.blocks_eq]
    simp only [List.length_append] at hlength
    simp only [List.nil_append]
    omega

/-- An instruction that has an effect is checked by it. -/
theorem step_of_hasEffect (scope : Scope) (heffect : i.hasEffect = true) :
    s.step scope i.op i.flat last = (do
      let effect ← scope.effect i.op i.flat
      let s ← s.popTypes effect.takes
      return .more ((s.append i.flat).push effect.gives)) := by
  cases i <;> simp only [Instr.hasEffect, Bool.false_eq_true] at heffect <;> rfl

/-- The checker accepts an instruction with fixed types exactly if they are on the stack. -/
theorem Inside.step_steady_iff (hinside : Inside s b outer mine below) (hproper : c.scope.Proper)
    (hsees : Sees s c) (hsteady : i.isSteady = true) :
    s.step c.scope i.op i.flat last = .ok (.more s') ↔
      ∃ ins outs rest, i.HasType c ins outs ∧ Pops b.unreachable mine ins rest ∧
        s' = Structured.pushed s i (rest ++ below) (outs.reverse.map IntType.valueType) := by
  by_cases heffect : i.hasEffect = true
  · simp only [step_of_hasEffect c.scope heffect, except_bind_eq_ok, effect_iff hproper heffect]
    constructor
    · rintro ⟨_, ⟨ins, outs, htype, rfl⟩, _, hpops, hdone⟩
      obtain ⟨rest, hrest, rfl⟩ := hinside.popTypes_iff.mp hpops
      cases hdone
      exact ⟨ins, outs, rest, htype, hrest, rfl⟩
    · rintro ⟨ins, outs, rest, htype, hrest, rfl⟩
      exact ⟨_, ⟨ins, outs, htype, rfl⟩, _, hinside.popTypes_iff.mpr ⟨rest, hrest, rfl⟩, rfl⟩
  · obtain ⟨label, rfl⟩ : ∃ label, i = .brIf label := by
      cases i <;> simp_all [Instr.isSteady, Instr.hasEffect]
    simp only [Instr.op, Checker.step, except_bind_eq_ok, hsees.branchTypes_iff,
      Instr.index_flat (i := .brIf label) (n := label) rfl]
    rw [← IntType.valueType_i32]
    simp only [hinside.popType_iff]
    constructor
    · rintro ⟨_, ⟨type, htype, rfl⟩, _, ⟨inner, hcondition, rfl⟩, _, hpops, hdone⟩
      rw [results_eq] at hpops
      obtain ⟨rest, hrest, rfl⟩ := (hinside.withStack inner).popTypes_iff.mp hpops
      cases hdone
      refine ⟨_, _, rest, .brIf htype, ?_, by rw [results_eq]; rfl⟩
      exact pops_cons_iff_split.mpr ⟨inner, hcondition, hrest⟩
    · rintro ⟨_, _, rest, ⟨⟩, hpops, rfl⟩
      rename_i type htype
      obtain ⟨inner, hcondition, hrest⟩ := pops_cons_iff_split.mp hpops
      have hmore := (hinside.withStack inner).popTypes_iff.mpr ⟨rest, hrest, rfl⟩
      rw [← results_eq] at hmore ⊢
      exact ⟨_, ⟨type, htype, rfl⟩, _, ⟨inner, hcondition, rfl⟩, _, hmore, rfl⟩

/-- The checker accepts `drop` exactly if there is an operand. -/
theorem Inside.step_drop_iff (hinside : Inside s b outer mine below) :
    s.step c.scope Instr.drop.op Instr.drop.flat last = .ok (.more s') ↔
      ∃ a rest, Takes b.unreachable mine a rest ∧
        s' = ({ s with stack := rest ++ below } : Checker).append Instr.drop.flat := by
  simp only [Instr.op, Checker.step, except_bind_eq_ok, Prod.exists, hinside.pop_iff]
  constructor
  · rintro ⟨a, _, ⟨rest, htakes, rfl⟩, hdone⟩
    cases hdone
    exact ⟨a, rest, htakes, rfl⟩
  · rintro ⟨a, rest, htakes, rfl⟩
    exact ⟨a, _, ⟨rest, htakes, rfl⟩, rfl⟩

/-- The checker accepts `select` exactly for a condition and two operands of one type, as far as
they are known. -/
theorem Inside.step_select_iff (hinside : Inside s b outer mine below) :
    s.step c.scope Instr.select.op Instr.select.flat last = .ok (.more s') ↔
      ∃ second first rest₁ rest₂ rest₃, Pops b.unreachable mine [.i32] rest₁ ∧
        Takes b.unreachable rest₁ second rest₂ ∧ Takes b.unreachable rest₂ first rest₃ ∧
        (second = .any ∨ first = .any ∨ first = second) ∧
        s' = Structured.pushed s .select (rest₃ ++ below)
          [if second = .any then first else second] := by
  simp only [Instr.op, Checker.step, except_bind_eq_ok, Prod.exists]
  rw [← IntType.valueType_i32]
  simp only [hinside.popType_iff]
  constructor
  · rintro ⟨_, ⟨rest₁, hcondition, rfl⟩, second, _, hsecond, first, _, hfirst, hdone⟩
    obtain ⟨rest₂, htakes₂, rfl⟩ := (hinside.withStack rest₁).pop_iff.mp hsecond
    obtain ⟨rest₃, htakes₃, rfl⟩ := (hinside.withStack rest₂).pop_iff.mp hfirst
    refine ⟨second, first, rest₁, rest₂, rest₃, hcondition, htakes₂, htakes₃, ?_⟩
    -- The result has the type of the second operand, unless only the first one is known.
    by_cases hany : second = .any
    · simp only [hany, if_true] at hdone
      cases hdone
      exact ⟨.inl hany, by simp only [hany, if_true]; rfl⟩
    · simp only [hany, if_false] at hdone
      split at hdone
      · simp at hdone
      · rename_i hagree
        cases hdone
        refine ⟨.inr ?_, by simp only [hany, if_false]; rfl⟩
        by_cases hfirst : first = .any
        · exact .inl hfirst
        · exact .inr (by simpa [hfirst] using hagree)
  · rintro ⟨second, first, rest₁, rest₂, rest₃, hcondition, hsecond, hfirst, hagree, rfl⟩
    refine ⟨_, ⟨rest₁, hcondition, rfl⟩, second, _,
      (hinside.withStack rest₁).pop_iff.mpr ⟨rest₂, hsecond, rfl⟩, first, _,
      (hinside.withStack rest₂).pop_iff.mpr ⟨rest₃, hfirst, rfl⟩, ?_⟩
    by_cases hany : second = .any
    · simp only [hany, if_true]
      rfl
    · have hfits : ¬ (first ≠ .any ∧ first ≠ second) := by
        rcases hagree with h | h | h
        · exact absurd h hany
        · simp [h]
        · simp [h]
      simp only [hany, hfits, if_false]
      rfl

/-- The checker accepts a jump exactly if what it takes is on the stack. -/
theorem Inside.step_jump_iff (hinside : Inside s b outer mine below) (hsees : Sees s c)
    (hsteady : i.isSteady = false) (hdrop : i ≠ .drop) (hselect : i ≠ .select) :
    s.step c.scope i.op i.flat last = .ok (.more s') ↔
      ∃ ins rest, i.Jumps c ins ∧ Pops b.unreachable mine ins rest ∧
        s' = Structured.jumped s i (rest ++ below) := by
  -- In each direction the types that the checker pops are those that the label asks for, and the
  -- rest of the stack is not looked at.
  cases i <;> simp only [Instr.isSteady, Bool.true_eq_false, ne_eq, not_true_eq_false] at *
  case unreachable =>
    simp only [Instr.op, Checker.step]
    constructor
    · intro hdone
      cases hdone
      exact ⟨[], mine, .unreachable, .nil, by rw [← hinside.stack_eq]; rfl⟩
    · rintro ⟨_, rest, ⟨⟩, hpops, rfl⟩
      rw [← pops_nil_iff.mp hpops, ← hinside.stack_eq]
      rfl
  case br label =>
    simp only [Instr.op, Checker.step, except_bind_eq_ok, hsees.branchTypes_iff,
      Instr.index_flat (i := .br label) (n := label) rfl]
    constructor
    · rintro ⟨_, ⟨type, htype, rfl⟩, _, hpops, hdone⟩
      rw [results_eq] at hpops
      obtain ⟨rest, hrest, rfl⟩ := hinside.popTypes_iff.mp hpops
      cases hdone
      exact ⟨_, rest, .br htype, hrest, rfl⟩
    · rintro ⟨_, rest, ⟨⟩, hrest, rfl⟩
      rename_i type htype
      have hmore := hinside.popTypes_iff.mpr ⟨rest, hrest, rfl⟩
      rw [← results_eq] at hmore
      exact ⟨_, ⟨type, htype, rfl⟩, _, hmore, rfl⟩
  case brTable labels default =>
    simp only [Instr.op, Checker.step, except_bind_eq_ok, hsees.branchTypes_iff,
      Instr.index_flat (i := .brTable labels default) (n := default) rfl]
    rw [← IntType.valueType_i32]
    simp only [hinside.popType_iff]
    constructor
    · rintro ⟨_, ⟨type, htype, rfl⟩, _, hlabels, _, ⟨inner, hcondition, rfl⟩, _, hpops, hdone⟩
      have hcases := hsees.checkCases_iff.mp hlabels
      rw [results_eq] at hpops
      obtain ⟨rest, hrest, rfl⟩ := (hinside.withStack inner).popTypes_iff.mp hpops
      cases hdone
      refine ⟨_, rest, .brTable htype hcases, ?_, rfl⟩
      exact pops_cons_iff_split.mpr ⟨inner, hcondition, hrest⟩
    · rintro ⟨_, rest, ⟨⟩, hpops, rfl⟩
      rename_i type hcases htype
      obtain ⟨inner, hcondition, hrest⟩ := pops_cons_iff_split.mp hpops
      have hmore := (hinside.withStack inner).popTypes_iff.mpr ⟨rest, hrest, rfl⟩
      rw [← results_eq] at hmore
      exact ⟨_, ⟨type, htype, rfl⟩, ⟨⟩, hsees.checkCases_iff.mpr hcases, _,
        ⟨inner, hcondition, rfl⟩, _, hmore, rfl⟩
  case ret =>
    simp only [Instr.op, Checker.step, except_bind_eq_ok, hsees.result_eq, Option.getD_some,
      results_eq, hinside.popTypes_iff]
    constructor
    · rintro ⟨_, ⟨rest, hrest, rfl⟩, hdone⟩
      cases hdone
      exact ⟨_, rest, .ret, hrest, rfl⟩
    · rintro ⟨_, rest, ⟨⟩, hrest, rfl⟩
      exact ⟨_, ⟨rest, hrest, rfl⟩, rfl⟩

/-- A step on an instruction checks it and changes only the operands of the innermost block. -/
theorem Inside.checks_of_step (hinside : Inside s b outer mine below) (hproper : c.scope.Proper)
    (hsees : Sees s c) (hok : s.step c.scope i.op i.flat last = .ok (.more s')) :
    ∃ dead' mine', i.Checks c b.unreachable mine dead' mine' ∧
      Inside s' { b with unreachable := dead' } outer mine' below ∧ Advances s i.flat s' := by
  by_cases hsteady : i.isSteady = true
  · obtain ⟨ins, outs, rest, htype, hpops, rfl⟩ :=
      (hinside.step_steady_iff hproper hsees hsteady).mp hok
    exact ⟨_, _, .steady hsteady htype hpops, hinside.pushed rest outs, advances_pushed _ _⟩
  by_cases hdrop : i = .drop
  · subst hdrop
    obtain ⟨a, rest, htakes, rfl⟩ := hinside.step_drop_iff.mp hok
    refine ⟨_, _, .drop htakes, ⟨hinside.blocks_eq, rfl, hinside.height_eq⟩, rfl, rfl, le_rfl,
      fun hfits => ?_⟩
    have hlength := congrArg List.length hinside.stack_eq
    have hrest : rest.length ≤ mine.length := by
      rcases htakes with rfl | ⟨-, -, -, rfl⟩ <;> simp
    simp only [List.length_append, Checker.append] at hlength ⊢
    omega
  by_cases hselect : i = .select
  · subst hselect
    obtain ⟨second, first, rest₁, rest₂, rest₃, hcondition, hsecond, hfirst, hagree, rfl⟩ :=
      hinside.step_select_iff.mp hok
    refine ⟨_, _, .select hcondition hsecond hfirst hagree, ?_, advances_pushed _ _⟩
    exact ⟨hinside.blocks_eq, rfl, hinside.height_eq⟩
  · obtain ⟨ins, rest, hjumps, hpops, rfl⟩ :=
      (hinside.step_jump_iff hsees (by simpa using hsteady) hdrop hselect).mp hok
    exact ⟨_, _, .jump hjumps hpops, hinside.jumped rest, hinside.advances_jumped rest⟩

/-- Wherever an instruction checks, the checker makes a step. -/
theorem Inside.step_of_checks (hinside : Inside s b outer mine below) (hproper : c.scope.Proper)
    (hsees : Sees s c) {dead' : Bool} {mine' : List ValueType}
    (hchecks : i.Checks c b.unreachable mine dead' mine') :
    ∃ s', s.step c.scope i.op i.flat false = .ok (.more s') ∧
      Inside s' { b with unreachable := dead' } outer mine' below := by
  cases hchecks with
  | @steady _ _ outs rest hsteady htype hpops =>
    exact ⟨_, (hinside.step_steady_iff hproper hsees hsteady).mpr ⟨_, _, _, htype, hpops, rfl⟩,
      hinside.pushed rest outs⟩
  | drop htakes =>
    exact ⟨_, hinside.step_drop_iff.mpr ⟨_, _, htakes, rfl⟩, hinside.blocks_eq, rfl,
      hinside.height_eq⟩
  | select hcondition hsecond hfirst hagree =>
    exact ⟨_, hinside.step_select_iff.mpr ⟨_, _, _, _, _, hcondition, hsecond, hfirst, hagree, rfl⟩,
      hinside.blocks_eq, rfl, hinside.height_eq⟩
  | @jump _ ins rest hjumps hpops =>
    have hsteady : i.isSteady = false := by cases hjumps <;> rfl
    have hdrop : i ≠ .drop := by cases hjumps <;> simp
    have hselect : i ≠ .select := by cases hjumps <;> simp
    exact ⟨_, (hinside.step_jump_iff hsees hsteady hdrop hselect).mpr ⟨_, _, hjumps, hpops, rfl⟩,
      hinside.jumped rest⟩

end

end IntWasm.Structured
