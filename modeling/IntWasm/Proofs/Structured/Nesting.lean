import IntWasm.Proofs.Structured.Checking
import IntWasm.Proofs.Structured.Reading

/-!
# Checked bodies are properly nested

Checking a body is a run of checker steps, one for each token that the body spells, and a last step
on the token that closes the function. The blocks that are open at any time are those that the
tokens so far have opened and not closed, so a body that is accepted spells the tokens of some code.
-/

namespace IntWasm.Structured

open Body

/-! ## Runs of the checker -/

/-- The checker gets from one state to another by one step for each token. -/
def Runs (scope : Scope) : Checker → List Token → Checker → Prop
  | s, [], s' => s = s'
  | s, token :: tokens, s' =>
    ∃ t, s.step scope token.op token.flat false = .ok (.more t) ∧ Runs scope t tokens s'

/-- A run over tokens goes on over more of them. -/
theorem runs_append {scope : Scope} {s s' : Checker} {tokens more : List Token} :
    Runs scope s (tokens ++ more) s' ↔ ∃ t, Runs scope s tokens t ∧ Runs scope t more s' := by
  induction tokens generalizing s with
  | nil => simp [Runs]
  | cons token tokens ih =>
    simp only [List.cons_append, Runs, ih]
    constructor
    · rintro ⟨t, hstep, u, hfirst, hmore⟩
      exact ⟨u, ⟨t, hstep, hfirst⟩, hmore⟩
    · rintro ⟨u, ⟨t, hstep, hfirst⟩, hmore⟩
      exact ⟨t, hstep, u, hfirst, hmore⟩

/-- Only the end of a body depends on whether bytes follow. -/
theorem step_more_iff {scope : Scope} {s s' : Checker} {op : Opcode} {i : Instruction}
    {last : Bool} :
    s.step scope op i last = .ok (.more s') ↔ s.step scope op i false = .ok (.more s') := by
  cases op <;> try rfl
  cases last
  · rfl
  · simp only [Checker.step, except_bind_eq_ok, Prod.exists]
    refine exists_congr fun b => exists_congr fun t => and_congr_right fun _ => ?_
    cases b.opener <;> simp

/-- A body ends with the instruction that closes it, after which no bytes follow. -/
theorem step_done {scope : Scope} {s : Checker} {op : Opcode} {i : Instruction} {last : Bool}
    {body : Body} (hdone : s.step scope op i last = .ok (.done body)) :
    op = .close ∧ last = true := by
  cases op <;> simp only [Checker.step, except_bind_eq_ok, except_pure_eq_ok, Prod.exists,
    reduceCtorEq, and_false, exists_false] at hdone
  case select =>
    obtain ⟨_, -, second, _, -, first, _, -, hdone⟩ := hdone
    split at hdone
    · simp at hdone
    · split at hdone <;> simp at hdone
  case otherwise =>
    split at hdone
    · simp at hdone
    · simp only [except_bind_eq_ok, Prod.exists] at hdone
      obtain ⟨b, _, -, hdone⟩ := hdone
      split at hdone <;> simp at hdone
  case close =>
    obtain ⟨b, _, -, hdone⟩ := hdone
    refine ⟨rfl, ?_⟩
    split at hdone
    · by_contra hlast
      simp [hlast] at hdone
    · split at hdone <;> simp at hdone
    · simp at hdone

/-- The byte that closes a block or a body. -/
def closingByte : UInt8 := Opcode.close.byte

/-- The end of a block has one spelling. -/
theorem spells_close_iff {token : Token} {bytes : List UInt8} (hspells : token.Spells bytes)
    (hop : token.op = .close) : token = .close ∧ bytes = [closingByte] := by
  obtain ⟨more, rfl, hmore⟩ := hspells
  cases token with
  | instr i => cases i <;> cases hop
  | close =>
    cases hmore
    exact ⟨rfl, rfl⟩
  | block type | loop type | ifThen type | otherwise => cases hop

/-- Every token has bytes. -/
theorem Token.Spells.length_pos {token : Token} {bytes : List UInt8}
    (hspells : token.Spells bytes) : 0 < bytes.length := by
  obtain ⟨more, rfl, -⟩ := hspells
  simp

/-- An instruction that cannot be read ends the check at its place. -/
theorem checkFrom_of_error {scope : Scope} {size fuel : Nat} {bytes : List UInt8} {s : Checker}
    {fault : Fault} (hread : Instruction.ofBytes bytes = .error fault) :
    checkFrom scope size (fuel + 1) bytes s = .error (fault, size - bytes.length) := by
  rw [checkFrom, hread]

/-- Checking goes on behind the instruction that a body begins with, if that is supported. -/
theorem checkFrom_of_read {scope : Scope} {size fuel : Nat} {bytes rest : List UInt8} {s : Checker}
    {i : Instruction} (hread : Instruction.ofBytes bytes = .ok (i, rest)) :
    checkFrom scope size (fuel + 1) bytes s =
      match i.op? with
      | none => .error (.decode (Instruction.refusal none i.opcode), size - bytes.length)
      | some op =>
        match s.step scope op i rest.isEmpty with
        | .error rule => .error (.decode (.broken rule), size - bytes.length)
        | .ok (.done body) => .ok body
        | .ok (.more s) => checkFrom scope size fuel rest s := by
  rewrite [checkFrom, hread]
  -- To look the opcode up the kernel would have to build the table of opcodes.
  generalize Instruction.op? = find
  as_aux_lemma => rfl

/-- Checking goes on behind the token that a body begins with. -/
theorem checkFrom_token {scope : Scope} {size fuel : Nat} {bytes rest : List UInt8} {s : Checker}
    {token : Token} (hread : Instruction.ofBytes bytes = .ok (token.flat, rest)) :
    checkFrom scope size (fuel + 1) bytes s =
      match s.step scope token.op token.flat rest.isEmpty with
      | .error rule => .error (.decode (.broken rule), size - bytes.length)
      | .ok (.done body) => .ok body
      | .ok (.more s) => checkFrom scope size fuel rest s := by
  rw [checkFrom_of_read hread, Token.op?_flat]

/-- What accepted bytes spell from a given state of the checker on. -/
theorem exists_runs_of_checkFrom {scope : Scope} {size fuel : Nat} {bytes : List UInt8}
    {s : Checker} {body : Body} (hok : checkFrom scope size fuel bytes s = .ok body) :
    ∃ tokens first s', bytes = first ++ [closingByte] ∧ SpellsTokens tokens first ∧
      Runs scope s tokens s' ∧
      s'.step scope Token.close.op Token.close.flat true = .ok (.done body) := by
  induction fuel generalizing bytes s with
  | zero => cases hok
  | succ fuel ih =>
    cases hread : Instruction.ofBytes bytes with
    | error fault =>
      rw [checkFrom_of_error hread] at hok
      cases hok
    | ok found =>
      obtain ⟨i, rest⟩ := found
      obtain ⟨token, first, hspells, rfl, rfl⟩ := exists_token_of_ofBytes hread
      rw [checkFrom_token hread] at hok
      cases hstep : s.step scope token.op token.flat rest.isEmpty with
      | error rule => simp [hstep] at hok
      | ok progress =>
        cases progress with
        | done found =>
          simp only [hstep, Except.ok.injEq] at hok
          subst hok
          obtain ⟨hop, hlast⟩ := step_done hstep
          obtain ⟨rfl, rfl⟩ := spells_close_iff hspells hop
          obtain rfl : rest = [] := by simpa using hlast
          exact ⟨[], [], s, rfl, rfl, rfl, hstep⟩
        | more t =>
          simp only [hstep] at hok
          obtain ⟨tokens, more, s', rfl, hmore, hruns, hdone⟩ := ih hok
          refine ⟨token :: tokens, first ++ more, s', by simp, ⟨first, more, rfl, hspells, hmore⟩,
            ⟨t, step_more_iff.mp hstep, hruns⟩, hdone⟩

/-- Spelled tokens are checked by a run of steps. -/
theorem checkFrom_of_runs {scope : Scope} {size fuel : Nat} {tokens : List Token}
    {bytes : List UInt8} {s s' : Checker} {body : Body} (hspells : SpellsTokens tokens bytes)
    (hruns : Runs scope s tokens s')
    (hdone : s'.step scope Token.close.op Token.close.flat true = .ok (.done body))
    (hfuel : bytes.length < fuel) :
    checkFrom scope size fuel (bytes ++ [closingByte]) s = .ok body := by
  induction tokens generalizing bytes s fuel with
  | nil =>
    cases hspells
    cases hruns
    obtain ⟨fuel, rfl⟩ : ∃ n, fuel = n + 1 := ⟨fuel - 1, by omega⟩
    have hclose : Token.close.Spells [closingByte] := ⟨[], rfl, rfl⟩
    have hread : Instruction.ofBytes [closingByte] = .ok (Token.close.flat, []) :=
      ofBytes_of_spells hclose []
    rw [List.nil_append, checkFrom_token hread]
    simp only [List.isEmpty_nil, hdone]
  | cons token tokens ih =>
    obtain ⟨first, more, rfl, hfirst, hmore⟩ := hspells
    obtain ⟨t, hstep, hruns⟩ := hruns
    have hpos := hfirst.length_pos
    simp only [List.length_append] at hfuel
    obtain ⟨fuel, rfl⟩ : ∃ n, fuel = n + 1 := ⟨fuel - 1, by omega⟩
    rw [List.append_assoc, checkFrom_token (ofBytes_of_spells hfirst _)]
    simp only [step_more_iff.mpr hstep]
    exact ih hmore hruns (by omega)

/-- If a spelling of tokens is accepted together with what follows, the checker has run over these
tokens and no others. -/
theorem runs_of_checkFrom {scope : Scope} {size fuel : Nat} {tokens : List Token}
    {bytes : List UInt8} {s : Checker} {body : Body} (hspells : SpellsTokens tokens bytes)
    (hok : checkFrom scope size fuel (bytes ++ [closingByte]) s = .ok body) :
    ∃ s', Runs scope s tokens s' ∧
      s'.step scope Token.close.op Token.close.flat true = .ok (.done body) := by
  induction tokens generalizing bytes s fuel with
  | nil =>
    cases hspells
    obtain ⟨tokens, first, s', hbytes, hfirst, hruns, hdone⟩ := exists_runs_of_checkFrom hok
    obtain rfl : first = [] := by simpa using hbytes
    -- Without tokens the checker is at the closing byte. Had it read on from there, a token would
    -- have no bytes.
    cases tokens with
    | nil =>
      cases hruns
      exact ⟨s, rfl, hdone⟩
    | cons token tokens =>
      obtain ⟨a, b, hnil, ha, -⟩ := hfirst
      have hpos := ha.length_pos
      rw [(List.append_eq_nil_iff.mp hnil.symm).1] at hpos
      exact absurd hpos (lt_irrefl 0)
  | cons token tokens ih =>
    obtain ⟨first, more, rfl, hfirst, hmore⟩ := hspells
    cases fuel with
    | zero => cases hok
    | succ fuel =>
      rw [List.append_assoc, checkFrom_token (ofBytes_of_spells hfirst _)] at hok
      cases hstep : s.step scope token.op token.flat (more ++ [closingByte]).isEmpty with
      | error rule => simp [hstep] at hok
      | ok progress =>
        cases progress with
        | done found =>
          have hlast := (step_done hstep).2
          simp at hlast
        | more t =>
          simp only [hstep] at hok
          obtain ⟨s', hruns, hdone⟩ := ih hmore hok
          exact ⟨s', ⟨t, step_more_iff.mp hstep, hruns⟩, hdone⟩

/-- A body is checked from its beginning, with the function's own block open. -/
theorem check_eq_checkFrom {scope : Scope} {types : List ValueType} {base : Nat}
    {bytes : List UInt8} {body : Body} :
    check scope types base bytes = .ok body ↔
      checkFrom scope bytes.length (bytes.length + 1) bytes
        (Checker.openBlock {} .function types) = .ok body := by
  simp only [check]
  split <;> simp_all

/-- A body that spells given tokens is accepted exactly if the checker runs over them to its end. -/
theorem check_spelled_iff {scope : Scope} {types : List ValueType} {base : Nat}
    {tokens : List Token} {bytes : List UInt8} {body : Body} (hspells : SpellsTokens tokens bytes) :
    check scope types base (bytes ++ [closingByte]) = .ok body ↔
      ∃ s', Runs scope (Checker.openBlock {} .function types) tokens s' ∧
        s'.step scope Token.close.op Token.close.flat true = .ok (.done body) := by
  rw [check_eq_checkFrom]
  constructor
  · exact runs_of_checkFrom hspells
  · rintro ⟨s', hruns, hdone⟩
    exact checkFrom_of_runs hspells hruns hdone (by rw [List.length_append]; omega)

/-! ## Open blocks -/

/-- The kinds of blocks that can be open. -/
inductive Shape where
  | function
  | block
  | loop
  | ifThen
  | otherwise
  deriving DecidableEq

/-- The kind of block that an opener stands for. -/
def shapeOf : Opener → Shape
  | .function => .function
  | .block _ => .block
  | .loop _ => .loop
  | .ifThen _ => .ifThen
  | .otherwise _ _ => .otherwise

/-- The kinds of the open blocks, the innermost first. -/
def shapes (s : Checker) : List Shape := s.blocks.map fun b => shapeOf b.opener

/-- Tokens that leave blocks of given kinds open: code, then the token that opened a block and code
inside it, and so on. -/
inductive Unclosed : List Shape → List Token → Prop
  | function (code : Code) : Unclosed [.function] code.tokens
  | block {open_ before} (houter : Unclosed open_ before) (type : BlockType) (code : Code) :
    Unclosed (.block :: open_) (before ++ .block type :: code.tokens)
  | loop {open_ before} (houter : Unclosed open_ before) (type : BlockType) (code : Code) :
    Unclosed (.loop :: open_) (before ++ .loop type :: code.tokens)
  | ifThen {open_ before} (houter : Unclosed open_ before) (type : BlockType) (code : Code) :
    Unclosed (.ifThen :: open_) (before ++ .ifThen type :: code.tokens)
  | otherwise {open_ before} (houter : Unclosed open_ before) (type : BlockType)
      (first code : Code) :
    Unclosed (.otherwise :: open_)
      (before ++ .ifThen type :: (first.tokens ++ .otherwise :: code.tokens))

/-- Code can follow inside the innermost block. -/
theorem Unclosed.append {open_ : List Shape} {before : List Token}
    (hunclosed : Unclosed open_ before) (more : Code) : Unclosed open_ (before ++ more.tokens) := by
  cases hunclosed with
  | function code =>
    rw [← Code.tokens_append]
    exact .function _
  | block houter type code =>
    simpa [Code.tokens_append] using Unclosed.block houter type (code.append more)
  | loop houter type code =>
    simpa [Code.tokens_append] using Unclosed.loop houter type (code.append more)
  | ifThen houter type code =>
    simpa [Code.tokens_append] using Unclosed.ifThen houter type (code.append more)
  | otherwise houter type first code =>
    simpa [Code.tokens_append] using Unclosed.otherwise houter type first (code.append more)

/-- The innermost block but the function can be closed, and then is code of the block around it. -/
theorem Unclosed.close {shape : Shape} {open_ : List Shape} {before : List Token}
    (hunclosed : Unclosed (shape :: open_) before) (hshape : shape ≠ .function) :
    Unclosed open_ (before ++ [.close]) := by
  cases hunclosed with
  | function code => exact absurd rfl hshape
  | block houter type code =>
    simpa [Code.tokens] using houter.append (.block type code .done)
  | loop houter type code =>
    simpa [Code.tokens] using houter.append (.loop type code .done)
  | ifThen houter type code =>
    simpa [Code.tokens] using houter.append (.ifThen type code .done)
  | otherwise houter type first code =>
    simpa [Code.tokens] using houter.append (.ifElse type first code .done)

/-- Operands were taken, and nothing else has changed. -/
structure TakesOperands (s t : Checker) : Prop where
  instructions_eq : t.instructions = s.instructions
  blocks_eq : t.blocks = s.blocks

/-- Operands that are taken one after another are taken together. -/
theorem TakesOperands.trans {s t u : Checker} (hfirst : TakesOperands s t)
    (hmore : TakesOperands t u) : TakesOperands s u :=
  ⟨hmore.instructions_eq.trans hfirst.instructions_eq, hmore.blocks_eq.trans hfirst.blocks_eq⟩

/-- Taking an operand changes nothing else. -/
theorem takesOperands_of_pop {s t : Checker} {a : ValueType} (hok : s.pop = .ok (a, t)) :
    TakesOperands s t := by
  unfold Checker.pop at hok
  split at hok
  · cases hok
  · split at hok
    · split at hok <;> cases hok
      exact ⟨rfl, rfl⟩
    · split at hok <;> cases hok
      exact ⟨rfl, rfl⟩

/-- Taking an operand of a type changes nothing else. -/
theorem takesOperands_of_popType {s t : Checker} {type : ValueType}
    (hok : s.popType type = .ok t) : TakesOperands s t := by
  simp only [Checker.popType, except_bind_eq_ok, Prod.exists] at hok
  obtain ⟨a, u, hpop, hok⟩ := hok
  split at hok
  · cases hok
  · cases hok
    exact takesOperands_of_pop hpop

/-- Taking operands one by one changes nothing else. -/
theorem takesOperands_of_popEach {s t : Checker} {types : List ValueType}
    (hok : s.popEach types = .ok t) : TakesOperands s t := by
  induction types generalizing s with
  | nil =>
    cases hok
    exact ⟨rfl, rfl⟩
  | cons type types ih =>
    simp only [Checker.popEach, except_bind_eq_ok] at hok
    obtain ⟨u, hpop, hmore⟩ := hok
    exact (takesOperands_of_popType hpop).trans (ih hmore)

/-- Taking operands of given types changes nothing else. -/
theorem takesOperands_of_popTypes {s t : Checker} {types : List ValueType}
    (hok : s.popTypes types = .ok t) : TakesOperands s t :=
  takesOperands_of_popEach hok

/-- An instruction was added that neither opens nor closes a block. At most the rest of the
innermost block was marked as unreachable. -/
structure Passes (s : Checker) (i : Instruction) (t : Checker) : Prop where
  instructions_eq : t.instructions = s.instructions.push i
  blocks_eq : t.blocks = s.blocks ∨ t.blocks = s.jump.blocks

/-- After its operands were taken an instruction is added. -/
theorem TakesOperands.passes {s t : Checker} (htakes : TakesOperands s t) (i : Instruction) :
    Passes s i (t.append i) :=
  ⟨congrArg (·.push i) htakes.instructions_eq, .inl htakes.blocks_eq⟩

/-- A jump changes no instructions. -/
theorem instructions_jump (s : Checker) : s.jump.instructions = s.instructions := by
  unfold Checker.jump
  split <;> rfl

/-- A jump looks at the blocks only. -/
theorem blocks_jump {s t : Checker} (hblocks : t.blocks = s.blocks) :
    t.jump.blocks = s.jump.blocks := by
  unfold Checker.jump
  rw [hblocks]
  split
  · exact hblocks
  · rfl

/-- After its operands were taken a jump is added. -/
theorem TakesOperands.passes_jump {s t : Checker} (htakes : TakesOperands s t) (i : Instruction) :
    Passes s i (t.append i).jump :=
  ⟨(instructions_jump _).trans (htakes.passes i).instructions_eq,
    .inr (blocks_jump htakes.blocks_eq)⟩

/-- What a checker comes to with an instruction that neither opens nor closes a block. -/
theorem exists_passes_of_step {scope : Scope} {s : Checker} {op : Opcode} {i : Instruction}
    {last : Bool} {progress : Checker.Progress}
    (hop : op ∉ [.block, .loop, .ifThen, .otherwise, .close])
    (hok : s.step scope op i last = .ok progress) :
    ∃ t, progress = .more t ∧ Passes s i t := by
  cases op <;> simp only [List.mem_cons, List.not_mem_nil, reduceCtorEq, or_false, or_true,
    not_true_eq_false, not_false_eq_true] at hop <;>
    simp only [Checker.step, except_bind_eq_ok, except_pure_eq_ok, Prod.exists] at hok
  case unreachable =>
    exact ⟨_, hok.symm, TakesOperands.passes_jump ⟨rfl, rfl⟩ i⟩
  case drop =>
    obtain ⟨a, t, hpop, rfl⟩ := hok
    exact ⟨_, rfl, (takesOperands_of_pop hpop).passes i⟩
  case select =>
    obtain ⟨t, hcondition, second, u, hsecond, first, v, hfirst, hdone⟩ := hok
    have htakes := ((takesOperands_of_popType hcondition).trans
      (takesOperands_of_pop hsecond)).trans (takesOperands_of_pop hfirst)
    split at hdone
    · exact ⟨_, (Except.ok.inj hdone).symm, ⟨(htakes.passes i).instructions_eq,
        (htakes.passes i).blocks_eq⟩⟩
    · split at hdone
      · simp at hdone
      · exact ⟨_, (Except.ok.inj hdone).symm, ⟨(htakes.passes i).instructions_eq,
          (htakes.passes i).blocks_eq⟩⟩
  case br =>
    obtain ⟨types, -, t, hpop, rfl⟩ := hok
    exact ⟨_, rfl, (takesOperands_of_popTypes hpop).passes_jump i⟩
  case brIf =>
    obtain ⟨types, -, t, hcondition, u, hpop, rfl⟩ := hok
    have htakes := (takesOperands_of_popType hcondition).trans (takesOperands_of_popTypes hpop)
    exact ⟨_, rfl, ⟨(htakes.passes i).instructions_eq, (htakes.passes i).blocks_eq⟩⟩
  case brTable =>
    obtain ⟨types, -, -, -, t, hcondition, u, hpop, rfl⟩ := hok
    have htakes := (takesOperands_of_popType hcondition).trans (takesOperands_of_popTypes hpop)
    exact ⟨_, rfl, htakes.passes_jump i⟩
  case ret =>
    obtain ⟨t, hpop, rfl⟩ := hok
    exact ⟨_, rfl, (takesOperands_of_popTypes hpop).passes_jump i⟩
  all_goals
    obtain ⟨effect, -, t, hpop, rfl⟩ := hok
    have htakes := takesOperands_of_popTypes hpop
    exact ⟨_, rfl, ⟨(htakes.passes i).instructions_eq, (htakes.passes i).blocks_eq⟩⟩

/-- An instruction of code neither opens nor closes a block. -/
theorem Instr.op_not_mem (i : Instr) : i.op ∉ [.block, .loop, .ifThen, .otherwise, .close] := by
  cases i <;> simp [Instr.op]

/-- Checking an instruction of code adds it. -/
theorem passes_of_step_instr {scope : Scope} {s s' : Checker} {i : Instr} {last : Bool}
    (hok : s.step scope i.op i.flat last = .ok (.more s')) : Passes s i.flat s' := by
  obtain ⟨t, hmore, hpasses⟩ := exists_passes_of_step i.op_not_mem hok
  cases hmore
  exact hpasses

/-- The shapes are those of the blocks. -/
theorem shapes_eq_of_blocks {s s' : Checker} (hblocks : s'.blocks = s.blocks) :
    shapes s' = shapes s := by
  rw [shapes, hblocks, shapes]

/-- A jump keeps the shapes. -/
theorem shapes_jump (s : Checker) : shapes s.jump = shapes s := by
  unfold Checker.jump shapes
  split <;> simp_all

/-- The block that is closed was the innermost. -/
theorem closeBlock_blocks {s s' : Checker} {b : Block} (hok : s.closeBlock = .ok (b, s')) :
    s.blocks = b :: s'.blocks := by
  unfold Checker.closeBlock at hok
  split at hok
  · cases hok
  · rename_i b' blocks hblocks
    simp only [except_bind_eq_ok] at hok
    obtain ⟨u, hpop, hok⟩ := hok
    split at hok
    · simp at hok
    · cases hok
      exact hblocks

/-- Resolving branches keeps the blocks. -/
theorem resolve_blocks (s : Checker) (opener : Opener) (next : Nat) :
    (s.resolve opener next).blocks = s.blocks := by
  cases opener <;> rfl

/-- Instructions that open no block leave the kinds of the open blocks alone. -/
theorem shapes_of_step_instr {scope : Scope} {s s' : Checker} {i : Instr} {last : Bool}
    (hok : s.step scope i.op i.flat last = .ok (.more s')) : shapes s' = shapes s := by
  rcases (passes_of_step_instr hok).blocks_eq with hblocks | hblocks
  · exact shapes_eq_of_blocks hblocks
  · exact (shapes_eq_of_blocks hblocks).trans (shapes_jump s)

/-- The end of a block closes the innermost one, which is not the function. -/
theorem shapes_of_step_close {scope : Scope} {s s' : Checker} {i : Instruction} {last : Bool}
    (hok : s.step scope .close i last = .ok (.more s')) :
    ∃ shape, shape ≠ .function ∧ shapes s = shape :: shapes s' := by
  simp only [Checker.step, except_bind_eq_ok, Prod.exists] at hok
  obtain ⟨b, t, hclose, hok⟩ := hok
  have hblocks := closeBlock_blocks hclose
  have hshapes : shapes s = shapeOf b.opener :: shapes t := by simp [shapes, hblocks]
  have hresolved (next : Nat) (i : Instruction) (types : List ValueType) :
      shapes (((t.append i).resolve b.opener next).push types) = shapes t :=
    shapes_eq_of_blocks (resolve_blocks _ _ _)
  refine ⟨shapeOf b.opener, ?_, ?_⟩
  · intro hfunction
    have hopener : b.opener = .function := by
      cases hopener : b.opener <;> simp_all [shapeOf]
    simp only [hopener] at hok
    split at hok <;> simp at hok
  · rw [hshapes]
    split at hok
    · split at hok <;> simp at hok
    · split at hok
      · simp at hok
      · cases hok
        rw [hresolved]
    · cases hok
      rw [hresolved]

/-- The second arm of a conditional follows the first. -/
theorem shapes_of_step_otherwise {scope : Scope} {s s' : Checker} {i : Instruction} {last : Bool}
    (hok : s.step scope .otherwise i last = .ok (.more s')) :
    ∃ open_, shapes s = .ifThen :: open_ ∧ shapes s' = .otherwise :: open_ := by
  simp only [Checker.step] at hok
  split at hok
  · simp at hok
  · simp only [except_bind_eq_ok, Prod.exists] at hok
    obtain ⟨b, t, hclose, hok⟩ := hok
    have hblocks := closeBlock_blocks hclose
    split at hok
    · rename_i at_ hopener
      cases hok
      refine ⟨shapes t, by simp [shapes, hblocks, hopener, shapeOf], ?_⟩
      simp [shapes, Checker.openBlock, Checker.relabel, Checker.append, shapeOf]
    · simp at hok

/-- A step on a token keeps track of the open blocks. -/
theorem Unclosed.step {scope : Scope} {s s' : Checker} {before : List Token} {token : Token}
    (hunclosed : Unclosed (shapes s) before)
    (hok : s.step scope token.op token.flat false = .ok (.more s')) :
    Unclosed (shapes s') (before ++ [token]) := by
  cases token with
  | instr i =>
    rw [shapes_of_step_instr hok]
    simpa [Code.tokens] using hunclosed.append (.instr i .done)
  | block type =>
    cases hok
    exact .block hunclosed type .done
  | loop type =>
    cases hok
    exact .loop hunclosed type .done
  | ifThen type =>
    simp only [Token.op, Checker.step, except_bind_eq_ok] at hok
    obtain ⟨t, hcondition, hdone⟩ := hok
    cases hdone
    rw [← shapes_eq_of_blocks ((takesOperands_of_popType hcondition).blocks_eq)] at hunclosed
    exact .ifThen hunclosed type .done
  | otherwise =>
    obtain ⟨open_, hshapes, hshapes'⟩ := shapes_of_step_otherwise hok
    rw [hshapes] at hunclosed
    rw [hshapes']
    cases hunclosed with
    | ifThen houter type code =>
      simpa [Code.tokens] using Unclosed.otherwise houter type code .done
  | close =>
    obtain ⟨shape, hshape, hshapes⟩ := shapes_of_step_close hok
    rw [hshapes] at hunclosed
    exact hunclosed.close hshape

/-- The blocks that tokens leave open are those of the checker. -/
theorem Unclosed.runs {scope : Scope} {s s' : Checker} {before tokens : List Token}
    (hunclosed : Unclosed (shapes s) before) (hruns : Runs scope s tokens s') :
    Unclosed (shapes s') (before ++ tokens) := by
  induction tokens generalizing s before with
  | nil =>
    cases hruns
    simpa using hunclosed
  | cons token tokens ih =>
    obtain ⟨t, hstep, hmore⟩ := hruns
    simpa using ih (hunclosed.step hstep) hmore

/-- A body ends when only the function is open. -/
theorem shapes_of_step_done {scope : Scope} {s : Checker} {i : Instruction} {last : Bool}
    {body : Body} (hdone : s.step scope .close i last = .ok (.done body)) :
    ∃ open_, shapes s = .function :: open_ := by
  simp only [Checker.step, except_bind_eq_ok, Prod.exists] at hdone
  obtain ⟨b, t, hclose, hdone⟩ := hdone
  have hblocks := closeBlock_blocks hclose
  split at hdone
  · rename_i hopener
    exact ⟨shapes t, by simp [shapes, hblocks, hopener, shapeOf]⟩
  · split at hdone <;> simp at hdone
  · simp at hdone

/-- The tokens of an accepted body are those of some code. -/
theorem exists_code_of_runs {scope : Scope} {types : List ValueType} {tokens : List Token}
    {s' : Checker} {body : Body}
    (hruns : Runs scope (Checker.openBlock {} .function types) tokens s')
    (hdone : s'.step scope Token.close.op Token.close.flat true = .ok (.done body)) :
    ∃ code : Code, code.tokens = tokens := by
  have hstart : Unclosed (shapes (Checker.openBlock {} .function types)) Code.done.tokens :=
    .function .done
  have hunclosed := hstart.runs hruns
  obtain ⟨open_, hshapes⟩ := shapes_of_step_done hdone
  rw [hshapes, Code.tokens, List.nil_append] at hunclosed
  cases hunclosed with
  | function code => exact ⟨code, rfl⟩

/-- An accepted body spells some code and the end of the function. -/
theorem exists_code_of_check {scope : Scope} {types : List ValueType} {base : Nat}
    {bytes : List UInt8} {body : Body} (hok : check scope types base bytes = .ok body) :
    ∃ (code : Code) (first : List UInt8), code.Spells first ∧ bytes = first ++ [closingByte] := by
  obtain ⟨tokens, first, s', rfl, hspells, hruns, hdone⟩ :=
    exists_runs_of_checkFrom (check_eq_checkFrom.mp hok)
  obtain ⟨code, rfl⟩ := exists_code_of_runs hruns hdone
  exact ⟨code, first, hspells, rfl⟩

end IntWasm.Structured
