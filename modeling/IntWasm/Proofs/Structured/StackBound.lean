import IntWasm.Proofs.Structured.Rewriting

/-!
# How many operands a body can have

In a scope in which functions give at most one result, the checker finds at most one operand for
every two bytes that it has read. This also holds in code that cannot be reached, where instructions
take operands that are not there: such code comes behind an instruction that has a byte of its own.
Main statement: `two_mul_length_stack_le`.
-/

namespace IntWasm.Structured

open Body

/-- The results and the height of a block are small for the number of bytes that were read. -/
structure SmallBlock (bytes : Nat) (b : Block) : Prop where
  results_le : b.results.length ≤ 1
  height_le : 2 * b.height ≤ bytes
  /-- The instruction that opens a block takes two bytes. -/
  inside_le : b.opener ≠ .function → 2 * b.height + 2 ≤ bytes
  /-- The instruction behind which code cannot be reached takes a byte. -/
  dead_lt : b.unreachable = true → 2 * b.height < bytes

/-- The operands and the open blocks of a checker are small for the number of bytes that were
read. -/
structure Small (bytes : Nat) (s : Checker) : Prop where
  stack_le : 2 * s.stack.length ≤ bytes
  blocks : ∀ b ∈ s.blocks, SmallBlock bytes b

/-- A block that is small for some bytes is so for more. -/
theorem SmallBlock.mono {bytes more : Nat} {b : Block} (hsmall : SmallBlock bytes b)
    (hle : bytes ≤ more) : SmallBlock more b where
  results_le := hsmall.results_le
  height_le := hsmall.height_le.trans hle
  inside_le hopener := (hsmall.inside_le hopener).trans hle
  dead_lt hdead := (hsmall.dead_lt hdead).trans_le hle

/-! ## Taking operands -/

/-- `n` operands were taken. In code that cannot be reached, fewer may have been there. -/
structure Sheds (s : Checker) (n : Nat) (t : Checker) : Prop where
  blocks_eq : t.blocks = s.blocks
  stack : t.stack.length + n = s.stack.length ∨
    ∃ b outer, s.blocks = b :: outer ∧ b.unreachable = true ∧ t.stack.length ≤ b.height

section

variable {scope : Scope} {s t u : Checker} {n m bytes : Nat}

/-- What is shed in two steps is shed together. -/
theorem Sheds.trans (hfirst : Sheds s n t) (hmore : Sheds t m u) : Sheds s (n + m) u := by
  refine ⟨hmore.blocks_eq.trans hfirst.blocks_eq, ?_⟩
  rcases hfirst.stack with hn | ⟨b, outer, hblocks, hdead, hn⟩
  · rcases hmore.stack with hm | ⟨b, outer, hblocks, hdead, hm⟩
    · exact .inl (by omega)
    · exact .inr ⟨b, outer, hfirst.blocks_eq ▸ hblocks, hdead, hm⟩
  · rcases hmore.stack with hm | ⟨b', outer', hblocks', hdead', hm⟩
    · exact .inr ⟨b, outer, hblocks, hdead, by omega⟩
    · exact .inr ⟨b', outer', hfirst.blocks_eq ▸ hblocks', hdead', hm⟩

/-- Taking an operand sheds one. -/
theorem sheds_pop {type : ValueType} (hok : s.pop = .ok (type, t)) : Sheds s 1 t := by
  refine ⟨(takesOperands_of_pop hok).blocks_eq, ?_⟩
  unfold Checker.pop at hok
  split at hok
  · cases hok
  · next b outer hblocks =>
    split at hok
    · next hheight =>
      split at hok
      · next hdead =>
        cases hok
        exact .inr ⟨b, outer, hblocks, hdead, hheight.le⟩
      · cases hok
    · split at hok
      · cases hok
      · next hstack =>
        cases hok
        exact .inl (by rw [hstack, List.length_cons])

/-- Taking an operand of a type sheds one. -/
theorem sheds_popType {type : ValueType} (hok : s.popType type = .ok t) : Sheds s 1 t := by
  simp only [Checker.popType, except_bind_eq_ok, Prod.exists] at hok
  obtain ⟨a, u, hpop, hok⟩ := hok
  split at hok
  · cases hok
  · cases hok
    exact sheds_pop hpop

/-- Taking operands one by one sheds as many. -/
theorem sheds_popEach {types : List ValueType} (hok : s.popEach types = .ok t) :
    Sheds s types.length t := by
  induction types generalizing s with
  | nil =>
    cases hok
    exact ⟨rfl, .inl rfl⟩
  | cons type types ih =>
    simp only [Checker.popEach, except_bind_eq_ok] at hok
    obtain ⟨u, hpop, hmore⟩ := hok
    rw [List.length_cons, Nat.add_comm]
    exact (sheds_popType hpop).trans (ih hmore)

/-- Taking operands sheds as many. -/
theorem sheds_popTypes {types : List ValueType} (hok : s.popTypes types = .ok t) :
    Sheds s types.length t := by
  rw [← List.length_reverse]
  exact sheds_popEach hok

/-- The stack behind a block has the height that it had in front of it. -/
theorem height_of_closeBlock {b : Block} (hclose : s.closeBlock = .ok (b, t)) :
    t.stack.length = b.height := by
  unfold Checker.closeBlock at hclose
  split at hclose
  · cases hclose
  · simp only [except_bind_eq_ok] at hclose
    obtain ⟨u, -, hclose⟩ := hclose
    split at hclose
    · cases hclose
    · next hheight =>
      cases hclose
      exact not_not.mp hheight

/-! ## Steps keep everything small -/

/-- Shedding keeps a state small. -/
theorem Small.sheds (hsmall : Small bytes s) (hsheds : Sheds s n t) : Small bytes t := by
  refine ⟨?_, fun b hb => hsmall.blocks b (hsheds.blocks_eq ▸ hb)⟩
  have hstack := hsmall.stack_le
  rcases hsheds.stack with hn | ⟨b, outer, hopen, -, hle⟩
  · omega
  · have hheight := (hsmall.blocks b (by rw [hopen]; exact List.mem_cons_self ..)).height_le
    omega

/-- An instruction of `k` bytes takes `n` operands and gives at most `g`. -/
theorem Small.gives {k g : Nat} (hsmall : Small bytes s) (hsheds : Sheds s n t)
    (hblocks : u.blocks = t.blocks) (hgives : u.stack.length ≤ t.stack.length + g) (hone : g ≤ 1)
    (hk : 1 ≤ k) (hbalance : 2 * g ≤ 2 * n + k) : Small (bytes + k) u := by
  have hsame := hblocks.trans hsheds.blocks_eq
  refine ⟨?_, fun b hb => (hsmall.blocks b (hsame ▸ hb)).mono (Nat.le_add_right bytes k)⟩
  have hstack := hsmall.stack_le
  rcases hsheds.stack with hn | ⟨b, outer, hopen, hdead, hle⟩
  · omega
  · have hlt := (hsmall.blocks b (by rw [hopen]; exact List.mem_cons_self ..)).dead_lt hdead
    omega

/-- An instruction behind which code cannot be reached takes operands. -/
theorem Small.jump {k : Nat} (hsmall : Small bytes s) (hsheds : Sheds s n t) (hk : 1 ≤ k)
    (i : Instruction) : Small (bytes + k) (t.append i).jump := by
  have hsmall' : Small (bytes + k) (t.append i) :=
    hsmall.gives hsheds rfl le_rfl zero_le_one hk (by omega)
  unfold Checker.jump
  split
  · exact hsmall'
  · next b outer hblocks =>
    refine ⟨?_, List.forall_mem_cons.mpr ⟨?_, fun other hother => ?_⟩⟩
    · have hle := hsmall'.stack_le
      simp only [List.length_drop]
      omega
    · have hb := hsmall.blocks b (by rw [← hsheds.blocks_eq]; exact hblocks ▸ List.mem_cons_self ..)
      have hlt := hb.height_le
      exact ⟨hb.results_le, hlt.trans (by omega),
          fun h => (hb.inside_le h).trans (by omega), fun _ =>
        hlt.trans_lt (by omega)⟩
    · exact hsmall'.blocks other (hblocks ▸ List.mem_cons_of_mem b hother)

/-- An instruction that opens a block takes two bytes. -/
theorem Small.enter {i : Instruction} (hsmall : Small bytes s)
    (hresults : i.blockResults.length ≤ 1) (opener : Opener) (labels : List Int) :
    Small (bytes + 2) (s.enter i opener labels) := by
  have hstack := hsmall.stack_le
  refine ⟨hstack.trans (by omega), List.forall_mem_cons.mpr ⟨?_, fun b hb => ?_⟩⟩
  · exact ⟨hresults, hstack.trans (by omega), fun _ => Nat.add_le_add_right hstack 2, nofun⟩
  · exact (hsmall.blocks b hb).mono (by omega)

/-- A block that is closed was small, and the state still is. -/
theorem Small.closeBlock {b : Block} (hsmall : Small bytes s) (hclose : s.closeBlock = .ok (b, t)) :
    SmallBlock bytes b ∧ Small bytes t := by
  have hblocks := closeBlock_blocks hclose
  have hb := hsmall.blocks b (by rw [hblocks]; exact List.mem_cons_self ..)
  refine ⟨hb, ?_, fun other hother => hsmall.blocks other (hblocks ▸ List.mem_cons_of_mem b hother)⟩
  rw [height_of_closeBlock hclose]
  exact hb.height_le

/-- Resolving branches keeps the stack. -/
theorem stack_resolve (s : Checker) (opener : Opener) (next : Nat) :
    (s.resolve opener next).stack = s.stack := by
  cases opener <;> rfl

/-- The operands that a block gives fit into the bytes that it takes. -/
theorem Small.close {b : Block} (hsmall : Small bytes s) (hclose : s.closeBlock = .ok (b, t))
    (hopener : b.opener ≠ .function) (hblocks : u.blocks = t.blocks) (hstack : u.stack = t.stack) :
    Small (bytes + 1) (u.push b.results) := by
  obtain ⟨hb, hsmall'⟩ := hsmall.closeBlock hclose
  refine ⟨?_, fun other hother => (hsmall'.blocks other (hblocks ▸ hother)).mono (by omega)⟩
  have hheight := height_of_closeBlock hclose
  have hinside := hb.inside_le hopener
  have hresults := hb.results_le
  simp only [Checker.push, List.length_append, List.length_reverse, hstack]
  omega

/-- The second branch of an `if` begins as small as the first one has ended. -/
theorem Small.otherwise {b : Block} {opener : Opener} (hsmall : Small bytes s)
    (hclose : s.closeBlock = .ok (b, t)) (hopener : b.opener ≠ .function)
    (hblocks : u.blocks = t.blocks) (hstack : u.stack = t.stack) :
    Small (bytes + 1) (u.openBlock opener b.results) := by
  obtain ⟨hb, hsmall'⟩ := hsmall.closeBlock hclose
  have hinside := hb.inside_le hopener
  have hheight : u.stack.length = b.height := by rw [hstack, height_of_closeBlock hclose]
  refine ⟨?_, List.forall_mem_cons.mpr ⟨?_, fun other hother => ?_⟩⟩
  · show 2 * u.stack.length ≤ bytes + 1
    omega
  · refine ⟨hb.results_le, ?_, fun _ => ?_, nofun⟩
    all_goals
      simp only [hheight]
      omega
  · exact (hsmall'.blocks other (hblocks ▸ hother)).mono (by omega)

/-- An instruction gives at most one operand, and it takes an operand or two bytes for it. -/
theorem gives_le {i : Instr} {e : Effect} (hnarrow : scope.Narrow)
    (hok : scope.effect i.op i.flat = .ok e) :
    e.gives.length ≤ 1 ∧ 2 * e.gives.length ≤ 2 * e.takes.length + (Token.instr i).weight := by
  have hcall {f : FuncType} (hf : f.results.length ≤ 1) (takes : Nat) :
      f.results.length ≤ 1 ∧ 2 * f.results.length ≤ 2 * takes + 2 := ⟨hf, by omega⟩
  cases i <;> simp only [Instr.op, Scope.effect, except_bind_eq_ok, except_pure_eq_ok,
    require_iff] at hok
  case call n =>
    obtain ⟨f, hf, rfl⟩ := hok
    exact hcall (hnarrow.functionType hf) _
  case callIndirect n =>
    split at hok
    · cases hok
    · simp only [except_bind_eq_ok, except_pure_eq_ok, require_iff] at hok
      obtain ⟨f, hf, rfl⟩ := hok
      exact hcall (hnarrow.type hf) _
  case localGet n | localSet n | localTee n =>
    obtain ⟨t, -, rfl⟩ := hok
    simp [Token.weight]
  case globalGet n =>
    obtain ⟨g, -, rfl⟩ := hok
    simp [Token.weight]
  case globalSet n =>
    obtain ⟨g, -, hok⟩ := hok
    split at hok <;> cases hok
    simp [Token.weight]
  case load | store =>
    obtain ⟨_, -, rfl⟩ := hok
    simp [Token.weight]
  case memorySize | memoryGrow =>
    split at hok <;> cases hok
    simp [Token.weight]
  all_goals
    cases hok
    simp [Token.weight]

/-- Every token weighs something. -/
theorem one_le_weight (token : Token) : 1 ≤ token.weight := by
  cases token with
  | instr i => cases i <;> simp [Token.weight]
  | _ => simp [Token.weight]

/-- A branch takes one operand at most. -/
theorem Small.length_branchTypes_le (hsmall : Small bytes s) {n : Nat} {types : List ValueType}
    (hok : s.branchTypes n = .ok types) : types.length ≤ 1 := by
  unfold Checker.branchTypes at hok
  split at hok
  · cases hok
  · next b hb =>
    cases hok
    have hle := (hsmall.blocks b (List.mem_of_getElem? hb)).results_le
    unfold Block.branchTypes
    split
    · exact zero_le_one
    · exact hle

/-- An instruction adds no more than its weight. -/
theorem Small.step_instr {i : Instr} (hsmall : Small bytes s) (hnarrow : scope.Narrow)
    (hok : s.step scope i.op i.flat false = .ok (.more t)) :
    Small (bytes + (Token.instr i).weight) t := by
  have hk := one_le_weight (.instr i)
  -- By its effect an instruction gives at most one operand. A jump leaves none of the block, and a
  -- branch that falls through gives back what it takes.
  by_cases heffect : i.hasEffect = true
  · simp only [step_of_hasEffect scope heffect, except_bind_eq_ok] at hok
    obtain ⟨e, he, u, hpop, hdone⟩ := hok
    cases hdone
    obtain ⟨hone, hbalance⟩ := gives_le hnarrow he
    refine hsmall.gives (sheds_popTypes hpop) rfl ?_ hone hk hbalance
    simp [Checker.push, Checker.append, Nat.add_comm]
  · cases i <;> simp only [Instr.hasEffect, not_true_eq_false] at heffect <;>
      simp only [Instr.op, Checker.step, except_bind_eq_ok, Prod.exists] at hok
    case unreachable =>
      cases hok
      exact hsmall.jump ⟨rfl, .inl (Nat.add_zero _)⟩ hk _
    case br label =>
      obtain ⟨types, -, u, hpop, hdone⟩ := hok
      cases hdone
      exact hsmall.jump (sheds_popTypes hpop) hk _
    case brIf label =>
      obtain ⟨types, htypes, u, hcondition, v, hpop, hdone⟩ := hok
      cases hdone
      refine hsmall.gives ((sheds_popType hcondition).trans (sheds_popTypes hpop)) rfl ?_
        (hsmall.length_branchTypes_le htypes) hk (by omega)
      simp [Checker.push, Checker.append, Nat.add_comm]
    case brTable labels default =>
      obtain ⟨types, -, -, -, u, hcondition, v, hpop, hdone⟩ := hok
      cases hdone
      exact hsmall.jump ((sheds_popType hcondition).trans (sheds_popTypes hpop)) hk _
    case ret =>
      obtain ⟨u, hpop, hdone⟩ := hok
      cases hdone
      exact hsmall.jump (sheds_popTypes hpop) hk _
    case drop =>
      obtain ⟨a, u, hpop, hdone⟩ := hok
      cases hdone
      exact hsmall.gives (sheds_pop hpop) rfl (Nat.le_add_right _ 0) zero_le_one hk (by omega)
    case select =>
      obtain ⟨u, hcondition, second, v, hsecond, first, w, hfirst, hdone⟩ := hok
      have hsheds : Sheds s 3 w :=
        ((sheds_popType hcondition).trans (sheds_pop hsecond)).trans (sheds_pop hfirst)
      have hone (type : ValueType) (i : Instruction) :
          Small (bytes + 1) ((w.append i).push [type]) :=
        hsmall.gives hsheds rfl (le_refl (w.stack.length + 1)) le_rfl le_rfl (by omega)
      split at hdone
      · cases hdone
        exact hone first _
      · split at hdone
        · simp at hdone
        · cases hdone
          exact hone second _

/-- A token adds no more than its weight. -/
theorem Small.step {token : Token} (hsmall : Small bytes s) (hnarrow : scope.Narrow)
    (hok : s.step scope token.op token.flat false = .ok (.more t)) :
    Small (bytes + token.weight) t := by
  have hresults (op : Opcode) (type : BlockType) :
      (Instruction.opening op (Instruction.blockCode (typeByte type))).blockResults.length ≤ 1 := by
    rw [blockResults_opening]
    cases type <;> simp [results]
  cases token with
  | instr i => exact hsmall.step_instr hnarrow hok
  | block type =>
    cases hok
    exact hsmall.enter (hresults .block type) _ _
  | loop type =>
    cases hok
    have hentered :=
      hsmall.enter (hresults .loop type) (.loop s.instructions.size) [(s.instructions.size : Nat)]
    exact ⟨hentered.stack_le, hentered.blocks⟩
  | ifThen type =>
    obtain ⟨u, hcondition, rfl⟩ := exists_of_step_ifThen hok
    exact (hsmall.sheds (sheds_popType hcondition)).enter (hresults .ifThen type) _ _
  | otherwise =>
    obtain ⟨b, u, at_, hclose, hopener, rfl⟩ := exists_of_step_otherwise hok
    exact hsmall.otherwise hclose (by simp [hopener]) rfl rfl
  | close =>
    obtain ⟨b, u, hclose, hopener, rfl⟩ := exists_of_step_close hok
    exact hsmall.close hclose hopener (resolve_blocks _ _ _) (stack_resolve _ _ _)

/-- The induction is on the tokens that are still to be read. -/
theorem Small.runs {tokens : List Token} (hsmall : Small bytes s) (hnarrow : scope.Narrow)
    (hruns : Runs scope s tokens t) : Small (bytes + weight tokens) t := by
  induction tokens generalizing bytes s with
  | nil =>
    cases hruns
    exact hsmall
  | cons token tokens ih =>
    obtain ⟨u, hstep, hmore⟩ := hruns
    rw [weight_cons, ← Nat.add_assoc]
    exact ih (hsmall.step hnarrow hstep) hmore

/-- The checker finds at most one operand for every two bytes. -/
theorem two_mul_length_stack_le {results : List ValueType} {tokens : List Token}
    {bytes : List UInt8} (hnarrow : scope.Narrow) (hresults : results.length ≤ 1)
    (hruns : Runs scope (Checker.openBlock {} .function results) tokens t)
    (hspells : SpellsTokens tokens bytes) : 2 * t.stack.length ≤ bytes.length := by
  have hstart : Small 0 (Checker.openBlock {} .function results) :=
    ⟨le_rfl, List.forall_mem_singleton.mpr ⟨hresults, le_rfl, fun h => absurd rfl h, nofun⟩⟩
  have hsmall := (hstart.runs hnarrow hruns).stack_le
  rw [Nat.zero_add] at hsmall
  exact hsmall.trans hspells.weight_le

end

end IntWasm.Structured
