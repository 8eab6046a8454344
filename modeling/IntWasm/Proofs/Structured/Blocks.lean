import IntWasm.Proofs.Structured.Nesting

/-!
# Checking blocks

What the tokens that open, separate and close blocks do to the operands under check. A block begins
without operands of its own, ends if its operands stand for its results, and leaves the results to
the block around it.
-/

namespace IntWasm.Structured

open Body

/-! ## The enclosing blocks -/

/-- What code sees depends on the open blocks only. -/
theorem Sees.of_blocks {s s' : Checker} {c : Context} (hsees : Sees s c)
    (hblocks : s'.blocks = s.blocks) : Sees s' c :=
  ⟨by rw [hblocks, hsees.labels_eq], by rw [hblocks, hsees.result_eq]⟩

/-- Whether the rest of a block can be reached does not matter to branches. -/
theorem Sees.of_unreachable {s s' : Checker} {c : Context} {b : Block} {outer : List Block}
    {dead : Bool} (hsees : Sees s c) (hblocks : s.blocks = b :: outer)
    (hblocks' : s'.blocks = { b with unreachable := dead } :: outer) : Sees s' c := by
  obtain ⟨hlabels, hresult⟩ := hsees
  rw [hblocks] at hlabels hresult
  refine ⟨?_, ?_⟩
  · rw [hblocks', ← hlabels]
    rfl
  · rw [hblocks', ← hresult]
    cases outer <;> rfl

/-- A new block is seen in front of the others. -/
theorem Sees.openBlock {s s' : Checker} {c : Context} {b : Block} {label : BlockType}
    (hsees : Sees s c) (hblocks : s'.blocks = b :: s.blocks)
    (hlabel : b.branchTypes = results label) : Sees s' (c.inside label) := by
  obtain ⟨hlabels, hresult⟩ := hsees
  refine ⟨?_, ?_⟩
  · simp [hblocks, hlabel, hlabels, Context.inside]
  · rw [hblocks]
    cases hs : s.blocks with
    | nil => simp [hs] at hresult
    | cons d blocks => simpa [hs, Context.inside, List.getLast?_cons_cons] using hresult

/-! ## Opening a block -/

/-- An opening instruction tells the results of its block. -/
theorem blockResults_opening (op : Opcode) (type : BlockType) :
    (Instruction.opening op (Instruction.blockCode (typeByte type))).blockResults =
      results type := by
  have hall : ∀ type, (Instruction.opening .block
      (Instruction.blockCode (typeByte type))).blockResults = results type := by
    rintro (_ | _ | _) <;> decide
  exact hall type

/-- A block that a token has opened. -/
def entered (opener : Opener) (type : BlockType) (height : Nat) (dead : Bool) : Block :=
  { opener, results := results type, height, unreachable := dead }

section

variable {c : Context} {s s' : Checker} {b : Block} {outer : List Block}
  {mine below : List ValueType} {type : BlockType} {last : Bool}

/-- Entering a block opens it. -/
theorem enter_blocks (i : Instruction) (opener : Opener) (labels : List Int)
    (hresults : i.blockResults = results type) :
    (s.enter i opener labels).blocks = entered opener type s.stack.length false :: s.blocks := by
  simp [Checker.enter, Checker.openBlock, Checker.append, entered, hresults]

/-- A block that is entered has no operands of its own. -/
theorem Inside.enter (hinside : Inside s b outer mine below) (i : Instruction) (opener : Opener)
    (labels : List Int) (hresults : i.blockResults = results type) :
    Inside (s.enter i opener labels) (entered opener type (mine ++ below).length false) (b :: outer)
      [] (mine ++ below) := by
  refine ⟨?_, hinside.stack_eq, rfl⟩
  rw [enter_blocks i opener labels hresults, hinside.blocks_eq, hinside.stack_eq]

/-- The checker accepts every `block` and enters it. -/
theorem step_block_iff {scope : Scope} :
    s.step scope (Token.block type).op (Token.block type).flat last = .ok (.more s') ↔
      s' = s.enter (Token.block type).flat (.block s.instructions.size) [0] := by
  simp only [Token.op, Checker.step, except_pure_eq_ok, Checker.Progress.more.injEq]
  exact eq_comm

/-- The checker accepts every `loop`, enters it and notes that there is one. -/
theorem step_loop_iff {scope : Scope} :
    s.step scope (Token.loop type).op (Token.loop type).flat last = .ok (.more s') ↔
      s' = { s.enter (Token.loop type).flat (.loop s.instructions.size) [s.instructions.size] with
        metrics.hasLoops := true } := by
  simp only [Token.op, Checker.step, except_pure_eq_ok, Checker.Progress.more.injEq]
  exact eq_comm

/-- The checker accepts an `if` whose condition is on the stack. -/
theorem Inside.step_ifThen_iff {scope : Scope} (hinside : Inside s b outer mine below) :
    s.step scope (Token.ifThen type).op (Token.ifThen type).flat last = .ok (.more s') ↔
      ∃ rest, Pops b.unreachable mine [.i32] rest ∧
        s' = ({ s with stack := rest ++ below } : Checker).enter (Token.ifThen type).flat
          (.ifThen s.instructions.size) [0, 0] := by
  simp only [Token.op, Checker.step, except_bind_eq_ok]
  rw [← IntType.valueType_i32]
  simp only [hinside.popType_iff]
  constructor
  · rintro ⟨_, ⟨rest, hpops, rfl⟩, hdone⟩
    cases hdone
    exact ⟨rest, hpops, rfl⟩
  · rintro ⟨rest, hpops, rfl⟩
    exact ⟨_, ⟨rest, hpops, rfl⟩, rfl⟩

/-- Inside a block code sees the label of the block. -/
theorem Sees.enter {label : BlockType} (hsees : Sees s c) (i : Instruction) {opener : Opener}
    (labels : List Int) (hresults : i.blockResults = results type)
    (hlabel : (entered opener type s.stack.length false).branchTypes = results label) :
    Sees (s.enter i opener labels) (c.inside label) :=
  hsees.openBlock (enter_blocks i opener labels hresults) hlabel

/-- The body of a block begins without operands and branches to it carry its results. -/
theorem Inside.of_step_block {scope : Scope} (hinside : Inside s b outer mine below)
    (hsees : Sees s c)
    (hstep : s.step scope (Token.block type).op (Token.block type).flat last = .ok (.more s')) :
    Inside s' (entered (.block s.instructions.size) type (mine ++ below).length false) (b :: outer)
      [] (mine ++ below) ∧ Sees s' (c.inside type) := by
  obtain rfl := step_block_iff.mp hstep
  exact ⟨hinside.enter _ _ _ (blockResults_opening _ type),
    hsees.enter _ _ (blockResults_opening _ type) rfl⟩

/-- The body of a loop begins without operands and branches to it carry nothing. -/
theorem Inside.of_step_loop {scope : Scope} (hinside : Inside s b outer mine below)
    (hsees : Sees s c)
    (hstep : s.step scope (Token.loop type).op (Token.loop type).flat last = .ok (.more s')) :
    Inside s' (entered (.loop s.instructions.size) type (mine ++ below).length false) (b :: outer)
      [] (mine ++ below) ∧ Sees s' (c.inside none) := by
  obtain rfl := step_loop_iff.mp hstep
  have hentered := hinside.enter _ (.loop s.instructions.size) [s.instructions.size]
    (blockResults_opening .loop type)
  have hsees' : Sees (s.enter _ (.loop s.instructions.size) [s.instructions.size])
      (c.inside none) :=
    hsees.enter _ _ (blockResults_opening .loop type) rfl
  exact ⟨⟨hentered.blocks_eq, hentered.stack_eq, rfl⟩, hsees'.of_blocks rfl⟩

/-- An arm of a conditional begins without operands, after the condition was taken. -/
theorem Inside.of_step_ifThen {scope : Scope} (hinside : Inside s b outer mine below)
    (hsees : Sees s c)
    (hstep : s.step scope (Token.ifThen type).op (Token.ifThen type).flat last = .ok (.more s')) :
    ∃ rest, Pops b.unreachable mine [.i32] rest ∧
      Inside s' (entered (.ifThen s.instructions.size) type (rest ++ below).length false)
        (b :: outer) [] (rest ++ below) ∧ Sees s' (c.inside type) := by
  obtain ⟨rest, hpops, rfl⟩ := hinside.step_ifThen_iff.mp hstep
  have hsees' : Sees { s with stack := rest ++ below } c := hsees.of_blocks rfl
  exact ⟨rest, hpops, (hinside.withStack rest).enter _ _ _ (blockResults_opening _ type),
    hsees'.enter _ _ (blockResults_opening _ type) rfl⟩

/-- With a condition on the stack there is a step into the `if`. -/
theorem Inside.exists_step_ifThen (hinside : Inside s b outer mine below) (type : BlockType)
    (hsees : Sees s c) {rest : List ValueType} (hpops : Pops b.unreachable mine [.i32] rest) :
    ∃ s', s.step c.scope (Token.ifThen type).op (Token.ifThen type).flat false = .ok (.more s') ∧
      Inside s' (entered (.ifThen s.instructions.size) type (rest ++ below).length false)
        (b :: outer) [] (rest ++ below) ∧ Sees s' (c.inside type) := by
  have hsees' : Sees { s with stack := rest ++ below } c := hsees.of_blocks rfl
  exact ⟨_, hinside.step_ifThen_iff.mpr ⟨rest, hpops, rfl⟩,
    (hinside.withStack rest).enter _ _ _ (blockResults_opening _ type),
    hsees'.enter _ _ (blockResults_opening _ type) rfl⟩

/-! ## Closing a block -/

/-- A block is closed if its results are all that it has on the stack. -/
theorem Inside.closeBlock_iff {b' : Block} (hinside : Inside s b outer mine below)
    (hresults : b.results = results type) :
    s.closeBlock = .ok (b', s') ↔
      b' = b ∧ Pops b.unreachable mine type.toList [] ∧
        s' = { s with stack := below, blocks := outer } := by
  simp only [Checker.closeBlock, hinside.blocks_eq, hresults, results_eq, except_bind_eq_ok,
    hinside.popTypes_iff]
  constructor
  · rintro ⟨_, ⟨rest, hpops, rfl⟩, hdone⟩
    split at hdone
    · simp at hdone
    · rename_i hheight
      obtain rfl : rest = [] := by simpa [hinside.height_eq] using hheight
      cases hdone
      exact ⟨rfl, hpops, rfl⟩
  · rintro ⟨rfl, hpops, rfl⟩
    refine ⟨_, ⟨[], hpops, rfl⟩, ?_⟩
    simp [hinside.height_eq]

/-- The checker after the end of a block that is not the function. -/
def closed (s : Checker) (b : Block) (outer : List Block) (below : List ValueType) : Checker :=
  (({ s with stack := below, blocks := outer }.append Token.close.flat).resolve b.opener
    (s.instructions.size + 1)).push b.results

/-- The checker accepts the end of a block that has its results, if an `if` without a second branch
has none. -/
theorem Inside.step_close_iff {scope : Scope} (hinside : Inside s b outer mine below)
    (hresults : b.results = results type) (hshape : shapeOf b.opener ≠ .function) :
    s.step scope Token.close.op Token.close.flat last = .ok (.more s') ↔
      Pops b.unreachable mine type.toList [] ∧ (shapeOf b.opener = .ifThen → type = none) ∧
        s' = Structured.closed s b outer below := by
  simp only [Token.op, Checker.step, except_bind_eq_ok, Prod.exists,
    hinside.closeBlock_iff hresults]
  -- An `if` without an `else` has an arm that does nothing, which is why the checker refuses
  -- results there.
  have hnone : results type = [] ↔ type = none := by cases type <;> simp [results]
  constructor
  · rintro ⟨found, _, ⟨hfound, hpops, rfl⟩, hdone⟩
    obtain rfl := hfound.symm
    refine ⟨hpops, ?_⟩
    cases hopener : b.opener with
    | function => exact absurd (by rw [hopener]; rfl) hshape
    | ifThen at_ =>
      simp only [hopener, hresults, hnone, ne_eq] at hdone
      split at hdone
      · simp at hdone
      · rename_i htype
        cases hdone
        refine ⟨fun _ => not_not.mp htype, ?_⟩
        simp [Structured.closed, hopener, hresults]
    | block at_ | loop at_ | otherwise at_ other =>
      simp only [hopener] at hdone
      cases hdone
      exact ⟨by simp [shapeOf], by simp [Structured.closed, hopener]⟩
  · rintro ⟨hpops, htype, rfl⟩
    refine ⟨_, _, ⟨rfl, hpops, rfl⟩, ?_⟩
    cases hopener : b.opener with
    | function => exact absurd (by rw [hopener]; rfl) hshape
    | ifThen at_ =>
      have hempty : b.results = [] := by
        rw [hresults, hnone]
        exact htype (by rw [hopener]; rfl)
      simp [Structured.closed, hopener, hempty]
    | block at_ | loop at_ | otherwise at_ other => simp [Structured.closed, hopener]

/-- Closing a block leaves those around it. -/
theorem closed_blocks : (Structured.closed s b outer below).blocks = outer := by
  cases hopener : b.opener <;> simp [Structured.closed, hopener, Checker.push, Checker.resolve,
    Checker.relabel, Checker.append]

/-- The results of a block are left on top of the operands of the block around it. -/
theorem closed_stack (hresults : b.results = results type) :
    (Structured.closed s b outer below).stack = results type ++ below := by
  have hreverse : (results type).reverse = results type := by cases type <;> rfl
  cases hopener : b.opener <;> simp [Structured.closed, hopener, hresults, hreverse, Checker.push,
    Checker.resolve, Checker.relabel, Checker.append]

/-- After a block that was opened in the state `s` the checker is back in the block around it, which
has the results on top. -/
theorem Inside.of_step_close {scope : Scope} {t : Checker} {opener : Opener} {dead : Bool}
    {inner : List ValueType} (hinside : Inside s b outer mine below) (hsees : Sees s c)
    (hinner : Inside t (entered opener type (mine ++ below).length dead)
      (b :: outer) inner (mine ++ below))
    (hshape : shapeOf opener ≠ .function)
    (hstep : t.step scope Token.close.op Token.close.flat last = .ok (.more s')) :
    Pops dead inner type.toList [] ∧ (shapeOf opener = .ifThen → type = none) ∧
      Inside s' b outer (results type ++ mine) below ∧ Sees s' c := by
  obtain ⟨hpops, htype, rfl⟩ := (hinner.step_close_iff rfl hshape).mp hstep
  refine ⟨hpops, htype, ⟨closed_blocks, ?_, hinside.height_eq⟩, hsees.of_blocks ?_⟩
  · rw [closed_stack rfl, List.append_assoc]
  · rw [closed_blocks, hinside.blocks_eq]

/-- A block whose operands stand for its results can end. -/
theorem Inside.exists_step_close (scope : Scope) {opener : Opener} {dead : Bool} {height : Nat}
    (hinside : Inside s (entered opener type height dead) outer mine below)
    (hshape : shapeOf opener ≠ .function) (hpops : Pops dead mine type.toList [])
    (htype : shapeOf opener = .ifThen → type = none) :
    ∃ s', s.step scope Token.close.op Token.close.flat false = .ok (.more s') :=
  ⟨_, (hinside.step_close_iff rfl hshape).mpr ⟨hpops, htype, rfl⟩⟩

/-- The checker between the arms of the conditional at `at_`. -/
def switched (s : Checker) (b : Block) (outer : List Block) (below : List ValueType) (at_ : Nat) :
    Checker :=
  (({ s with stack := below, blocks := outer }.append
    { Token.otherwise.flat with labels := [0] }).relabel at_
      (·.set 1 s.instructions.size)).openBlock
      (.otherwise at_ s.instructions.size) b.results

/-- The checker accepts the middle of an `if` whose first branch has its results. -/
theorem Inside.step_otherwise_iff {scope : Scope} {at_ : Nat}
    (hinside : Inside s b outer mine below) (hresults : b.results = results type)
    (hopener : b.opener = .ifThen at_) (houter : outer ≠ []) :
    s.step scope Token.otherwise.op Token.otherwise.flat last = .ok (.more s') ↔
      Pops b.unreachable mine type.toList [] ∧ s' = Structured.switched s b outer below at_ := by
  have hlength : ¬ s.blocks.length < 2 := by
    have hpos := List.length_pos_iff.mpr houter
    rw [hinside.blocks_eq, List.length_cons]
    omega
  simp only [Token.op, Checker.step, hlength, if_false, except_bind_eq_ok, Prod.exists,
    hinside.closeBlock_iff hresults]
  constructor
  · rintro ⟨found, _, ⟨hfound, hpops, rfl⟩, hdone⟩
    obtain rfl := hfound.symm
    simp only [hopener] at hdone
    cases hdone
    exact ⟨hpops, rfl⟩
  · rintro ⟨hpops, rfl⟩
    refine ⟨_, _, ⟨rfl, hpops, rfl⟩, ?_⟩
    simp only [hopener]
    rfl

/-- The second branch begins with no operands of its own. -/
theorem Inside.switched {at_ : Nat} {b : Block} (hresults : b.results = results type) :
    Inside (Structured.switched s b outer below at_)
      (entered (.otherwise at_ s.instructions.size) type below.length false) outer [] below := by
  refine ⟨?_, rfl, rfl⟩
  simp [Structured.switched, Checker.openBlock, Checker.relabel, Checker.append, entered, hresults]

/-- The second arm of a conditional begins like the first. -/
theorem Inside.of_step_otherwise {scope : Scope} {t : Checker} {at_ : Nat} {dead : Bool}
    {inner : List ValueType} (hinside : Inside s b outer mine below) (hsees : Sees s c)
    (hinner : Inside t (entered (.ifThen at_) type (mine ++ below).length dead)
      (b :: outer) inner (mine ++ below))
    (hstep : t.step scope Token.otherwise.op Token.otherwise.flat last = .ok (.more s')) :
    Pops dead inner type.toList [] ∧
      Inside s' (entered (.otherwise at_ t.instructions.size) type (mine ++ below).length false)
        (b :: outer) [] (mine ++ below) ∧ Sees s' (c.inside type) := by
  obtain ⟨hpops, rfl⟩ := (hinner.step_otherwise_iff rfl rfl (by simp)).mp hstep
  have hswitched : Inside (Structured.switched t
      (entered (.ifThen at_) type (mine ++ below).length dead) (b :: outer) (mine ++ below) at_)
      (entered (.otherwise at_ t.instructions.size) type (mine ++ below).length false) _ _ _ :=
    Inside.switched rfl
  exact ⟨hpops, hswitched, hsees.openBlock (by rw [hswitched.blocks_eq, hinside.blocks_eq]) rfl⟩

/-- Where the first branch has its results there is a step into the second. -/
theorem Inside.exists_step_otherwise (scope : Scope) {at_ : Nat} {dead : Bool} {height : Nat}
    (hinside : Inside s (entered (.ifThen at_) type height dead) (b :: outer)
      mine below)
    (hpops : Pops dead mine type.toList []) :
    ∃ s', s.step scope Token.otherwise.op Token.otherwise.flat false = .ok (.more s') :=
  ⟨_, (hinside.step_otherwise_iff rfl rfl (by simp)).mpr ⟨hpops, rfl⟩⟩

/-- The body of a function ends if the operands stand for its results. -/
theorem Inside.step_done_iff {scope : Scope} {body : Body} (hinside : Inside s b outer mine below)
    (hresults : b.results = results type) (hopener : b.opener = .function) :
    s.step scope Token.close.op Token.close.flat true = .ok (.done body) ↔
      Pops b.unreachable mine type.toList [] ∧
        body = { instructions := s.instructions.push Token.close.flat, metrics := s.metrics } := by
  simp only [Token.op, Checker.step, except_bind_eq_ok, Prod.exists,
    hinside.closeBlock_iff hresults]
  constructor
  · rintro ⟨found, _, ⟨hfound, hpops, rfl⟩, hdone⟩
    obtain rfl := hfound.symm
    simp only [hopener] at hdone
    cases hdone
    exact ⟨hpops, rfl⟩
  · rintro ⟨hpops, rfl⟩
    refine ⟨_, _, ⟨rfl, hpops, rfl⟩, ?_⟩
    simp only [hopener]
    rfl

end

/-- The checker at the beginning of a body. -/
theorem inside_start (type : BlockType) :
    Inside (Checker.openBlock {} .function (results type))
      (entered .function type 0 false) [] [] [] :=
  ⟨rfl, rfl, rfl⟩

/-- The code of a function sees the function's own label. -/
theorem sees_start (scope : Scope) (type : BlockType) :
    Sees (Checker.openBlock {} .function (results type)) (Context.ofFunction scope type) :=
  ⟨rfl, rfl⟩

end IntWasm.Structured
