import IntWasm.Proofs.Structured.Acceptance

/-!
# What the checker keeps

While the checker runs over code, it adds one instruction for each token. Instructions that were
there before stay as they are, because only the labels of blocks that the code itself opens are
resolved; and the sizes that are noted for the stacks never shrink and always suffice.
-/

namespace IntWasm.Structured

open Body

/-- The noted sizes suffice for the operands and the open blocks. -/
structure Sized (s : Checker) : Prop where
  stack_le : s.stack.length ≤ s.metrics.maxStack
  blocks_le : s.blocks.length ≤ s.metrics.maxNesting

/-- The opcodes of the instructions that were read. -/
def opcodes (instructions : Array Instruction) : List UInt8 :=
  instructions.toList.map Instruction.opcode

/-- An instruction that is added brings its opcode. -/
@[simp] theorem opcodes_push (instructions : Array Instruction) (i : Instruction) :
    opcodes (instructions.push i) = opcodes instructions ++ [i.opcode] := by
  simp [opcodes]

/-- Each instruction has an opcode. -/
theorem length_opcodes (instructions : Array Instruction) :
    (opcodes instructions).length = instructions.size := by
  simp [opcodes]

/-- Labels that change leave the opcodes alone. -/
@[simp] theorem opcodes_relabel (s : Checker) (at_ : Nat) (change : List Int → List Int) :
    opcodes (s.relabel at_ change).instructions = opcodes s.instructions := by
  apply List.ext_getElem?
  intro j
  simp only [opcodes, Checker.relabel, List.getElem?_map, Array.getElem?_toList,
    Array.getElem?_modify]
  split
  · cases s.instructions[j]? <;> rfl
  · rfl

/-- The checker has added instructions for `tokens` and kept the first `k`. -/
structure Grows (k : Nat) (s : Checker) (tokens : List Token) (s' : Checker) : Prop where
  opcodes_eq : opcodes s'.instructions =
    opcodes s.instructions ++ tokens.map fun token => token.op.byte
  kept : ∀ j < k, s'.instructions[j]? = s.instructions[j]?
  maxStack_le : s.metrics.maxStack ≤ s'.metrics.maxStack
  maxNesting_le : s.metrics.maxNesting ≤ s'.metrics.maxNesting
  sized : Sized s → Sized s'

section

variable {k k' : Nat} {s t s' : Checker} {tokens more : List Token}

/-- Without tokens nothing grows. -/
theorem Grows.refl (k : Nat) (s : Checker) : Grows k s [] s :=
  ⟨by simp, fun _ _ => rfl, le_rfl, le_rfl, id⟩

/-- Growth over tokens is followed by growth over more of them. -/
theorem Grows.trans (hfirst : Grows k s tokens t) (hmore : Grows k t more s') :
    Grows k s (tokens ++ more) s' where
  opcodes_eq := by simp [hmore.opcodes_eq, hfirst.opcodes_eq]
  kept j hj := by rw [hmore.kept j hj, hfirst.kept j hj]
  maxStack_le := hfirst.maxStack_le.trans hmore.maxStack_le
  maxNesting_le := hfirst.maxNesting_le.trans hmore.maxNesting_le
  sized := hmore.sized ∘ hfirst.sized

/-- Where the first `k` instructions are kept, so are fewer. -/
theorem Grows.mono (hgrows : Grows k s tokens s') (hk : k' ≤ k) : Grows k' s tokens s' :=
  { hgrows with kept := fun j hj => hgrows.kept j (hj.trans_le hk) }

/-- Each token adds an instruction. -/
theorem Grows.size_eq (hgrows : Grows k s tokens s') :
    s'.instructions.size = s.instructions.size + tokens.length := by
  have hlength := congrArg List.length hgrows.opcodes_eq
  simpa [length_opcodes] using hlength

/-- Whether there are loops is noted besides. -/
theorem Grows.hasLoops (hgrows : Grows k s tokens s') :
    Grows k s tokens { s' with metrics.hasLoops := true } :=
  ⟨hgrows.opcodes_eq, hgrows.kept, hgrows.maxStack_le, hgrows.maxNesting_le,
    fun hsized => ⟨(hgrows.sized hsized).stack_le, (hgrows.sized hsized).blocks_le⟩⟩

/-! ## Single steps -/

/-- The instruction at an index after labels were changed. -/
theorem getElem?_relabel (s : Checker) (at_ j : Nat) (change : List Int → List Int) :
    (s.relabel at_ change).instructions[j]? =
      if at_ = j then (s.instructions[j]?).map fun i => { i with labels := change i.labels }
      else s.instructions[j]? := by
  rw [Checker.relabel, Array.getElem?_modify]

/-- An instruction that opens and closes nothing is added at the end. -/
theorem Advances.grows {i : Instr} (hadvances : Advances s i.flat s')
    (hblocks : s'.blocks.length = s.blocks.length) (hk : k ≤ s.instructions.size) :
    Grows k s [.instr i] s' where
  opcodes_eq := by
    rw [hadvances.instructions_eq, opcodes_push]
    rfl
  kept j hj := by rw [hadvances.instructions_eq, Array.getElem?_push_lt (hj.trans_le hk)]; simp
  maxStack_le := hadvances.maxStack_le
  maxNesting_le := hadvances.nesting_eq.ge
  sized hsized := ⟨hadvances.stack_fits hsized.stack_le, by
    rw [hblocks, hadvances.nesting_eq]
    exact hsized.blocks_le⟩

/-- The instruction that opens a block, with the height of the stack at its entry. -/
def opening (i : Instruction) (height : Nat) (labels : List Int) : Instruction :=
  { i with
    labels
    immediate := i.immediate ||| ((UInt64.ofNat height <<< 32) &&& Instruction.heightMask) }

/-- The instruction that opens a block is added with the height at which it does. -/
theorem instructions_enter (s : Checker) (i : Instruction) (opener : Opener) (labels : List Int) :
    (s.enter i opener labels).instructions =
      s.instructions.push (opening i s.stack.length labels) := rfl

/-- Entering a block adds one instruction and one to the nesting. -/
theorem grows_enter (token : Token) (opener : Opener) (labels : List Int)
    {stack : List ValueType} (hstack : stack.length ≤ s.stack.length)
    (hopcode : token.flat.opcode = token.op.byte) (hk : k ≤ s.instructions.size) :
    Grows k s [token] (({ s with stack } : Checker).enter token.flat opener labels) where
  opcodes_eq := by
    rw [instructions_enter, opcodes_push]
    exact congrArg _ (congrArg (fun byte => [byte]) hopcode)
  kept j hj := by
    rw [instructions_enter, Array.getElem?_push_lt (hj.trans_le hk)]
    simp
  maxStack_le := le_rfl
  maxNesting_le := le_max_left _ _
  sized hsized := ⟨hstack.trans hsized.stack_le, le_max_right _ _⟩

/-- The indices of the instructions whose labels are resolved at the end of a block. -/
def touched : Opener → List Nat
  | .function | .loop _ => []
  | .block at_ | .ifThen at_ => [at_]
  | .otherwise at_ other => [at_, other]

/-- An instruction with its first label resolved. -/
def resolved (next : Nat) (i : Instruction) : Instruction :=
  { i with labels := i.labels.set 0 next }

/-- A branch that is resolved twice goes to the later place. -/
theorem resolved_resolved (next : Nat) (i : Instruction) :
    resolved next (resolved next i) = resolved next i := by
  simp [resolved]

/-- The instruction at an index after the labels of a block were resolved. -/
theorem getElem?_resolve (s : Checker) (opener : Opener) (next j : Nat) :
    (s.resolve opener next).instructions[j]? =
      if j ∈ touched opener then (s.instructions[j]?).map (resolved next)
      else s.instructions[j]? := by
  have hone (s : Checker) (at_ : Nat) : (s.relabel at_ (·.set 0 next)).instructions[j]? =
      if j = at_ then (s.instructions[j]?).map (resolved next) else s.instructions[j]? := by
    rw [getElem?_relabel]
    simp only [eq_comm]
    rfl
  cases opener with
  | function | loop => simp [Checker.resolve, touched]
  | block at_ | ifThen at_ => simp only [Checker.resolve, touched, hone, List.mem_singleton]
  | otherwise at_ other =>
    simp only [Checker.resolve, touched, hone, List.mem_cons, List.not_mem_nil, or_false]
    by_cases hfirst : j = at_
    · simp only [if_pos hfirst, if_pos (Or.inl hfirst), Option.map_map, Function.comp_def,
        resolved_resolved, ite_self]
    · simp only [hfirst, if_false, false_or]

/-- Resolving a block's branches changes its opening instructions only. -/
theorem grows_resolve {opener : Opener} (habove : ∀ j ∈ touched opener, k ≤ j) (next : Nat) :
    Grows k s [] (s.resolve opener next) := by
  refine ⟨?_, fun j hj => ?_, ?_, ?_, fun hsized => ?_⟩
  · cases opener <;> simp [Checker.resolve]
  · have hnot : j ∉ touched opener := fun hmem => absurd (habove j hmem) (by omega)
    rw [getElem?_resolve, if_neg hnot]
  · cases opener <;> exact le_rfl
  · cases opener <;> exact le_rfl
  · cases opener <;> exact ⟨hsized.stack_le, hsized.blocks_le⟩

/-- Closing a block adds its end and resolves its branches. -/
theorem grows_closed {b : Block} {outer : List Block} {mine below : List ValueType}
    (hinside : Inside s b outer mine below) (habove : ∀ j ∈ touched b.opener, k ≤ j)
    (hk : k ≤ s.instructions.size) : Grows k s [.close] (closed s b outer below) := by
  have hstack := congrArg List.length hinside.stack_eq
  have hblocks := congrArg List.length hinside.blocks_eq
  simp only [List.length_append, List.length_cons] at hstack hblocks
  have hclose : Grows k s [.close]
      (({ s with stack := below, blocks := outer } : Checker).append Token.close.flat) := by
    refine ⟨by simp [Checker.append, Token.flat, Token.op, Instruction.plain], fun j hj => ?_,
      le_rfl, le_rfl, fun hsized => ⟨?_, ?_⟩⟩
    · simp only [Checker.append]
      rw [Array.getElem?_push_lt (hj.trans_le hk)]
      simp
    · have hle := hsized.stack_le
      simp only [Checker.append]
      omega
    · have hle := hsized.blocks_le
      simp only [Checker.append]
      omega
  have hresolve := hclose.trans (grows_resolve habove (s.instructions.size + 1))
  have hpush (t : Checker) (types : List ValueType) : Grows k t [] (t.push types) :=
    ⟨by simp [Checker.push], fun _ _ => rfl, le_max_left _ _, le_rfl,
      fun h => ⟨le_max_right _ _, h.blocks_le⟩⟩
  exact hresolve.trans (hpush _ b.results)

/-- The middle of an `if` is added and its opening instruction told where. -/
theorem grows_switched {at_ : Nat} {b : Block} {outer : List Block} {mine below : List ValueType}
    (hinside : Inside s b outer mine below) (hat : k ≤ at_) (hk : k ≤ s.instructions.size) :
    Grows k s [.otherwise] (switched s b outer below at_) where
  opcodes_eq := by
    simp [switched, Checker.openBlock, Checker.append, Token.flat, Token.op, Instruction.plain]
  kept j hj := by
    simp only [switched, Checker.openBlock]
    rw [getElem?_relabel, if_neg (by omega)]
    simp only [Checker.append]
    rw [Array.getElem?_push_lt (hj.trans_le hk)]
    simp
  maxStack_le := le_rfl
  maxNesting_le := le_max_left _ _
  sized hsized := by
    have hstack := congrArg List.length hinside.stack_eq
    have hle := hsized.stack_le
    simp only [List.length_append] at hstack
    refine ⟨?_, le_max_right _ _⟩
    simp only [switched, Checker.openBlock, Checker.relabel, Checker.append]
    omega

end

/-! ## Blocks -/

section

variable {c : Context} {s s' : Checker} {b : Block} {outer : List Block}
  {mine below : List ValueType}

/-- Code inside a block that ends: it runs from `t` to `u`, the operands below the block are
`stack`, and branches to the block carry `label`. -/
structure Encloses (c : Context) (outer : List Block) (stack : List ValueType) (opener : Opener)
    (type label : BlockType) (t : Checker) (body : Code) (u : Checker) : Prop where
  inside : Inside t (entered opener type stack.length false) outer [] stack
  sees : Sees t (c.inside label)
  runs : Runs c.scope t body.tokens u
  ends : ∃ dead inner, Inside u (entered opener type stack.length dead) outer inner stack ∧
    Pops dead inner type.toList []

/-- A block is a body between the states after its first token and before its last one. -/
theorem Inside.runs_block {type : BlockType} {body next : Code}
    (hinside : Inside s b outer mine below) (hproper : c.scope.Proper) (hsees : Sees s c)
    (hruns : Runs c.scope s (Code.block type body next).tokens s') :
    ∃ u v, Encloses c (b :: outer) (mine ++ below) (.block s.instructions.size) type type
        (s.enter (Token.block type).flat (.block s.instructions.size) [0]) body u ∧
      v = Structured.closed u
        (entered (.block s.instructions.size) type (mine ++ below).length false) (b :: outer)
          (mine ++ below) ∧
      Inside v b outer (results type ++ mine) below ∧ Sees v c ∧ Runs c.scope v next.tokens s' := by
  obtain ⟨t, hstep, hrest⟩ := hruns
  obtain ⟨hinside₁, hsees₁⟩ := hinside.of_step_block hsees hstep
  obtain ⟨u, hbody, v, hend, hnext⟩ := runs_append.mp hrest
  obtain ⟨dead, inner, -, hinside₂⟩ :=
    body.checks_of_runs (c := c.inside type) hproper hsees₁ hinside₁ hbody
  obtain ⟨hpops, -, hinside₃, hsees₃⟩ :=
    hinside.of_step_close hsees hinside₂ (by simp [shapeOf, entered]) hend
  obtain ⟨-, -, hv⟩ := (hinside₂.step_close_iff rfl (by simp [shapeOf, entered])).mp hend
  obtain rfl := step_block_iff.mp hstep
  exact ⟨u, v, ⟨hinside₁, hsees₁, hbody, dead, inner, hinside₂, hpops⟩, hv, hinside₃, hsees₃, hnext⟩

/-- The checker gets over a loop by entering it, getting over its inside and closing it. -/
theorem Inside.runs_loop {type : BlockType} {body next : Code}
    (hinside : Inside s b outer mine below) (hproper : c.scope.Proper) (hsees : Sees s c)
    (hruns : Runs c.scope s (Code.loop type body next).tokens s') :
    ∃ u v, Encloses c (b :: outer) (mine ++ below) (.loop s.instructions.size) type none
        { s.enter (Token.loop type).flat (.loop s.instructions.size) [s.instructions.size] with
          metrics.hasLoops := true } body u ∧
      v = Structured.closed u
        (entered (.loop s.instructions.size) type (mine ++ below).length false) (b :: outer)
        (mine ++ below) ∧
      Inside v b outer (results type ++ mine) below ∧ Sees v c ∧ Runs c.scope v next.tokens s' := by
  obtain ⟨t, hstep, hrest⟩ := hruns
  obtain ⟨hinside₁, hsees₁⟩ := hinside.of_step_loop hsees hstep
  obtain ⟨u, hbody, v, hend, hnext⟩ := runs_append.mp hrest
  obtain ⟨dead, inner, -, hinside₂⟩ :=
    body.checks_of_runs (c := c.inside none) hproper hsees₁ hinside₁ hbody
  obtain ⟨hpops, -, hinside₃, hsees₃⟩ :=
    hinside.of_step_close hsees hinside₂ (by simp [shapeOf, entered]) hend
  obtain ⟨-, -, hv⟩ := (hinside₂.step_close_iff rfl (by simp [shapeOf, entered])).mp hend
  obtain rfl := step_loop_iff.mp hstep
  exact ⟨u, v, ⟨hinside₁, hsees₁, hbody, dead, inner, hinside₂, hpops⟩, hv, hinside₃, hsees₃, hnext⟩

/-- The checker gets over an `if` with one branch by taking the condition, entering it and closing
it. -/
theorem Inside.runs_ifThen {type : BlockType} {body next : Code}
    (hinside : Inside s b outer mine below) (hproper : c.scope.Proper) (hsees : Sees s c)
    (hruns : Runs c.scope s (Code.ifThen type body next).tokens s') :
    ∃ rest u v, Pops b.unreachable mine [.i32] rest ∧ type = none ∧
      Encloses c (b :: outer) (rest ++ below) (.ifThen s.instructions.size) none none
        (({ s with stack := rest ++ below } : Checker).enter (Token.ifThen none).flat
          (.ifThen s.instructions.size) [0, 0]) body u ∧
      v = Structured.closed u
        (entered (.ifThen s.instructions.size) none (rest ++ below).length false) (b :: outer)
          (rest ++ below) ∧
      Inside v b outer rest below ∧ Sees v c ∧ Runs c.scope v next.tokens s' := by
  obtain ⟨t, hstep, hrest⟩ := hruns
  obtain ⟨rest, hcondition, rfl⟩ := hinside.step_ifThen_iff.mp hstep
  have hopen := hinside.withStack rest
  have hsees₀ : Sees { s with stack := rest ++ below } c := hsees.of_blocks rfl
  have hinside₁ := hopen.enter _ (.ifThen s.instructions.size) [0, 0]
    (blockResults_opening .ifThen type)
  have hsees₁ : Sees _ (c.inside type) := hsees₀.enter _ [0, 0] (blockResults_opening .ifThen type)
    (show (entered (.ifThen s.instructions.size) type _ false).branchTypes = _ from rfl)
  obtain ⟨u, hbody, v, hend, hnext⟩ := runs_append.mp hrest
  obtain ⟨dead, inner, -, hinside₂⟩ :=
    body.checks_of_runs (c := c.inside type) hproper hsees₁ hinside₁ hbody
  obtain ⟨hpops, htype, hinside₃, hsees₃⟩ :=
    hopen.of_step_close hsees₀ hinside₂ (by simp [shapeOf, entered]) hend
  obtain ⟨-, -, hv⟩ := (hinside₂.step_close_iff rfl (by simp [shapeOf, entered])).mp hend
  obtain rfl := htype rfl
  exact ⟨rest, u, v, hcondition, rfl, ⟨hinside₁, hsees₁, hbody, dead, inner, hinside₂, hpops⟩, hv,
    hinside₃, hsees₃, hnext⟩

/-- The checker gets over an `if` with two branches by switching from the first one to the second.
-/
theorem Inside.runs_ifElse {type : BlockType} {first second next : Code}
    (hinside : Inside s b outer mine below) (hproper : c.scope.Proper) (hsees : Sees s c)
    (hruns : Runs c.scope s (Code.ifElse type first second next).tokens s') :
    ∃ rest u v w, Pops b.unreachable mine [.i32] rest ∧
      Encloses c (b :: outer) (rest ++ below) (.ifThen s.instructions.size) type type
        (({ s with stack := rest ++ below } : Checker).enter (Token.ifThen type).flat
          (.ifThen s.instructions.size) [0, 0]) first u ∧
      Encloses c (b :: outer) (rest ++ below)
        (.otherwise s.instructions.size u.instructions.size) type type
        (Structured.switched u
          (entered (.ifThen s.instructions.size) type (rest ++ below).length false) (b :: outer)
            (rest ++ below) s.instructions.size) second v ∧
      w = Structured.closed v (entered (.otherwise s.instructions.size u.instructions.size) type
        (rest ++ below).length false) (b :: outer) (rest ++ below) ∧
      Inside w b outer (results type ++ rest) below ∧ Sees w c ∧ Runs c.scope w next.tokens s' := by
  obtain ⟨t, hstep, hrest⟩ := hruns
  obtain ⟨rest, hcondition, rfl⟩ := hinside.step_ifThen_iff.mp hstep
  have hopen := hinside.withStack rest
  have hsees₀ : Sees { s with stack := rest ++ below } c := hsees.of_blocks rfl
  have hinside₁ := hopen.enter _ (.ifThen s.instructions.size) [0, 0]
    (blockResults_opening .ifThen type)
  have hsees₁ : Sees _ (c.inside type) := hsees₀.enter _ [0, 0] (blockResults_opening .ifThen type)
    (show (entered (.ifThen s.instructions.size) type _ false).branchTypes = _ from rfl)
  obtain ⟨u, hfirst, x, hmiddle, hlast⟩ := runs_append.mp hrest
  obtain ⟨dead₁, inner₁, -, hinside₂⟩ :=
    first.checks_of_runs (c := c.inside type) hproper hsees₁ hinside₁ hfirst
  obtain ⟨hpops₁, hinside₃, hsees₃⟩ := hopen.of_step_otherwise hsees₀ hinside₂ hmiddle
  obtain ⟨-, hx⟩ := (hinside₂.step_otherwise_iff rfl rfl (by simp)).mp hmiddle
  obtain ⟨v, hsecond, w, hend, hnext⟩ := runs_append.mp hlast
  obtain ⟨dead₂, inner₂, -, hinside₄⟩ :=
    second.checks_of_runs (c := c.inside type) hproper hsees₃ hinside₃ hsecond
  obtain ⟨hpops₂, -, hinside₅, hsees₅⟩ :=
    hopen.of_step_close hsees₀ hinside₄ (by simp [shapeOf, entered]) hend
  obtain ⟨-, -, hw⟩ := (hinside₄.step_close_iff rfl (by simp [shapeOf, entered])).mp hend
  subst hx
  exact ⟨rest, u, v, w, hcondition, ⟨hinside₁, hsees₁, hfirst, dead₁, inner₁, hinside₂, hpops₁⟩,
    ⟨hinside₃, hsees₃, hsecond, dead₂, inner₂, hinside₄, hpops₂⟩, hw, hinside₅, hsees₅, hnext⟩

/-- Taking operands leaves no more of them. -/
theorem Inside.length_le {types : List IntType} {rest : List ValueType}
    (hinside : Inside s b outer mine below) (hpops : Pops b.unreachable mine types rest) :
    (rest ++ below).length ≤ s.stack.length := by
  have hle := hpops.length_le
  rw [hinside.stack_eq, List.length_append, List.length_append]
  omega

/-- The whole of a block, given what its opening, its body and the code after it do. -/
theorem Encloses.grows {before middle after : List Token} {stack : List ValueType} {opener : Opener}
    {type label : BlockType} {t u : Checker} {body : Code}
    (hencloses : Encloses c outer stack opener type label t body u)
    (habove : ∀ j ∈ touched opener, s.instructions.size ≤ j)
    (hopen : Grows s.instructions.size s before t) (hbody : Grows t.instructions.size t middle u)
    (hnext : Grows (Structured.closed u (entered opener type stack.length false) outer
      stack).instructions.size
        (Structured.closed u (entered opener type stack.length false) outer stack) after s') :
    Grows s.instructions.size s (before ++ middle ++ [.close] ++ after) s' := by
  obtain ⟨dead, inner, hinside, -⟩ := hencloses.ends
  have hopened := hopen.size_eq
  have hgrown := hbody.size_eq
  have hclose : Grows s.instructions.size u [.close]
      (Structured.closed u (entered opener type stack.length dead) outer stack) :=
    grows_closed hinside habove (by omega)
  have hclosed : (Structured.closed u (entered opener type stack.length false) outer
      stack).instructions.size = u.instructions.size + 1 := hclose.size_eq
  have hfirst := hopen.trans (hbody.mono (by omega))
  exact (hfirst.trans hclose).trans (hnext.mono (by omega))

/-- A run over code adds its instructions and keeps those before it. -/
theorem Code.grows_of_runs (code : Code) (hproper : c.scope.Proper) (hsees : Sees s c)
    (hinside : Inside s b outer mine below) (hruns : Runs c.scope s code.tokens s') :
    Grows s.instructions.size s code.tokens s' := by
  induction code generalizing c s s' b outer mine below with
  | done =>
    cases hruns
    exact .refl _ _
  -- Each induction hypothesis keeps what was there when its part began; it is weakened to the start
  -- of the whole before the parts are put together.
  | instr i next ih =>
    obtain ⟨t, hstep, hnext⟩ := hruns
    obtain ⟨dead, mine', -, hinside', hadvances⟩ := hinside.checks_of_step hproper hsees hstep
    have hsees' := hsees.of_unreachable hinside.blocks_eq hinside'.blocks_eq
    have hfirst : Grows s.instructions.size s [.instr i] t :=
      hadvances.grows (by rw [hinside.blocks_eq, hinside'.blocks_eq]; rfl) le_rfl
    have hmore : Grows s.instructions.size t next.tokens s' :=
      (ih hproper hsees' hinside' hnext).mono (by rw [hfirst.size_eq]; omega)
    exact hfirst.trans hmore
  | block type body next ihbody ihnext =>
    obtain ⟨u, v, hencloses, rfl, hinside', hsees', hnext⟩ :=
      hinside.runs_block hproper hsees hruns
    have hopen := grows_enter (.block type) (.block s.instructions.size) [0]
      (le_refl s.stack.length) rfl le_rfl
    have hbody := ihbody (c := c.inside type) hproper hencloses.sees hencloses.inside hencloses.runs
    have hmore := ihnext hproper hsees' hinside' hnext
    simpa [tokens] using hencloses.grows (by simp [touched]) hopen hbody hmore
  | loop type body next ihbody ihnext =>
    obtain ⟨u, v, hencloses, rfl, hinside', hsees', hnext⟩ :=
      hinside.runs_loop hproper hsees hruns
    have hopen := grows_enter (.loop type) (.loop s.instructions.size)
      [s.instructions.size] (le_refl s.stack.length) rfl le_rfl
    have hbody := ihbody (c := c.inside none) hproper hencloses.sees hencloses.inside hencloses.runs
    have hmore := ihnext hproper hsees' hinside' hnext
    simpa [tokens] using hencloses.grows (by simp [touched]) hopen.hasLoops hbody hmore
  | ifThen type body next ihbody ihnext =>
    obtain ⟨rest, u, v, hcondition, rfl, hencloses, rfl, hinside', hsees', hnext⟩ :=
      hinside.runs_ifThen hproper hsees hruns
    have hopen := grows_enter (.ifThen none) (.ifThen s.instructions.size) [0, 0]
      (hinside.length_le hcondition) rfl le_rfl
    have hbody := ihbody (c := c.inside none) hproper hencloses.sees hencloses.inside hencloses.runs
    have hmore := ihnext hproper hsees' hinside' hnext
    simpa [tokens] using hencloses.grows (by simp [touched]) hopen hbody hmore
  | ifElse type first second next ihfirst ihsecond ihnext =>
    obtain ⟨rest, u, v, w, hcondition, hfirst, hsecond, rfl, hinside', hsees', hnext⟩ :=
      hinside.runs_ifElse hproper hsees hruns
    have hopen := grows_enter (.ifThen type) (.ifThen s.instructions.size) [0, 0]
      (hinside.length_le hcondition) rfl le_rfl
    have hgrows₁ := ihfirst (c := c.inside type) hproper hfirst.sees hfirst.inside hfirst.runs
    have hgrows₂ := ihsecond (c := c.inside type) hproper hsecond.sees hsecond.inside hsecond.runs
    have hmore := ihnext hproper hsees' hinside' hnext
    have hopened := hopen.size_eq
    have hgrown := hgrows₁.size_eq
    obtain ⟨dead, inner, hend, -⟩ := hfirst.ends
    have hswitch := grows_switched hend (le_refl s.instructions.size) (by omega)
    have habove : ∀ j ∈ touched (.otherwise s.instructions.size u.instructions.size),
        s.instructions.size ≤ j := by
      simp only [touched, List.mem_cons, List.not_mem_nil, or_false, forall_eq_or_imp, forall_eq]
      omega
    have harms := (hopen.trans (hgrows₁.mono (by omega))).trans hswitch
    simpa [tokens] using hsecond.grows habove harms hgrows₂ hmore

end

end IntWasm.Structured
