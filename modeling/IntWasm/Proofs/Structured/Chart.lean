import IntWasm.Proofs.Structured.Openings

/-!
# The chart of a checked body

Checked bodies are flat, and branches in them are resolved. The chart of a body gives the types of
the operands that the checker has found before each instruction. `Code.Charted` says that code lies
at an index of a body: the instructions there are those of the code, the labels and heights of its
blocks are right, and the chart is right at every point that can be reached. Main statement: a body
that the checker accepts has its code charted from its beginning.
-/

namespace IntWasm

namespace Body

/-- The types of the operands that the checker has found after `n` more instructions, the topmost
first. -/
def Checker.typesAfter (scope : Scope) : Nat → List UInt8 → Checker → Option (List ValueType)
  | 0, _, s => some s.stack
  | n + 1, bytes, s =>
    match Instruction.ofBytes bytes with
    | .error _ => none
    | .ok (i, rest) =>
      match i.op? with
      | none => none
      | some op =>
        match s.step scope op i rest.isEmpty with
        | .ok (.more s) => typesAfter scope n rest s
        | _ => none

/-- The chart of a body that gives `results`: the types of the operands before each of its
instructions, the topmost first. -/
def chart (scope : Scope) (results : List ValueType) (code : List UInt8) (n : Nat) :
    Option (List ValueType) :=
  Checker.typesAfter scope n code (Checker.openBlock {} .function results)

end Body

namespace Structured

open Body

/-- From a state on, the checker gets over tokens as a chart says. -/
def Tells (scope : Scope) (types : Nat → Option (List ValueType)) (s : Checker)
    (tokens : List Token) : Prop :=
  ∀ first rest t, tokens = first ++ rest → Runs scope s first t →
    types (s.instructions.size + first.length) = some t.stack

namespace Tells

variable {scope : Scope} {types : Nat → Option (List ValueType)} {s t : Checker}
  {tokens first rest : List Token}

/-- The chart is right at the beginning. -/
theorem here (htells : Tells scope types s tokens) : types s.instructions.size = some s.stack :=
  htells [] tokens s rfl rfl

/-- What is told of tokens is told of those they begin with. -/
theorem before (htells : Tells scope types s (first ++ rest)) : Tells scope types s first :=
  fun start more t heq hruns => htells start (more ++ rest) t (by rw [heq, List.append_assoc]) hruns

/-- After its first token the checker gets over the other ones as the chart says. -/
theorem tail {token : Token} (htells : Tells scope types s (token :: rest))
    (hstep : s.step scope token.op token.flat false = .ok (.more t))
    (hsize : t.instructions.size = s.instructions.size + 1) : Tells scope types t rest := by
  intro start more u heq hmore
  have hhere := htells (token :: start) more u (by rw [heq]; rfl) ⟨t, hstep, hmore⟩
  rwa [List.length_cons, Nat.add_comm start.length, ← Nat.add_assoc, ← hsize] at hhere

/-- So it does after any number of tokens. -/
theorem after (htells : Tells scope types s (first ++ rest)) (hruns : Runs scope s first t)
    (hsize : t.instructions.size = s.instructions.size + first.length) :
    Tells scope types t rest := by
  intro start more u heq hmore
  have hhere := htells (first ++ start) more u (by rw [heq, List.append_assoc])
    (runs_append.mpr ⟨t, hruns, hmore⟩)
  rwa [List.length_append, ← Nat.add_assoc, ← hsize] at hhere

end Tells

/-- One instruction further, the checker finds what it finds from its next state on. -/
theorem typesAfter_of_step {scope : Scope} {n : Nat} {bytes rest : List UInt8} {s t : Checker}
    {i : Instruction} {op : Opcode} (hread : Instruction.ofBytes bytes = .ok (i, rest))
    (hop : i.op? = some op) (hstep : s.step scope op i rest.isEmpty = .ok (.more t)) :
    Checker.typesAfter scope (n + 1) bytes s = Checker.typesAfter scope n rest t := by
  rw [Checker.typesAfter, hread]
  -- To look the opcode up the kernel would have to build the table of opcodes.
  generalize Instruction.op? = find at hop ⊢
  as_aux_lemma => simp only [hop, hstep]

/-- The chart is what the checker finds after the tokens that begin a body. -/
theorem typesAfter_of_runs {scope : Scope} {tokens : List Token} {bytes : List UInt8}
    {s t : Checker} (hspells : SpellsTokens tokens bytes) (hruns : Runs scope s tokens t)
    (rest : List UInt8) :
    Checker.typesAfter scope tokens.length (bytes ++ rest) s = some t.stack := by
  induction tokens generalizing bytes s with
  | nil =>
    cases hspells
    cases hruns
    rfl
  | cons token tokens ih =>
    obtain ⟨first, more, rfl, hfirst, hmore⟩ := hspells
    obtain ⟨u, hstep, hruns⟩ := hruns
    rw [List.append_assoc, List.length_cons, typesAfter_of_step (ofBytes_of_spells hfirst _)
      token.op?_flat (step_more_iff.mpr hstep)]
    exact ih hmore hruns

/-- The checker gets over a body as its own chart says. -/
theorem tells_chart {scope : Scope} {results : List ValueType} {tokens : List Token}
    {bytes : List UInt8} (hspells : SpellsTokens tokens bytes) (rest : List UInt8) :
    Tells scope (chart scope results (bytes ++ rest))
      (Checker.openBlock {} .function results) tokens := by
  rintro first more t rfl hruns
  obtain ⟨start, later, rfl, hfirst, -⟩ := spellsTokens_append.mp hspells
  have htypes := typesAfter_of_runs hfirst hruns (later ++ rest)
  rw [← List.append_assoc] at htypes
  have hsize : (Checker.openBlock {} .function results).instructions.size = 0 := rfl
  rwa [hsize, Nat.zero_add]

/-! ## Code at its place -/

/-- An instruction begins a block: its opcode, the type of the block, how many operands lie below it
and where its branches go. -/
structure Opens (i : Instruction) (op : Opcode) (type : BlockType) (height : Nat)
    (labels : List Int) : Prop where
  opcode_eq : i.opcode = op.byte
  results_eq : i.blockResults = results type
  height_eq : i.height = height
  labels_eq : i.labels = labels

/-- A chart is right at an index, where there is room for the operands. -/
structure Marked (types : Nat → Option (List ValueType)) (body : Body) (ip : Nat)
    (stack : List IntType) : Prop where
  types_eq : types ip = some (stack.map IntType.valueType)
  fits : stack.length ≤ body.metrics.maxStack

/-- Code lies in a body from the index `ip` to the index `stop`, in a block that was entered with
operands of the types `below` and has to leave the types `results` on top of them. At `ip` the block
has operands of the types `mine`, and the chart is right at every point that can be reached. -/
inductive Code.Charted (types : Nat → Option (List ValueType)) (body : Body) :
    Context → (below : List IntType) → (stop : Nat) → (results : List IntType) → (ip : Nat) →
      (mine : List IntType) → Code → Prop
  | done {c below stop results ip mine} (hmark : Marked types body ip (mine ++ below))
      (hip : ip = stop) (hmine : mine = results) :
    Charted types body c below stop results ip mine .done
  | step {c below stop results ip mine i ins outs rest next}
      (hmark : Marked types body ip (mine ++ below)) (hat : body.instructions[ip]? = some i.flat)
      (hgoes : i.goesOn = true) (htype : i.HasType c ins outs) (hmine : mine = ins ++ rest)
      (hnext : Charted types body c below stop results (ip + 1) (outs ++ rest) next) :
    Charted types body c below stop results ip mine (.instr i next)
  | jump {c below stop results ip mine i ins rest next}
      (hmark : Marked types body ip (mine ++ below)) (hat : body.instructions[ip]? = some i.flat)
      (hjumps : i.Jumps c ins) (hmine : mine = ins ++ rest) :
    Charted types body c below stop results ip mine (.instr i next)
  | block {c below stop results ip mine type inner next i} {last : Nat}
      (hmark : Marked types body ip (mine ++ below)) (hat : body.instructions[ip]? = some i)
      (hopens : Opens i .block type (mine ++ below).length [(last + 1 : Nat)])
      (hclose : body.instructions[last]? = some Token.close.flat)
      (hopener : body.opener last = some i) (hnesting : c.labels.length < body.metrics.maxNesting)
      (hinner : Charted types body (c.inside type) (mine ++ below) last type.toList
        (ip + 1) [] inner)
      (hnext : Charted types body c below stop results (last + 1) (type.toList ++ mine) next) :
    Charted types body c below stop results ip mine (.block type inner next)
  | loop {c below stop results ip mine type inner next i} {last : Nat}
      (hmark : Marked types body ip (mine ++ below)) (hat : body.instructions[ip]? = some i)
      (hopens : Opens i .loop type (mine ++ below).length [(ip : Nat)])
      (hclose : body.instructions[last]? = some Token.close.flat)
      (hopener : body.opener last = some i) (hnesting : c.labels.length < body.metrics.maxNesting)
      (hinner : Charted types body (c.inside none) (mine ++ below) last type.toList
        (ip + 1) [] inner)
      (hnext : Charted types body c below stop results (last + 1) (type.toList ++ mine) next) :
    Charted types body c below stop results ip mine (.loop type inner next)
  | ifThen {c below stop results ip mine inner next i} {last : Nat}
      (hmark : Marked types body ip (.i32 :: (mine ++ below)))
      (hat : body.instructions[ip]? = some i)
      (hopens : Opens i .ifThen none (mine ++ below).length [(last + 1 : Nat), 0])
      (hclose : body.instructions[last]? = some Token.close.flat)
      (hopener : body.opener last = some i) (hnesting : c.labels.length < body.metrics.maxNesting)
      (hinner : Charted types body (c.inside none) (mine ++ below) last [] (ip + 1) [] inner)
      (hnext : Charted types body c below stop results (last + 1) mine next) :
    Charted types body c below stop results ip (.i32 :: mine) (.ifThen none inner next)
  | ifElse {c below stop results ip mine type first second next i e} {middle last : Nat}
      (hmark : Marked types body ip (.i32 :: (mine ++ below)))
      (hat : body.instructions[ip]? = some i)
      (hopens : Opens i .ifThen type (mine ++ below).length [(last + 1 : Nat), (middle : Nat)])
      (hmiddle : body.instructions[middle]? = some e) (hpos : middle ≠ 0)
      (helse : e.op? = some .otherwise) (hskip : e.labels = [(last + 1 : Nat)])
      (hopener : body.opener middle = some i)
      (hclose : body.instructions[last]? = some Token.close.flat)
      (hopener' : body.opener last = some i) (hnesting : c.labels.length < body.metrics.maxNesting)
      (hfirst : Charted types body (c.inside type) (mine ++ below) middle type.toList
        (ip + 1) [] first)
      (hsecond : Charted types body (c.inside type) (mine ++ below) last type.toList
        (middle + 1) [] second)
      (hnext : Charted types body c below stop results (last + 1) (type.toList ++ mine) next) :
    Charted types body c below stop results ip (.i32 :: mine) (.ifElse type first second next)

/-! ## From the checker -/

/-- The opening instruction that the checker writes opens a block. -/
theorem opens_opening (op : Opcode) (type : BlockType) {height : Nat} (labels : List Int)
    (hheight : height < 2 ^ 31) :
    Opens (opening (.opening op (Instruction.blockCode (typeByte type))) height labels) op type
      height labels :=
  ⟨rfl, blockResults_opening_height op type height labels, height_opening op type labels hheight,
    rfl⟩

/-- Resolving the branches of an opening instruction changes its first label only. -/
theorem Opens.resolved {i : Instruction} {op : Opcode} {type : BlockType} {height : Nat}
    {label : Int} {labels : List Int} (hopens : Opens i op type height (label :: labels))
    (next : Nat) : Opens (resolved next i) op type height (next :: labels) :=
  ⟨hopens.opcode_eq, hopens.results_eq, hopens.height_eq, by
    simp [Structured.resolved, hopens.labels_eq]⟩

/-- The instructions of a checker from the index `k` on are those of the body that comes out in the
end, and its sizes suffice. -/
structure Becomes (k : Nat) (s : Checker) (body : Body) : Prop where
  agrees : ∀ j, k ≤ j → j < s.instructions.size → body.instructions[j]? = s.instructions[j]?
  opcodes_prefix : opcodes s.instructions <+: opcodes body.instructions
  maxStack_le : s.metrics.maxStack ≤ body.metrics.maxStack
  maxNesting_le : s.metrics.maxNesting ≤ body.metrics.maxNesting

section

variable {c : Context} {s s' : Checker} {b : Block} {outer : List Block}
  {mine below : List ValueType} {stack : List IntType} {body : Body}
  {types : Nat → Option (List ValueType)}

/-- What will not change any more was there before more instructions were added. -/
theorem Becomes.before {k n : Nat} {tokens : List Token} (hbecomes : Becomes k s' body)
    (hgrows : Grows n s tokens s') (hkept : ∀ j, k ≤ j → j < s.instructions.size →
      s'.instructions[j]? = s.instructions[j]?) : Becomes k s body where
  agrees j hk hj := by
    rw [hbecomes.agrees j hk (by rw [hgrows.size_eq]; omega), hkept j hk hj]
  opcodes_prefix := by
    refine List.IsPrefix.trans ?_ hbecomes.opcodes_prefix
    rw [hgrows.opcodes_eq]
    exact List.prefix_append _ _
  maxStack_le := hgrows.maxStack_le.trans hbecomes.maxStack_le
  maxNesting_le := hgrows.maxNesting_le.trans hbecomes.maxNesting_le

/-- Fewer instructions are known from a later index on. -/
theorem Becomes.mono {k k' : Nat} (hbecomes : Becomes k s body) (hk : k ≤ k') : Becomes k' s body :=
  { hbecomes with agrees := fun j hj => hbecomes.agrees j (hk.trans hj) }

/-- The block around the end of balanced tokens begins with the token before them. -/
theorem Becomes.opener_eq {k j : Nat} {token : Token} {tokens : List Token}
    (hbecomes : Becomes k s' body) (hgrows : Grows j s (token :: tokens) s')
    (hopens : token.opens = true) (hbalanced : Balanced tokens) :
    body.opener s'.instructions.size = body.instructions[s.instructions.size]? := by
  have hopcodes := hbecomes.opcodes_prefix
  rw [hgrows.opcodes_eq] at hopcodes
  have hfound := Structured.opener_eq hopens hbalanced hopcodes
  rw [length_opcodes] at hfound
  rw [← hfound, hgrows.size_eq, List.length_cons]
  congr 1
  omega

/-- At the end of a block, its opening instruction and its branches are resolved and nothing else
is. -/
theorem getElem?_closed (u : Checker) (stack : List ValueType) (j : Nat) :
    (closed u b outer stack).instructions[j]? =
      if j ∈ touched b.opener then
        ((u.instructions.push Token.close.flat)[j]?).map (resolved (u.instructions.size + 1))
      else (u.instructions.push Token.close.flat)[j]? :=
  getElem?_resolve _ b.opener _ j

/-- The end of a block adds one instruction. -/
theorem Encloses.grows_close {stack : List ValueType} {opener : Opener} {type label : BlockType}
    {t u : Checker} {inner : Code}
    (hencloses : Encloses c outer stack opener type label t inner u) :
    Grows 0 u [.close] (closed u (entered opener type stack.length false) outer stack) := by
  obtain ⟨dead, mine, hinside, -⟩ := hencloses.ends
  have hclosed : Grows 0 u [.close]
      (closed u (entered opener type stack.length dead) outer stack) :=
    grows_closed hinside (by simp) (by simp)
  exact hclosed

/-- The middle of an `if` adds one instruction. -/
theorem Encloses.grows_switch {k at_ : Nat} {stack : List ValueType} {type label : BlockType}
    {t u : Checker} {inner : Code}
    (hencloses : Encloses c outer stack (.ifThen at_) type label t inner u) (hat : k ≤ at_)
    (hk : k ≤ u.instructions.size) :
    Grows k u [.otherwise]
      (switched u (entered (.ifThen at_) type stack.length false) outer stack at_) := by
  obtain ⟨dead, mine, hinside, -⟩ := hencloses.ends
  have hswitched : Grows k u [.otherwise]
      (switched u (entered (.ifThen at_) type stack.length dead) outer stack at_) :=
    grows_switched hinside hat hk
  exact hswitched

/-- The middle of an `if` sets the second label of its opening instruction and nothing else. -/
theorem getElem?_switched (u : Checker) (stack : List ValueType) (at_ j : Nat) :
    (switched u b outer stack at_).instructions[j]? =
      if at_ = j then
        ((u.instructions.push { Token.otherwise.flat with labels := [0] })[j]?).map fun i =>
          { i with labels := i.labels.set 1 (u.instructions.size : Nat) }
      else (u.instructions.push { Token.otherwise.flat with labels := [0] })[j]? := by
  simp only [switched, Checker.openBlock]
  rw [getElem?_relabel]
  rfl

/-- The body of a block does not change at its end, where there is the instruction that closes
it. -/
theorem Encloses.becomes {k : Nat} {stack : List ValueType} {opener : Opener}
    {type label : BlockType} {t u : Checker} {inner : Code}
    (hencloses : Encloses c outer stack opener type label t inner u)
    (hbecomes : Becomes k (closed u (entered opener type stack.length false) outer stack) body)
    (hgrows : Grows t.instructions.size t inner.tokens u)
    (htouched : ∀ j ∈ touched opener, j < t.instructions.size) (hk : k ≤ t.instructions.size) :
    Becomes t.instructions.size u body ∧
      body.instructions[u.instructions.size]? = some Token.close.flat := by
  have hclose := hencloses.grows_close
  have hsize := hgrows.size_eq
  have hsize' := hclose.size_eq
  have hnot (j : Nat) (hj : t.instructions.size ≤ j) :
      j ∉ touched (entered opener type stack.length false).opener :=
    fun hmem => absurd (htouched j hmem) (by omega)
  refine ⟨?_, ?_⟩
  · refine (hbecomes.mono hk).before hclose fun j hj hlt => ?_
    rw [getElem?_closed, if_neg (hnot j hj), Array.getElem?_push_lt hlt]
    simp
  · rw [hbecomes.agrees _ (by omega) (by rw [hsize']; simp), getElem?_closed,
      if_neg (hnot _ (by omega)), Array.getElem?_push_size]

/-- The number of open blocks is that of the labels that code sees. -/
theorem Sees.length_eq (hsees : Sees s c) : s.blocks.length = c.labels.length := by
  simpa using congrArg List.length hsees.labels_eq

/-- An instruction with a fixed type does not leave the code. -/
theorem Instr.goesOn_of_steady {i : Instr} (hsteady : i.isSteady = true) : i.goesOn = true := by
  cases i <;> first | rfl | cases hsteady

/-- Reachable code has exactly the types that are taken and those that are left. -/
theorem Pops.types_eq {mine ts : List IntType} {rest : List ValueType}
    (hpops : Pops false (mine.map IntType.valueType) ts rest) :
    ∃ more, mine = ts ++ more ∧ rest = more.map IntType.valueType := by
  induction ts generalizing mine with
  | nil => exact ⟨mine, rfl, (pops_nil_iff.mp hpops).symm⟩
  | cons t ts ih =>
    obtain ⟨a, inner, htakes | ⟨-, hdead, -⟩, hmatch, hmore⟩ := pops_cons_iff.mp hpops
    · obtain ⟨first, later, rfl, rfl, rfl⟩ := List.map_eq_cons_iff.mp htakes
      obtain ⟨more, rfl, hrest⟩ := ih hmore
      rcases hmatch with hany | hsame
      · exact absurd hany (IntType.valueType_ne_any first)
      · rw [IntType.valueType_injective hsame]
        exact ⟨more, rfl, hrest⟩
    · cases hdead

/-- The case of one type. -/
theorem Pops.type_eq {mine : List IntType} {t : IntType} {rest : List ValueType}
    (hpops : Pops false (mine.map IntType.valueType) [t] rest) :
    ∃ more, mine = t :: more ∧ rest = more.map IntType.valueType :=
  hpops.types_eq

/-- Reachable code has an operand to take. -/
theorem Takes.types_eq {mine : List IntType} {a : ValueType} {rest : List ValueType}
    (htakes : Takes false (mine.map IntType.valueType) a rest) :
    ∃ t more, mine = t :: more ∧ a = t.valueType ∧ rest = more.map IntType.valueType := by
  rcases htakes with htakes | ⟨-, hdead, -⟩
  · obtain ⟨t, more, rfl, rfl, rfl⟩ := List.map_eq_cons_iff.mp htakes
    exact ⟨t, more, rfl, rfl, rfl⟩
  · cases hdead

/-- What an instruction that can be reached does to the types of the operands. -/
theorem Instr.Checks.types_eq {i : Instr} {dead : Bool} {mine : List IntType}
    {mine' : List ValueType} (hchecks : i.Checks c false (mine.map IntType.valueType) dead mine') :
    (dead = false ∧ i.goesOn = true ∧ ∃ ins outs rest, i.HasType c ins outs ∧ mine = ins ++ rest ∧
      mine' = (outs ++ rest).map IntType.valueType) ∨
    ∃ ins rest, i.Jumps c ins ∧ mine = ins ++ rest := by
  cases hchecks with
  | steady hsteady htype hpops =>
    obtain ⟨rest, rfl, rfl⟩ := hpops.types_eq
    exact .inl ⟨rfl, goesOn_of_steady hsteady, _, _, rest, htype, rfl, by rw [List.map_append]⟩
  | drop htakes =>
    obtain ⟨t, rest, rfl, rfl, rfl⟩ := htakes.types_eq
    exact .inl ⟨rfl, rfl, [t], [], rest, .drop, rfl, rfl⟩
  | select hcondition hsecond hfirst hagree =>
    obtain ⟨rest₁, rfl, rfl⟩ := hcondition.types_eq
    obtain ⟨second, rest₂, rfl, rfl, rfl⟩ := hsecond.types_eq
    obtain ⟨first, rest, rfl, rfl, rfl⟩ := hfirst.types_eq
    simp only [IntType.valueType_ne_any, false_or] at hagree
    obtain rfl := IntType.valueType_injective hagree
    refine .inl ⟨rfl, rfl, [.i32, first, first], [first], rest, .select, rfl, ?_⟩
    rw [if_neg (IntType.valueType_ne_any first)]
    rfl
  | jump hjumps hpops =>
    obtain ⟨rest, rfl, -⟩ := hpops.types_eq
    exact .inr ⟨_, rest, hjumps, rfl⟩

/-- A block that can end has its results as its operands if its end can be reached. -/
theorem Inside.results_eq {height : Nat} {opener : Opener} {type : BlockType} {dead : Bool}
    {mine' : List ValueType}
    (hinside' : Inside s (entered opener type height dead) outer mine' below)
    (hpops : Pops dead mine' type.toList [])
    (hinside : Inside s (entered opener type height false) outer
      (stack.map IntType.valueType) below) :
    stack = type.toList := by
  have hblocks := hinside'.blocks_eq.symm.trans hinside.blocks_eq
  have hstack := hinside'.stack_eq.symm.trans hinside.stack_eq
  simp only [entered, List.cons.injEq, Block.mk.injEq, and_true, true_and] at hblocks
  subst hblocks
  rw [List.append_cancel_right hstack] at hpops
  obtain ⟨more, rfl, hmore⟩ := hpops.types_eq
  rw [List.map_eq_nil_iff.mp hmore.symm, List.append_nil]

/-- What a reachable block has at its end is what it was entered to give. -/
theorem Encloses.results_eq {bottom : List ValueType} {opener : Opener} {type label : BlockType}
    {t u : Checker} {inner : Code} (hencloses : Encloses c outer bottom opener type label t inner u)
    (hinside : Inside u (entered opener type bottom.length false) outer
      (stack.map IntType.valueType) bottom) :
    stack = type.toList := by
  obtain ⟨dead, mine', hinside', hpops⟩ := hencloses.ends
  exact hinside'.results_eq hpops hinside

/-- A block leaves at most one operand. -/
theorem length_toList_le (type : BlockType) : type.toList.length ≤ 1 := by
  cases type <;> simp
/-- The sizes of a body suffice for the operands that the checker knows. -/
theorem Becomes.fits {k j : Nat} {tokens : List Token} (hbecomes : Becomes k s' body)
    (hgrows : Grows j s tokens s') (hsized : Sized s) : s.stack.length ≤ body.metrics.maxStack :=
  hsized.stack_le.trans (hgrows.maxStack_le.trans hbecomes.maxStack_le)

/-- The checker's stack has the block's operands and those below. -/
theorem Inside.length_stack {mine lower : List IntType}
    (hinside : Inside s b outer (mine.map IntType.valueType) (lower.map IntType.valueType)) :
    s.stack.length = (mine ++ lower).length := by
  rw [hinside.stack_eq, ← List.map_append, List.length_map]

/-- Where the checker is at a point that can be reached, the chart is right. -/
theorem Tells.marked {tokens : List Token} {mine lower : List IntType}
    (htells : Tells c.scope types s tokens)
    (hinside : Inside s b outer (mine.map IntType.valueType) (lower.map IntType.valueType))
    (hfits : s.stack.length ≤ body.metrics.maxStack) :
    Marked types body s.instructions.size (mine ++ lower) :=
  ⟨by rw [htells.here, hinside.stack_eq, List.map_append], by rwa [← hinside.length_stack]⟩

/-- The end of a block is one more step of the checker. -/
theorem Encloses.step_close {bottom : List ValueType} {opener : Opener} {type label : BlockType}
    {t u : Checker} {inner : Code} (hencloses : Encloses c outer bottom opener type label t inner u)
    (hshape : shapeOf opener ≠ .function) (hnone : shapeOf opener = .ifThen → type = none) :
    u.step c.scope Token.close.op Token.close.flat false =
      .ok (.more (closed u (entered opener type bottom.length false) outer bottom)) := by
  obtain ⟨dead, mine, hinside, hpops⟩ := hencloses.ends
  exact (hinside.step_close_iff rfl hshape).mpr ⟨hpops, hnone, rfl⟩

/-- The checker accepts the middle of an `if` where the first branch ends. -/
theorem Encloses.step_otherwise {at_ : Nat} {bottom : List ValueType} {type label : BlockType}
    {t u : Checker} {inner : Code}
    (hencloses : Encloses c (b :: outer) bottom (.ifThen at_) type label t inner u) :
    u.step c.scope Token.otherwise.op Token.otherwise.flat false =
      .ok (.more (switched u (entered (.ifThen at_) type bottom.length false)
        (b :: outer) bottom at_)) := by
  obtain ⟨dead, mine, hinside, hpops⟩ := hencloses.ends
  exact (hinside.step_otherwise_iff rfl rfl (by simp)).mpr ⟨hpops, rfl⟩

/-- What is known in the end about a block whose opening begins at the state `s`. -/
structure Settled (c : Context) (outer : List Block) (stack : List ValueType) (type : BlockType)
    (opener : Opener) (s t u : Checker) (inner : Code) (body : Body) : Prop where
  sized : Sized t
  becomes : Becomes t.instructions.size u body
  size_eq : u.instructions.size = t.instructions.size + inner.tokens.length
  at_eq : ∀ j, s.instructions.size ≤ j → j < t.instructions.size → body.instructions[j]? =
    if j ∈ touched opener then (t.instructions[j]?).map (resolved (u.instructions.size + 1))
    else t.instructions[j]?
  close_eq : body.instructions[u.instructions.size]? = some Token.close.flat
  opener_eq : body.opener u.instructions.size = body.instructions[s.instructions.size]?
  nesting_lt : c.labels.length < body.metrics.maxNesting
  closed_sized : Sized (closed u (entered opener type stack.length false) outer stack)
  closed_size : (closed u (entered opener type stack.length false) outer stack).instructions.size =
    u.instructions.size + 1

/-- From the beginning of a block to its end nothing changes any more: what stands there stands in
the body that comes out, and the block around its end is the one opened there. -/
theorem Encloses.settled {stack : List ValueType} {opener : Opener} {type label : BlockType}
    {t u : Checker} {inner : Code} {token : Token} {tokens : List Token}
    (hencloses : Encloses c outer stack opener type label t inner u) (hproper : c.scope.Proper)
    (hsized : Sized s) (hopen : Grows s.instructions.size s (token :: tokens) t)
    (hopens : token.opens = true) (hbalanced : Balanced tokens)
    (hbecomes : Becomes s.instructions.size
      (closed u (entered opener type stack.length false) outer stack) body)
    (htouched : ∀ j ∈ touched opener, j < t.instructions.size) :
    Settled c outer stack type opener s t u inner body := by
  have hgrows := inner.grows_of_runs (c := c.inside label) hproper hencloses.sees hencloses.inside
    hencloses.runs
  have hle : s.instructions.size ≤ t.instructions.size := by
    rw [hopen.size_eq]
    omega
  obtain ⟨hinner, hclose⟩ := hencloses.becomes hbecomes hgrows htouched hle
  have hclosed := hencloses.grows_close
  have hsized' := hopen.sized hsized
  refine ⟨hsized', hinner, hgrows.size_eq, fun j hj hlt => ?_, hclose, ?_, ?_,
    hclosed.sized (hgrows.sized hsized'), hclosed.size_eq⟩
  · have hpush : (u.instructions.push Token.close.flat)[j]? = t.instructions[j]? := by
      rw [Array.getElem?_push, if_neg (by rw [hgrows.size_eq]; omega), hgrows.kept j hlt]
    rw [hbecomes.agrees j hj (by rw [hclosed.size_eq, hgrows.size_eq]; omega),
      getElem?_closed, hpush]
    rfl
  · exact hinner.opener_eq (hopen.trans (hgrows.mono hle)) hopens (hbalanced.append inner.balanced)
  · have hlength := hencloses.sees.length_eq
    have hnesting := hsized'.blocks_le.trans (hgrows.maxNesting_le.trans hinner.maxNesting_le)
    simp only [Context.inside, List.length_cons] at hlength
    omega
/-- A run of the checker over code that can be reached, in a block with operands of the types `mine`
on top of `lower`, which leaves the types `gives` if its end can be reached. -/
structure Charting (types : Nat → Option (List ValueType)) (body : Body) (c : Context)
    (s s' : Checker) (b : Block) (outer : List Block) (mine lower gives : List IntType)
    (code : Code) : Prop where
  proper : c.scope.Proper
  narrow : c.scope.Narrow
  sees : Sees s c
  inside : Inside s b outer (mine.map IntType.valueType) (lower.map IntType.valueType)
  live : b.unreachable = false
  runs : Runs c.scope s code.tokens s'
  sized : Sized s
  short : 2 * (mine ++ lower).length + weight code.tokens < 2 ^ 32
  becomes : Becomes s.instructions.size s' body
  ends : ∀ left : List IntType, Inside s' b outer (left.map IntType.valueType)
    (lower.map IntType.valueType) → left = gives
  tells : Tells c.scope types s code.tokens

/-- A run over the code charts it, whatever else is known of the checker. -/
def Code.IsCharted (types : Nat → Option (List ValueType)) (body : Body) (code : Code) : Prop :=
  ∀ {c : Context} {s s' : Checker} {b : Block} {outer : List Block}
    {mine lower gives : List IntType} {ip stop : Nat},
    Charting types body c s s' b outer mine lower gives code →
    ip = s.instructions.size → stop = s'.instructions.size →
    code.Charted types body c lower stop gives ip mine

section

variable {lower mine gives : List IntType} {code inner next : Code} {type label : BlockType}
  {ip stop : Nat}

/-- The code has added its tokens. -/
theorem Charting.grows (h : Charting types body c s s' b outer mine lower gives code) :
    Grows s.instructions.size s code.tokens s' :=
  code.grows_of_runs h.proper h.sees h.inside h.runs

/-- The chart is right where the code begins, and the operands fit. -/
theorem Charting.marked (h : Charting types body c s s' b outer mine lower gives code)
    (hip : ip = s.instructions.size) : Marked types body ip (mine ++ lower) :=
  hip ▸ h.tells.marked h.inside (h.becomes.fits h.grows h.sized)

/-- What is inside a block can be reached if the block can. -/
theorem Encloses.charting {opener : Opener} {t u : Checker} {more : List Token}
    (hencloses : Encloses c (b :: outer) ((mine ++ lower).map IntType.valueType) opener type
      label t inner u)
    (hsettled : Settled c (b :: outer) ((mine ++ lower).map IntType.valueType) type opener s
      t u inner body)
    (hproper : c.scope.Proper) (hnarrow : c.scope.Narrow)
    (hshort : 2 * (mine ++ lower).length + weight inner.tokens < 2 ^ 32)
    (htells : Tells c.scope types t (inner.tokens ++ more)) :
    Charting types body (c.inside label) t u
      (entered opener type ((mine ++ lower).map IntType.valueType).length false) (b :: outer) []
      (mine ++ lower) type.toList inner where
  proper := hproper
  narrow := hnarrow
  sees := hencloses.sees
  inside := hencloses.inside
  live := rfl
  runs := hencloses.runs
  sized := hsettled.sized
  short := hshort
  becomes := hsettled.becomes
  ends _ := hencloses.results_eq
  tells := htells.before

/-- The code after a block can be reached if the block can. -/
theorem Charting.after {opener : Opener} {t u : Checker} {mine' : List IntType}
    {stack : List ValueType} (h : Charting types body c s s' b outer mine lower gives code)
    (hsettled : Settled c (b :: outer) stack type opener s t u inner body)
    (hinside : Inside (closed u (entered opener type stack.length false) (b :: outer) stack) b outer
      (mine'.map IntType.valueType) (lower.map IntType.valueType))
    (hsees : Sees (closed u (entered opener type stack.length false) (b :: outer) stack) c)
    (hruns : Runs c.scope (closed u (entered opener type stack.length false) (b :: outer) stack)
      next.tokens s')
    (hshort : 2 * (mine' ++ lower).length + weight next.tokens < 2 ^ 32)
    (hopened : s.instructions.size ≤ t.instructions.size)
    (htells : Tells c.scope types
      (closed u (entered opener type stack.length false) (b :: outer) stack) next.tokens) :
    Charting types body c (closed u (entered opener type stack.length false) (b :: outer) stack) s'
      b outer mine' lower gives next where
  proper := h.proper
  narrow := h.narrow
  sees := hsees
  inside := hinside
  live := h.live
  runs := hruns
  sized := hsettled.closed_sized
  short := hshort
  becomes := h.becomes.mono (by rw [hsettled.closed_size, hsettled.size_eq]; omega)
  ends := h.ends
  tells := htells

/-- No code needs no chart but the one at its place. -/
theorem Code.isCharted_done : Code.done.IsCharted types body := by
  intro c s s' b outer mine lower gives ip stop h hip hstop
  have hsame : s = s' := h.runs
  exact .done (h.marked hip) (by rw [hip, hstop, hsame]) (h.ends mine (hsame ▸ h.inside))

/-- An instruction is charted if what follows is. -/
theorem Code.IsCharted.instr (hnext : next.IsCharted types body) (i : Instr) :
    (Code.instr i next).IsCharted types body := by
  intro c s s' b outer mine lower gives ip stop h hip hstop
  obtain ⟨t, hstep, hruns⟩ := h.runs
  obtain ⟨dead, mine', hchecks, hinside, hadvances⟩ := h.inside.checks_of_step h.proper h.sees hstep
  have hsees := h.sees.of_unreachable h.inside.blocks_eq hinside.blocks_eq
  have hfirst : Grows s.instructions.size s [.instr i] t :=
    hadvances.grows (by rw [h.inside.blocks_eq, hinside.blocks_eq]; rfl) le_rfl
  have hmore := next.grows_of_runs h.proper hsees hinside hruns
  have hsize : t.instructions.size = s.instructions.size + 1 := hfirst.size_eq
  have hat : body.instructions[ip]? = some i.flat := by
    rw [hip, h.becomes.agrees _ le_rfl (by rw [h.grows.size_eq]; simp [tokens]),
      hmore.kept _ (by rw [hsize]; simp), hadvances.instructions_eq, Array.getElem?_push_size]
  rw [h.live] at hchecks
  -- What goes on is charted as a step, and the code behind it by the hypothesis; behind a jump
  -- nothing can be reached and nothing is charted.
  obtain ⟨rfl, hgoes, ins, outs, rest, htype, rfl, rfl⟩ | ⟨ins, rest, hjumps, rfl⟩ :=
    hchecks.types_eq
  · have hweight := htype.weight_le h.narrow hgoes
    have hshort := h.short
    rw [← h.live] at hinside
    have hcharting : Charting types body c t s' b outer (outs ++ rest) lower gives next :=
      { proper := h.proper
        narrow := h.narrow
        sees := hsees
        inside := hinside
        live := h.live
        runs := hruns
        sized := hfirst.sized h.sized
        short := by
          simp only [tokens, weight_cons, List.length_append] at hshort ⊢
          omega
        becomes := h.becomes.mono (by omega)
        ends := h.ends
        tells := h.tells.tail hstep hsize }
    exact .step (h.marked hip) hat hgoes htype rfl (hnext hcharting (by rw [hip, hsize]) hstop)
  · exact .jump (h.marked hip) hat hjumps rfl

/-- A block is charted if its inside is and what follows. -/
theorem Code.IsCharted.block (hinner : inner.IsCharted types body)
    (hnext : next.IsCharted types body) (type : BlockType) :
    (Code.block type inner next).IsCharted types body := by
  intro c s s' b outer mine lower gives ip stop h hip hstop
  obtain ⟨u, v, hencloses, rfl, hinside, hsees, hruns⟩ := h.inside.runs_block h.proper h.sees h.runs
  -- The opening instruction, the inside, the end and what follows, in the order of the run.
  have hopen : Grows s.instructions.size s [.block type]
      (s.enter (Token.block type).flat (.block s.instructions.size) [0]) :=
    grows_enter (.block type) (.block s.instructions.size) [0] (le_refl s.stack.length) rfl le_rfl
  have hopened : _ = s.instructions.size + 1 := hopen.size_eq
  have hmore := next.grows_of_runs h.proper hsees hinside hruns
  have hclosed := h.becomes.before hmore fun j _ hj => hmore.kept j hj
  have hstack := h.inside.length_stack
  have hshort := h.short
  rw [results, ← List.map_append] at hinside
  rw [← List.map_append] at hencloses hinside hsees hruns hclosed
  have hsettled := hencloses.settled h.proper h.sized hopen rfl (fun _ _ => rfl) hclosed
    (by simp [touched, hopened])
  have htold := h.tells.tail (step_block_iff.mpr rfl) hopened
  have htoldNext := (htold.after hencloses.runs hsettled.size_eq).tail
    (hencloses.step_close (by simp [shapeOf]) (by simp [shapeOf])) hsettled.closed_size
  simp only [tokens, weight_cons, weight_append, Token.weight] at hshort
  have hresult := length_toList_le type
  -- What is at `ip` at last is the opening with its label resolved to the end.
  have hat : body.instructions[ip]? = some (resolved (u.instructions.size + 1)
      (opening (Token.block type).flat (mine ++ lower).length [0])) := by
    rw [hip, hsettled.at_eq _ le_rfl (by simp [hopened]), if_pos (by simp [touched]),
      instructions_enter, Array.getElem?_push_size, hstack]
    rfl
  refine .block (h.marked hip) hat ((opens_opening .block type [0] (by omega)).resolved _)
    hsettled.close_eq (by rw [hsettled.opener_eq, ← hip, hat]) hsettled.nesting_lt ?_ ?_
  · exact hinner (hencloses.charting hsettled h.proper h.narrow (by omega) htold)
      (by rw [hopened, hip]) rfl
  · refine hnext (h.after hsettled hinside hsees hruns ?_ (by omega) htoldNext)
      hsettled.closed_size.symm hstop
    simp only [List.length_append] at hshort ⊢
    omega

/-- A loop is charted if its inside is and what follows. -/
theorem Code.IsCharted.loop (hinner : inner.IsCharted types body)
    (hnext : next.IsCharted types body) (type : BlockType) :
    (Code.loop type inner next).IsCharted types body := by
  intro c s s' b outer mine lower gives ip stop h hip hstop
  obtain ⟨u, v, hencloses, rfl, hinside, hsees, hruns⟩ := h.inside.runs_loop h.proper h.sees h.runs
  have hopen : Grows s.instructions.size s [.loop type]
      { s.enter (Token.loop type).flat (.loop s.instructions.size) [s.instructions.size] with
        metrics.hasLoops := true } :=
    (grows_enter (.loop type) (.loop s.instructions.size) [s.instructions.size]
      (le_refl s.stack.length) rfl le_rfl).hasLoops
  have hopened : _ = s.instructions.size + 1 := hopen.size_eq
  have hmore := next.grows_of_runs h.proper hsees hinside hruns
  have hclosed := h.becomes.before hmore fun j _ hj => hmore.kept j hj
  have hstack := h.inside.length_stack
  have hshort := h.short
  rw [results, ← List.map_append] at hinside
  rw [← List.map_append] at hencloses hinside hsees hruns hclosed
  have hsettled := hencloses.settled h.proper h.sized hopen rfl (fun _ _ => rfl) hclosed
    (by simp [touched])
  have htold := h.tells.tail (step_loop_iff.mpr rfl) hopened
  have htoldNext := (htold.after hencloses.runs hsettled.size_eq).tail
    (hencloses.step_close (by simp [shapeOf]) (by simp [shapeOf])) hsettled.closed_size
  simp only [tokens, weight_cons, weight_append, Token.weight] at hshort
  have hresult := length_toList_le type
  -- The label of a loop was known when it was pushed, and the end writes none, so the opening is in
  -- the body as it was pushed.
  have hat : body.instructions[ip]? =
      some (opening (Token.loop type).flat (mine ++ lower).length [(ip : Nat)]) := by
    rw [hip, hsettled.at_eq _ le_rfl (by rw [hopened]; exact Nat.lt_succ_self _),
      if_neg (by simp [touched]), instructions_enter, Array.getElem?_push_size, hstack]
  refine .loop (h.marked hip) hat (opens_opening .loop type _ (by omega)) hsettled.close_eq
    (by rw [hsettled.opener_eq, ← hip, hat]) hsettled.nesting_lt ?_ ?_
  · exact hinner (hencloses.charting hsettled h.proper h.narrow (by omega) htold)
      (by rw [hopened, hip]) rfl
  · refine hnext (h.after hsettled hinside hsees hruns ?_ (by omega) htoldNext)
      hsettled.closed_size.symm hstop
    simp only [List.length_append] at hshort ⊢
    omega

/-- A conditional is charted if its branch is and what follows. -/
theorem Code.IsCharted.ifThen (hinner : inner.IsCharted types body)
    (hnext : next.IsCharted types body) (type : BlockType) :
    (Code.ifThen type inner next).IsCharted types body := by
  intro c s s' b outer mine lower gives ip stop h hip hstop
  obtain ⟨rest, u, v, hcondition, rfl, hencloses, rfl, hinside, hsees, hruns⟩ :=
    h.inside.runs_ifThen h.proper h.sees h.runs
  have hopen := grows_enter (.ifThen none) (.ifThen s.instructions.size) [0, 0]
    (h.inside.length_le hcondition) rfl le_rfl
  have hopened : _ = s.instructions.size + 1 := hopen.size_eq
  have hmore := next.grows_of_runs h.proper hsees hinside hruns
  have hclosed := h.becomes.before hmore fun j _ hj => hmore.kept j hj
  have htold := h.tells.tail (h.inside.step_ifThen_iff.mpr ⟨rest, hcondition, rfl⟩) hopened
  have hshort := h.short
  rw [h.live] at hcondition
  obtain ⟨mine, rfl, rfl⟩ := hcondition.type_eq
  have hstack := (h.inside.withStack (mine.map IntType.valueType)).length_stack
  rw [← List.map_append] at hencloses hinside hsees hruns hclosed htold hopen hopened hstack
  have hsettled := hencloses.settled h.proper h.sized hopen rfl (fun _ _ => rfl) hclosed
    (by simp only [touched, List.mem_singleton, forall_eq]; omega)
  have htoldNext := (htold.after hencloses.runs hsettled.size_eq).tail
    (hencloses.step_close (by simp [shapeOf]) (fun _ => rfl)) hsettled.closed_size
  simp only [tokens, weight_cons, weight_append, Token.weight, List.cons_append,
    List.length_cons] at hshort
  have hat : body.instructions[ip]? = some (resolved (u.instructions.size + 1)
      (opening (Token.ifThen none).flat (mine ++ lower).length [0, 0])) := by
    rw [hip, hsettled.at_eq _ le_rfl (by rw [hopened]; exact Nat.lt_succ_self _),
      if_pos (by simp [touched]), instructions_enter, Array.getElem?_push_size, hstack]
    rfl
  refine .ifThen (h.marked hip) hat ((opens_opening .ifThen none [0, 0] (by omega)).resolved _)
    hsettled.close_eq (by rw [hsettled.opener_eq, ← hip, hat]) hsettled.nesting_lt ?_ ?_
  · exact hinner (hencloses.charting hsettled h.proper h.narrow (by omega) htold)
      (by rw [hopened, hip]) rfl
  · exact hnext (h.after hsettled hinside hsees hruns (by omega) (by omega) htoldNext)
      hsettled.closed_size.symm hstop

/-- A conditional with two branches is charted if both are and what follows. -/
theorem Code.IsCharted.ifElse {first second : Code} (hfirst : first.IsCharted types body)
    (hsecond : second.IsCharted types body) (hnext : next.IsCharted types body) (type : BlockType) :
    (Code.ifElse type first second next).IsCharted types body := by
  intro c s s' b outer mine lower gives ip stop h hip hstop
  -- The checker is in `s` before the condition, in `u` after the first arm and in `v` after the
  -- second.
  obtain ⟨rest, u, v, w, hcondition, hencloses₁, hencloses₂, rfl, hinside, hsees, hruns⟩ :=
    h.inside.runs_ifElse h.proper h.sees h.runs
  have hopen := grows_enter (.ifThen type) (.ifThen s.instructions.size) [0, 0]
    (h.inside.length_le hcondition) rfl le_rfl
  have hopened : _ = s.instructions.size + 1 := hopen.size_eq
  have hgrows₁ := first.grows_of_runs (c := c.inside type) h.proper hencloses₁.sees
    hencloses₁.inside hencloses₁.runs
  have hgrown := hgrows₁.size_eq
  have hmore := next.grows_of_runs h.proper hsees hinside hruns
  have hclosed := h.becomes.before hmore fun j _ hj => hmore.kept j hj
  have hswitch := hencloses₁.grows_switch (le_refl s.instructions.size) (by omega)
  have hswitched : _ = u.instructions.size + 1 := hswitch.size_eq
  have harms := hopen.trans ((hgrows₁.mono (by omega)).trans hswitch)
  have hgrows₂ := second.grows_of_runs (c := c.inside type) h.proper hencloses₂.sees
    hencloses₂.inside hencloses₂.runs
  have htold := h.tells.tail (h.inside.step_ifThen_iff.mpr ⟨rest, hcondition, rfl⟩) hopened
  have htoldSecond := (htold.after hencloses₁.runs hgrown).tail hencloses₁.step_otherwise hswitched
  have htouched : ∀ j ∈ touched (.otherwise s.instructions.size u.instructions.size),
      j < u.instructions.size + 1 := by
    simp only [touched, List.mem_cons, List.not_mem_nil, or_false, forall_eq_or_imp, forall_eq]
    omega
  have hshort := h.short
  rw [h.live] at hcondition
  obtain ⟨mine, rfl, rfl⟩ := hcondition.type_eq
  have hstack := (h.inside.withStack (mine.map IntType.valueType)).length_stack
  rw [results, ← List.map_append] at hinside
  rw [← List.map_append] at hencloses₁ hencloses₂ hinside hsees hruns hclosed hopen hopened hgrows₁
  rw [← List.map_append] at hgrown hswitch hswitched harms hgrows₂ htold htoldSecond hstack
  -- From here the instructions are those of the finished body: the end has written the labels of
  -- the opening and of the `else`, and touches no others.
  have hsettled := hencloses₂.settled h.proper h.sized harms rfl
    (first.balanced.append balanced_otherwise) hclosed (by rwa [hswitched])
  have htoldNext := (htoldSecond.after hencloses₂.runs hsettled.size_eq).tail
    (hencloses₂.step_close (by simp [shapeOf]) (by simp [shapeOf])) hsettled.closed_size
  have hresult := length_toList_le type
  simp only [tokens, weight_cons, weight_append, Token.weight, List.cons_append,
    List.length_cons] at hshort
  have hat : body.instructions[ip]? = some (resolved (v.instructions.size + 1)
      (opening (Token.ifThen type).flat (mine ++ lower).length
          [0, (u.instructions.size : Nat)])) := by
    rw [hip, hsettled.at_eq _ le_rfl (by omega), if_pos (by simp [touched]), getElem?_switched,
      if_pos rfl, Array.getElem?_push, if_neg (by omega), hgrows₁.kept _ (by omega),
      instructions_enter, Array.getElem?_push_size, hstack]
    rfl
  have hmiddle : body.instructions[u.instructions.size]? = some (resolved (v.instructions.size + 1)
      { Token.otherwise.flat with labels := [0] }) := by
    rw [hsettled.at_eq _ (by omega) (by omega), if_pos (by simp [touched]), getElem?_switched,
      if_neg (by omega), Array.getElem?_push_size]
    rfl
  -- None of them lies in the first arm, so the body is what the first arm has left, there.
  have hbefore := (hsettled.becomes.before hgrows₂ fun j _ hj => hgrows₂.kept j hj).before
    hswitch (by omega)
  have harm : Becomes (s.instructions.size + 1) u body := by
    refine { hbefore with agrees := fun j hj hlt => ?_ }
    rw [hsettled.at_eq j (by omega) (by omega), if_neg (by simp [touched]; omega),
      getElem?_switched, if_neg (by omega), Array.getElem?_push, if_neg (by omega)]
  refine .ifElse (h.marked hip) hat ((opens_opening .ifThen type _ (by omega)).resolved _) hmiddle
    (by omega) (Token.op?_flat .otherwise) rfl ?_ hsettled.close_eq
    (by rw [hsettled.opener_eq, ← hip, hat])
    hsettled.nesting_lt ?_ ?_ ?_
  · rw [← hat, hip]
    exact harm.opener_eq (hopen.trans (hgrows₁.mono (by omega))) rfl first.balanced
  · refine hfirst ⟨h.proper, h.narrow, hencloses₁.sees, hencloses₁.inside, rfl, hencloses₁.runs,
      hopen.sized h.sized, ?_, by rwa [hopened], fun _ => hencloses₁.results_eq, htold.before⟩
      (by rw [hopened, hip]) rfl
    rw [List.nil_append]
    omega
  · exact hsecond (hencloses₂.charting hsettled h.proper h.narrow (by omega) htoldSecond)
      hswitched.symm rfl
  · refine hnext (h.after hsettled hinside hsees hruns ?_ (by omega) htoldNext)
      hsettled.closed_size.symm hstop
    simp only [List.length_append] at hshort ⊢
    omega

/-- A run of the checker over code that can be reached charts it. -/
theorem Code.isCharted (code : Code) : code.IsCharted types body := by
  induction code with
  | done => exact isCharted_done
  | instr i next ih => exact ih.instr i
  | block type inner next ihinner ihnext => exact ihinner.block ihnext type
  | loop type inner next ihinner ihnext => exact ihinner.loop ihnext type
  | ifThen type inner next ihinner ihnext => exact ihinner.ifThen ihnext type
  | ifElse type first second next ihfirst ihsecond ihnext =>
    exact ihfirst.ifElse ihsecond ihnext type

end

end

/-- The body of a function that gives `result` is that of given code, with a chart that is right. -/
structure Charts (types : Nat → Option (List ValueType)) (body : Body) (scope : Scope)
    (result : BlockType) (code : Code) : Prop where
  charted : code.Charted types body (.ofFunction scope result) [] code.tokens.length
    result.toList 0 []
  close_eq : body.instructions[code.tokens.length]? = some Token.close.flat
  opener_eq : body.opener code.tokens.length = none
  nesting_pos : 0 < body.metrics.maxNesting

/-- The body that comes out of checking a spelling of code is that of the code, and its chart is
right. -/
theorem charts_of_check {scope : Scope} {result : BlockType} {base : Nat} {code : Code}
    {bytes : List UInt8} {body : Body} (hproper : scope.Proper) (hnarrow : scope.Narrow)
    (hspells : code.Spells bytes) (hlength : bytes.length < 2 ^ 32)
    (hok : check scope (results result) base (bytes ++ [closingByte]) = .ok body) :
    Charts (chart scope (results result) (bytes ++ [closingByte])) body scope result code := by
  obtain ⟨s', hruns, hdone⟩ := (check_spelled_iff hspells).mp hok
  have hsees := sees_start scope result
  have hinside := inside_start result
  obtain ⟨dead, mine, -, hinside'⟩ :=
    code.checks_of_runs (c := .ofFunction scope result) hproper hsees hinside hruns
  obtain ⟨hpops, rfl⟩ := (hinside'.step_done_iff rfl rfl).mp hdone
  -- The run ends with all instructions but the last `end`; the finished body is that array with it
  -- pushed.
  have hgrows := code.grows_of_runs (c := .ofFunction scope result) hproper hsees hinside hruns
  have hsize : s'.instructions.size = code.tokens.length := by
    simpa [Checker.openBlock] using hgrows.size_eq
  have hbecomes : Becomes 0 s' ⟨s'.instructions.push Token.close.flat, s'.metrics⟩ := by
    refine ⟨fun j _ hj => ?_, ?_, le_rfl, le_rfl⟩
    · rw [Array.getElem?_push, if_neg (by omega)]
    · rw [opcodes_push]
      exact List.prefix_append _ _
  refine ⟨?_, ?_, ?_, ?_⟩
  · have hweight := hspells.weight_le
    have hcharting : Charting (chart scope (results result) (bytes ++ [closingByte]))
        ⟨s'.instructions.push Token.close.flat, s'.metrics⟩ (.ofFunction scope result)
        (Checker.openBlock {} .function (results result)) s'
        (entered .function result 0 false) [] [] []
        result.toList code :=
      { proper := hproper
        narrow := hnarrow
        sees := hsees
        inside := hinside
        live := rfl
        runs := hruns
        sized := ⟨le_rfl, le_max_right _ _⟩
        short := by
          simp only [List.append_nil, List.length_nil]
          omega
        becomes := hbecomes
        ends := fun _ => hinside'.results_eq hpops
        tells := tells_chart hspells _ }
    exact code.isCharted hcharting rfl hsize.symm
  · rw [← hsize, Array.getElem?_push_size]
  · have hopcodes : opcodes s'.instructions = code.tokens.map fun token => token.op.byte := by
      simpa [Checker.openBlock, opcodes] using hgrows.opcodes_eq
    have hbalanced := code.balanced [] 0
    rw [List.append_nil] at hbalanced
    rw [opener, opcodes_push, hopcodes, List.take_append_of_le_length (by simp),
      List.take_of_length_le (by simp), hbalanced]
    rfl
  · exact (Nat.lt_of_lt_of_le Nat.zero_lt_one (le_max_right _ _)).trans_le hgrows.maxNesting_le

end Structured

end IntWasm
