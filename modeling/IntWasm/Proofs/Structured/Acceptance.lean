import IntWasm.Module.Validate
import IntWasm.Proofs.Structured.Blocks

/-!
# The checker accepts exactly the well-typed bodies

`Code.Checks` follows the operands of a block through code, including code that cannot be reached.
On the one hand it describes the runs of the checker over the tokens of the code; on the other hand
it is the typing rules with the stacks that operands may stand for. Both are shown by induction on
the code, and together they decide which bodies are accepted.
-/

namespace IntWasm.Structured

open Body

/-- What code does to the operands and to the reachability of the block that it stands in. -/
inductive Code.Checks : Context → Code → Bool → List ValueType → Bool → List ValueType → Prop
  | done {c dead mine} : Checks c .done dead mine dead mine
  | instr {c i next dead mine dead₁ mine₁ dead' mine'} (hfirst : i.Checks c dead mine dead₁ mine₁)
      (hnext : Checks c next dead₁ mine₁ dead' mine') :
    Checks c (.instr i next) dead mine dead' mine'
  | block {c type body next dead mine dead₁ mine₁ dead' mine'}
      (hbody : Checks (c.inside type) body false [] dead₁ mine₁)
      (hclose : Pops dead₁ mine₁ type.toList [])
      (hnext : Checks c next dead (results type ++ mine) dead' mine') :
    Checks c (.block type body next) dead mine dead' mine'
  | loop {c type body next dead mine dead₁ mine₁ dead' mine'}
      (hbody : Checks (c.inside none) body false [] dead₁ mine₁)
      (hclose : Pops dead₁ mine₁ type.toList [])
      (hnext : Checks c next dead (results type ++ mine) dead' mine') :
    Checks c (.loop type body next) dead mine dead' mine'
  | ifThen {c body next dead mine rest dead₁ mine₁ dead' mine'}
      (hcondition : Pops dead mine [.i32] rest)
      (hbody : Checks (c.inside none) body false [] dead₁ mine₁)
      (hclose : Pops dead₁ mine₁ [] [])
      (hnext : Checks c next dead rest dead' mine') :
    Checks c (.ifThen none body next) dead mine dead' mine'
  | ifElse {c type first second next dead mine rest dead₁ mine₁ dead₂ mine₂ dead' mine'}
      (hcondition : Pops dead mine [.i32] rest)
      (hfirst : Checks (c.inside type) first false [] dead₁ mine₁)
      (hswitch : Pops dead₁ mine₁ type.toList [])
      (hsecond : Checks (c.inside type) second false [] dead₂ mine₂)
      (hclose : Pops dead₂ mine₂ type.toList [])
      (hnext : Checks c next dead (results type ++ rest) dead' mine') :
    Checks c (.ifElse type first second next) dead mine dead' mine'

/-! ## Runs of the checker -/

/-- A run over the tokens of code checks the code. -/
theorem Code.checks_of_runs (code : Code) {c : Context} {s s' : Checker} {b : Block}
    {outer : List Block} {mine below : List ValueType} (hproper : c.scope.Proper)
    (hsees : Sees s c) (hinside : Inside s b outer mine below)
    (hruns : Runs c.scope s code.tokens s') :
    ∃ dead' mine', code.Checks c b.unreachable mine dead' mine' ∧
      Inside s' { b with unreachable := dead' } outer mine' below := by
  induction code generalizing c s s' b outer mine below with
  -- By induction on the code; the tokens of a block are its opening, its inside, its end and what
  -- follows, and the run is cut there.
  | done =>
    cases hruns
    exact ⟨_, _, .done, hinside⟩
  | instr i next ih =>
    obtain ⟨t, hstep, hmore⟩ := hruns
    obtain ⟨dead₁, mine₁, hchecks, hinside₁, -⟩ := hinside.checks_of_step hproper hsees hstep
    have hsees₁ := hsees.of_unreachable hinside.blocks_eq hinside₁.blocks_eq
    obtain ⟨dead', mine', hnext, hinside'⟩ := ih hproper hsees₁ hinside₁ hmore
    exact ⟨dead', mine', .instr hchecks hnext, hinside'⟩
  | block type body next ihbody ihnext =>
    obtain ⟨t, hstep, hmore⟩ := hruns
    obtain ⟨hinside₁, hsees₁⟩ := hinside.of_step_block hsees hstep
    obtain ⟨u, hbody, v, hend, hmore⟩ := runs_append.mp hmore
    obtain ⟨dead₁, mine₁, hchecks, hinside₂⟩ :=
      ihbody (c := c.inside type) hproper hsees₁ hinside₁ hbody
    obtain ⟨hclose, -, hinside₃, hsees₃⟩ :=
      hinside.of_step_close hsees hinside₂ (by simp [shapeOf, entered]) hend
    obtain ⟨dead', mine', hnext, hinside'⟩ := ihnext hproper hsees₃ hinside₃ hmore
    exact ⟨dead', mine', .block hchecks hclose hnext, hinside'⟩
  | loop type body next ihbody ihnext =>
    obtain ⟨t, hstep, hmore⟩ := hruns
    obtain ⟨hinside₁, hsees₁⟩ := hinside.of_step_loop hsees hstep
    obtain ⟨u, hbody, v, hend, hmore⟩ := runs_append.mp hmore
    obtain ⟨dead₁, mine₁, hchecks, hinside₂⟩ :=
      ihbody (c := c.inside none) hproper hsees₁ hinside₁ hbody
    obtain ⟨hclose, -, hinside₃, hsees₃⟩ :=
      hinside.of_step_close hsees hinside₂ (by simp [shapeOf, entered]) hend
    obtain ⟨dead', mine', hnext, hinside'⟩ := ihnext hproper hsees₃ hinside₃ hmore
    exact ⟨dead', mine', .loop hchecks hclose hnext, hinside'⟩
  | ifThen type body next ihbody ihnext =>
    obtain ⟨t, hstep, hmore⟩ := hruns
    obtain ⟨rest, hcondition, hinside₁, hsees₁⟩ := hinside.of_step_ifThen hsees hstep
    -- The condition is popped before the block opens, so the block around it goes on with the stack
    -- that the condition leaves.
    have hrest := hinside.withStack rest
    have hsees₀ : Sees { s with stack := rest ++ below } c := hsees.of_blocks rfl
    obtain ⟨u, hbody, v, hend, hmore⟩ := runs_append.mp hmore
    obtain ⟨dead₁, mine₁, hchecks, hinside₂⟩ :=
      ihbody (c := c.inside type) hproper hsees₁ hinside₁ hbody
    obtain ⟨hclose, htype, hinside₃, hsees₃⟩ :=
      hrest.of_step_close hsees₀ hinside₂ (by simp [shapeOf, entered]) hend
    obtain rfl := htype rfl
    obtain ⟨dead', mine', hnext, hinside'⟩ := ihnext hproper hsees₃ hinside₃ hmore
    exact ⟨dead', mine', .ifThen hcondition hchecks hclose hnext, hinside'⟩
  | ifElse type first second next ihfirst ihsecond ihnext =>
    obtain ⟨t, hstep, hmore⟩ := hruns
    obtain ⟨rest, hcondition, hinside₁, hsees₁⟩ := hinside.of_step_ifThen hsees hstep
    have hrest := hinside.withStack rest
    have hsees₀ : Sees { s with stack := rest ++ below } c := hsees.of_blocks rfl
    obtain ⟨u, hfirst, v, hmiddle, hmore⟩ := runs_append.mp hmore
    obtain ⟨dead₁, mine₁, hchecks₁, hinside₂⟩ :=
      ihfirst (c := c.inside type) hproper hsees₁ hinside₁ hfirst
    obtain ⟨hswitch, hinside₃, hsees₃⟩ := hrest.of_step_otherwise hsees₀ hinside₂ hmiddle
    obtain ⟨w, hsecond, x, hend, hmore⟩ := runs_append.mp hmore
    obtain ⟨dead₂, mine₂, hchecks₂, hinside₄⟩ :=
      ihsecond (c := c.inside type) hproper hsees₃ hinside₃ hsecond
    obtain ⟨hclose, -, hinside₅, hsees₅⟩ :=
      hrest.of_step_close hsees₀ hinside₄ (by simp [shapeOf, entered]) hend
    obtain ⟨dead', mine', hnext, hinside'⟩ := ihnext hproper hsees₅ hinside₅ hmore
    exact ⟨dead', mine', .ifElse hcondition hchecks₁ hswitch hchecks₂ hclose hnext, hinside'⟩

/-- Code that checks is run over by the checker. -/
theorem Code.Checks.runs {code : Code} {c : Context} {dead dead' : Bool}
    {mine mine' : List ValueType} (hchecks : code.Checks c dead mine dead' mine') {s : Checker}
    {b : Block} {outer : List Block} {below : List ValueType} (hproper : c.scope.Proper)
    (hsees : Sees s c) (hinside : Inside s b outer mine below) (hdead : b.unreachable = dead) :
    ∃ s', Runs c.scope s code.tokens s' ∧
      Inside s' { b with unreachable := dead' } outer mine' below := by
  induction hchecks generalizing s b outer below with
  -- The other way round the induction is on the derivation: it names the states, and each token has
  -- to be shown to step.
  | done =>
    subst hdead
    exact ⟨s, rfl, hinside⟩
  | instr hfirst hnext ih =>
    subst hdead
    obtain ⟨t, hstep, hinside₁⟩ := hinside.step_of_checks hproper hsees hfirst
    have hsees₁ := hsees.of_unreachable hinside.blocks_eq hinside₁.blocks_eq
    obtain ⟨s', hruns, hinside'⟩ := ih hproper hsees₁ hinside₁ rfl
    exact ⟨s', ⟨t, hstep, hruns⟩, hinside'⟩
  | @block c type body next dead mine dead₁ mine₁ dead' mine' hbody hclose hnext ihbody ihnext =>
    have hstep : s.step c.scope (Token.block type).op (Token.block type).flat false =
      .ok (.more _) := step_block_iff.mpr rfl
    obtain ⟨hinside₁, hsees₁⟩ := hinside.of_step_block hsees hstep
    obtain ⟨u, hruns, hinside₂⟩ := ihbody hproper hsees₁ hinside₁ rfl
    obtain ⟨v, hend⟩ := hinside₂.exists_step_close c.scope (by simp [shapeOf, entered]) hclose
      (by simp [shapeOf, entered])
    obtain ⟨-, -, hinside₃, hsees₃⟩ :=
      hinside.of_step_close hsees hinside₂ (by simp [shapeOf, entered]) hend
    obtain ⟨s', hmore, hinside'⟩ := ihnext hproper hsees₃ hinside₃ hdead
    exact ⟨s', ⟨_, hstep, runs_append.mpr ⟨u, hruns, v, hend, hmore⟩⟩, hinside'⟩
  | @loop c type body next dead mine dead₁ mine₁ dead' mine' hbody hclose hnext ihbody ihnext =>
    have hstep : s.step c.scope (Token.loop type).op (Token.loop type).flat false =
      .ok (.more _) := step_loop_iff.mpr rfl
    obtain ⟨hinside₁, hsees₁⟩ := hinside.of_step_loop hsees hstep
    obtain ⟨u, hruns, hinside₂⟩ := ihbody hproper hsees₁ hinside₁ rfl
    obtain ⟨v, hend⟩ := hinside₂.exists_step_close c.scope (by simp [shapeOf, entered]) hclose
      (by simp [shapeOf, entered])
    obtain ⟨-, -, hinside₃, hsees₃⟩ :=
      hinside.of_step_close hsees hinside₂ (by simp [shapeOf, entered]) hend
    obtain ⟨s', hmore, hinside'⟩ := ihnext hproper hsees₃ hinside₃ hdead
    exact ⟨s', ⟨_, hstep, runs_append.mpr ⟨u, hruns, v, hend, hmore⟩⟩, hinside'⟩
  | @ifThen c body next dead mine rest dead₁ mine₁ dead' mine' hcondition hbody hclose hnext ihbody
      ihnext =>
    subst hdead
    obtain ⟨t, hstep, hinside₁, hsees₁⟩ := hinside.exists_step_ifThen none hsees hcondition
    have hrest := hinside.withStack rest
    have hsees₀ : Sees { s with stack := rest ++ below } c := hsees.of_blocks rfl
    obtain ⟨u, hruns, hinside₂⟩ := ihbody hproper hsees₁ hinside₁ rfl
    obtain ⟨v, hend⟩ := hinside₂.exists_step_close c.scope (by simp [shapeOf, entered]) hclose
      (fun _ => rfl)
    obtain ⟨-, -, hinside₃, hsees₃⟩ :=
      hrest.of_step_close hsees₀ hinside₂ (by simp [shapeOf, entered]) hend
    obtain ⟨s', hmore, hinside'⟩ := ihnext hproper hsees₃ hinside₃ rfl
    exact ⟨s', ⟨t, hstep, runs_append.mpr ⟨u, hruns, v, hend, hmore⟩⟩, hinside'⟩
  | @ifElse c type first second next dead mine rest dead₁ mine₁ dead₂ mine₂ dead' mine' hcondition
      hfirst hswitch hsecond hclose hnext ihfirst ihsecond ihnext =>
    subst hdead
    obtain ⟨t, hstep, hinside₁, hsees₁⟩ := hinside.exists_step_ifThen type hsees hcondition
    have hrest := hinside.withStack rest
    have hsees₀ : Sees { s with stack := rest ++ below } c := hsees.of_blocks rfl
    obtain ⟨u, hruns₁, hinside₂⟩ := ihfirst hproper hsees₁ hinside₁ rfl
    obtain ⟨v, hmiddle⟩ := hinside₂.exists_step_otherwise c.scope hswitch
    obtain ⟨-, hinside₃, hsees₃⟩ := hrest.of_step_otherwise hsees₀ hinside₂ hmiddle
    obtain ⟨w, hruns₂, hinside₄⟩ := ihsecond hproper hsees₃ hinside₃ rfl
    obtain ⟨x, hend⟩ := hinside₄.exists_step_close c.scope (by simp [shapeOf, entered]) hclose
      (by simp [shapeOf, entered])
    obtain ⟨-, -, hinside₅, hsees₅⟩ :=
      hrest.of_step_close hsees₀ hinside₄ (by simp [shapeOf, entered]) hend
    obtain ⟨s', hmore, hinside'⟩ := ihnext hproper hsees₅ hinside₅ rfl
    exact ⟨s', ⟨t, hstep, runs_append.mpr ⟨u, hruns₁, v, hmiddle,
      runs_append.mpr ⟨w, hruns₂, x, hend, hmore⟩⟩⟩, hinside'⟩

/-! ## The typing rules -/

/-- A well-typed instruction checks on all operands that can stand for its stack, and what it leaves
can stand for the stack after it. -/
theorem Instr.HasType.checks {c : Context} {i : Instr} {ins outs below : List IntType}
    (htype : i.HasType c ins outs) {dead : Bool} {mine : List ValueType}
    (hpops : Pops dead mine (ins ++ below) []) :
    ∃ dead' mine', i.Checks c dead mine dead' mine' ∧ Pops dead' mine' (outs ++ below) [] := by
  obtain ⟨rest, hins, hbelow⟩ := pops_append_iff.mp hpops
  by_cases hsteady : i.isSteady = true
  · exact ⟨_, _, .steady hsteady htype hins, pops_values_iff.mpr ⟨below, rfl, hbelow⟩⟩
  cases htype <;> simp only [Instr.isSteady, not_true_eq_false] at hsteady
  case unreachable => exact ⟨_, _, .jump .unreachable .nil, pops_dead _⟩
  case br hlabel =>
    obtain ⟨inner, hinner, -⟩ := pops_append_iff.mp hins
    exact ⟨_, _, .jump (.br hlabel) hinner, pops_dead _⟩
  case brTable hdefault hlabels =>
    rw [← List.cons_append] at hins
    obtain ⟨inner, hinner, -⟩ := pops_append_iff.mp hins
    exact ⟨_, _, .jump (.brTable hdefault hlabels) hinner, pops_dead _⟩
  case ret =>
    obtain ⟨inner, hinner, -⟩ := pops_append_iff.mp hins
    exact ⟨_, _, .jump .ret hinner, pops_dead _⟩
  case drop =>
    obtain ⟨a, inner, htakes, -, hnil⟩ := pops_cons_iff.mp hins
    obtain rfl := pops_nil_iff.mp hnil
    exact ⟨_, _, .drop htakes, hbelow⟩
  case select type =>
    obtain ⟨rest₁, hcondition, hins⟩ := pops_cons_iff_split.mp hins
    obtain ⟨second, rest₂, hsecond, hmatch₂, hins⟩ := pops_cons_iff.mp hins
    obtain ⟨first, rest₃, hfirst, hmatch₁, hnil⟩ := pops_cons_iff.mp hins
    obtain rfl := pops_nil_iff.mp hnil
    have hagree : second = .any ∨ first = .any ∨ first = second := by
      rcases hmatch₂ with h₂ | h₂ <;> rcases hmatch₁ with h₁ | h₁ <;> simp [h₁, h₂]
    refine ⟨_, _, .select hcondition hsecond hfirst hagree, .top ?_ hbelow⟩
    split
    · exact hmatch₁
    · exact hmatch₂

/-- The type of an instruction that jumps leaves open what lies below and what comes after. -/
theorem Instr.Jumps.hasType {c : Context} {i : Instr} {ins : List IntType} (hjumps : i.Jumps c ins)
    (below outs : List IntType) : i.HasType c (ins ++ below) outs := by
  cases hjumps with
  | unreachable => exact .unreachable
  | br hlabel => exact .br hlabel
  | brTable hdefault hlabels => exact .brTable hdefault hlabels
  | ret => exact .ret

/-- An instruction that checks keeps operands known. -/
theorem Instr.Checks.known {c : Context} {i : Instr} {dead dead' : Bool}
    {mine mine' : List ValueType} (hchecks : i.Checks c dead mine dead' mine')
    (hknown : ∀ a ∈ mine, Known a) : ∀ a ∈ mine', Known a := by
  cases hchecks with
  | @steady _ _ outs _ hsteady htype hpops =>
    intro a ha
    rcases List.mem_append.mp ha with ha | ha
    · exact known_values outs a ha
    · exact hpops.known hknown a ha
  | drop htakes => exact (htakes.known hknown).2
  | select hcondition hsecond hfirst hagree =>
    obtain ⟨hsecond, hrest⟩ := hsecond.known (hcondition.known hknown)
    obtain ⟨hfirst, hrest⟩ := hfirst.known hrest
    simp only [List.forall_mem_cons]
    refine ⟨?_, hrest⟩
    split
    · exact hfirst
    · exact hsecond
  | jump hjumps hpops => simp

/-- An instruction that checks has a type for every stack that the operands after it stand for. -/
theorem Instr.Checks.hasType {c : Context} {i : Instr} {dead dead' : Bool}
    {mine mine' : List ValueType} (hchecks : i.Checks c dead mine dead' mine')
    (hknown : ∀ a ∈ mine, Known a) {after : List IntType} (hafter : Pops dead' mine' after []) :
    ∃ ins outs below, i.HasType c ins outs ∧ after = outs ++ below ∧
      Pops dead mine (ins ++ below) [] := by
  cases hchecks with
  | @steady _ ins outs rest hsteady htype hpops =>
    obtain ⟨below, rfl, hbelow⟩ := pops_values_iff.mp hafter
    exact ⟨ins, outs, below, htype, rfl, pops_append_iff.mpr ⟨rest, hpops, hbelow⟩⟩
  | @drop a rest htakes =>
    obtain ⟨t, hmatch⟩ := (htakes.known hknown).1
    exact ⟨[t], [], after, .drop, rfl, pops_cons_iff.mpr ⟨a, _, htakes, hmatch, hafter⟩⟩
  | @select second first rest₁ rest₂ rest₃ hcondition hsecond hfirst hagree =>
    cases hafter with
    | @top _ _ t below _ hmatch hbelow =>
      have hmatches : Matches second t ∧ Matches first t := by
        by_cases hany : second = .any
        · simp only [hany, if_true] at hmatch
          exact ⟨.inl hany, hmatch⟩
        · simp only [hany, if_false, false_or] at hmatch hagree
          refine ⟨hmatch, ?_⟩
          rcases hagree with h | h
          · exact .inl h
          · rwa [h]
      refine ⟨[.i32, t, t], [t], below, .select, rfl,
        pops_cons_iff_split.mpr ⟨rest₁, hcondition, ?_⟩⟩
      refine pops_cons_iff.mpr ⟨second, rest₂, hsecond, hmatches.1, ?_⟩
      exact pops_cons_iff.mpr ⟨first, rest₃, hfirst, hmatches.2, hbelow⟩
  | @jump _ ins rest hjumps hpops =>
    obtain ⟨below, hbelow⟩ := exists_pops dead (hpops.known hknown)
    refine ⟨ins ++ below, after, [], hjumps.hasType below after, by simp, ?_⟩
    rw [List.append_nil]
    exact pops_append_iff.mpr ⟨rest, hpops, hbelow⟩

/-- Well-typed code checks on all operands that can stand for its stack. -/
theorem Code.HasType.checks {c : Context} {code : Code} {before after : List IntType}
    (htype : code.HasType c before after) {dead : Bool} {mine : List ValueType}
    (hpops : Pops dead mine before []) :
    ∃ dead' mine', code.Checks c dead mine dead' mine' ∧ Pops dead' mine' after [] := by
  induction htype generalizing dead mine with
  | done => exact ⟨_, _, .done, hpops⟩
  | instr hfirst hnext ih =>
    obtain ⟨dead₁, mine₁, hchecks, hpops₁⟩ := hfirst.checks hpops
    obtain ⟨dead', mine', hmore, hafter⟩ := ih hpops₁
    exact ⟨dead', mine', .instr hchecks hmore, hafter⟩
  | block hbody hnext ihbody ihnext =>
    obtain ⟨dead₁, mine₁, hchecks, hclose⟩ := ihbody .nil
    obtain ⟨dead', mine', hmore, hafter⟩ := ihnext (pops_values_iff.mpr ⟨_, rfl, hpops⟩)
    exact ⟨dead', mine', .block hchecks hclose hmore, hafter⟩
  | loop hbody hnext ihbody ihnext =>
    obtain ⟨dead₁, mine₁, hchecks, hclose⟩ := ihbody .nil
    obtain ⟨dead', mine', hmore, hafter⟩ := ihnext (pops_values_iff.mpr ⟨_, rfl, hpops⟩)
    exact ⟨dead', mine', .loop hchecks hclose hmore, hafter⟩
  | ifThen hbody hnext ihbody ihnext =>
    obtain ⟨rest, hcondition, hrest⟩ := pops_cons_iff_split.mp hpops
    obtain ⟨dead₁, mine₁, hchecks, hclose⟩ := ihbody .nil
    obtain ⟨dead', mine', hmore, hafter⟩ := ihnext hrest
    exact ⟨dead', mine', .ifThen hcondition hchecks hclose hmore, hafter⟩
  | ifElse hfirst hsecond hnext ihfirst ihsecond ihnext =>
    obtain ⟨rest, hcondition, hrest⟩ := pops_cons_iff_split.mp hpops
    obtain ⟨dead₁, mine₁, hchecks₁, hswitch⟩ := ihfirst .nil
    obtain ⟨dead₂, mine₂, hchecks₂, hclose⟩ := ihsecond .nil
    obtain ⟨dead', mine', hmore, hafter⟩ := ihnext (pops_values_iff.mpr ⟨_, rfl, hrest⟩)
    exact ⟨dead', mine', .ifElse hcondition hchecks₁ hswitch hchecks₂ hclose hmore, hafter⟩

/-- Code that checks has a type for every stack that the operands after it stand for. -/
theorem Code.Checks.hasType {c : Context} {code : Code} {dead dead' : Bool}
    {mine mine' : List ValueType} (hchecks : code.Checks c dead mine dead' mine')
    (hknown : ∀ a ∈ mine, Known a) {after : List IntType} (hafter : Pops dead' mine' after []) :
    ∃ before, code.HasType c before after ∧ Pops dead mine before [] := by
  have hresults {type : BlockType} {mine : List ValueType} (hknown : ∀ a ∈ mine, Known a) :
      ∀ a ∈ results type ++ mine, Known a := by
    intro a ha
    rcases List.mem_append.mp ha with ha | ha
    · exact known_values _ a ha
    · exact hknown a ha
  -- The checker goes forward with a stack, the rules go backward from the operands after the code;
  -- so the induction generalizes those and hands them up from the end.
  induction hchecks generalizing after with
  | done => exact ⟨after, .done, hafter⟩
  | instr hfirst hnext ih =>
    obtain ⟨inner, hinner, hpops⟩ := ih (hfirst.known hknown) hafter
    obtain ⟨ins, outs, below, htype, rfl, hbefore⟩ := hfirst.hasType hknown hpops
    exact ⟨ins ++ below, .instr htype hinner, hbefore⟩
  | block hbody hclose hnext ihbody ihnext =>
    obtain ⟨start, hbodyType, hstart⟩ := ihbody (by simp) hclose
    obtain rfl := eq_nil_of_pops hstart
    obtain ⟨inner, hinner, hpops⟩ := ihnext (hresults hknown) hafter
    obtain ⟨before, rfl, hbefore⟩ := pops_values_iff.mp hpops
    exact ⟨before, .block hbodyType hinner, hbefore⟩
  | loop hbody hclose hnext ihbody ihnext =>
    obtain ⟨start, hbodyType, hstart⟩ := ihbody (by simp) hclose
    obtain rfl := eq_nil_of_pops hstart
    obtain ⟨inner, hinner, hpops⟩ := ihnext (hresults hknown) hafter
    obtain ⟨before, rfl, hbefore⟩ := pops_values_iff.mp hpops
    exact ⟨before, .loop hbodyType hinner, hbefore⟩
  | ifThen hcondition hbody hclose hnext ihbody ihnext =>
    obtain ⟨start, hbodyType, hstart⟩ := ihbody (by simp) hclose
    obtain rfl := eq_nil_of_pops hstart
    obtain ⟨before, hinner, hpops⟩ := ihnext (hcondition.known hknown) hafter
    exact ⟨.i32 :: before, .ifThen hbodyType hinner, pops_cons_iff_split.mpr ⟨_, hcondition, hpops⟩⟩
  | ifElse hcondition hfirst hswitch hsecond hclose hnext ihfirst ihsecond ihnext =>
    obtain ⟨start₁, hfirstType, hstart₁⟩ := ihfirst (by simp) hswitch
    obtain rfl := eq_nil_of_pops hstart₁
    obtain ⟨start₂, hsecondType, hstart₂⟩ := ihsecond (by simp) hclose
    obtain rfl := eq_nil_of_pops hstart₂
    obtain ⟨inner, hinner, hpops⟩ := ihnext (hresults (hcondition.known hknown)) hafter
    obtain ⟨before, rfl, hbefore⟩ := pops_values_iff.mp hpops
    exact ⟨.i32 :: before, .ifElse hfirstType hsecondType hinner,
      pops_cons_iff_split.mpr ⟨_, hcondition, hbefore⟩⟩

/-! ## Bodies -/

/-- A spelling of code is accepted exactly if the code leaves the results of the function on an
empty stack. -/
theorem Code.accepted_iff_hasType {scope : Scope} {result : BlockType} {base : Nat} {code : Code}
    {bytes : List UInt8} (hproper : scope.Proper) (hspells : code.Spells bytes) :
    (∃ body, check scope (results result) base (bytes ++ [closingByte]) = .ok body) ↔
      code.HasType (Context.ofFunction scope result) [] result.toList := by
  simp only [check_spelled_iff hspells]
  constructor
  · rintro ⟨body, s', hruns, hdone⟩
    obtain ⟨dead', mine', hchecks, hinside⟩ := code.checks_of_runs (c := .ofFunction scope result)
      hproper (sees_start scope result) (inside_start result) hruns
    obtain ⟨hpops, -⟩ := (hinside.step_done_iff rfl rfl).mp hdone
    obtain ⟨before, htype, hbefore⟩ := hchecks.hasType (by simp) hpops
    obtain rfl := eq_nil_of_pops hbefore
    exact htype
  · intro htype
    obtain ⟨dead', mine', hchecks, hafter⟩ := htype.checks (.nil : Pops false [] [] [])
    obtain ⟨s', hruns, hinside⟩ := hchecks.runs hproper (sees_start scope result)
      (inside_start result) rfl
    exact ⟨_, s', hruns, (hinside.step_done_iff rfl rfl).mpr ⟨hafter, rfl⟩⟩

/-- The checker accepts exactly the spellings of well-typed code: of a spelling of any code it tells
whether the code leaves the results of the function on an empty stack, and bytes that do not spell
properly nested code are refused. -/
theorem check_accepts_exactly_well_typed {scope : Scope} (hproper : scope.Proper)
    (result : BlockType) (base : Nat) :
    (∀ (code : Code) (bytes : List UInt8), code.Spells bytes →
      ((∃ body, check scope (results result) base (bytes ++ [closingByte]) = .ok body) ↔
        code.HasType (Context.ofFunction scope result) [] result.toList)) ∧
    (∀ bytes : List UInt8,
      (¬ ∃ (code : Code) (first : List UInt8),
        code.Spells first ∧ bytes = first ++ [closingByte]) →
      ∃ e, check scope (results result) base bytes = .error e) := by
  refine ⟨fun code bytes hspells => Code.accepted_iff_hasType hproper hspells, ?_⟩
  intro bytes hnone
  cases hcheck : check scope (results result) base bytes with
  | error e => exact ⟨e, rfl⟩
  | ok body => exact absurd (exists_code_of_check hcheck) hnone

/-- The scope without globals has integer types only. -/
theorem proper_constScope_nil : (Module.constScope []).Proper where
  localType := by simp [Module.constScope]
  globalType := by simp [Module.constScope]
  functionType := by simp [Module.constScope]
  type := by simp [Module.constScope]

/-- A block whose end cannot be reached is accepted with a label of two bytes, and without its end
it is refused. -/
theorem check_unreachable_select :
    (Module.constScope []).Proper ∧
    (∃ body, check (Module.constScope []) (results (some .i32)) 0
      ([0x02, 0x7f, 0x00, 0x1b, 0x0c, 0x80, 0x00, 0x0b] ++ [closingByte]) = .ok body) ∧
    (∃ e, check (Module.constScope []) (results (some .i32)) 0 [0x02, 0x7f, 0x00, 0x1b] =
      .error e) := by
  have hexact := check_accepts_exactly_well_typed proper_constScope_nil (some .i32) 0
  refine ⟨proper_constScope_nil, ?_, ?_⟩
  · let code : Code :=
      .block (some .i32) (.instr .unreachable (.instr .select (.instr (.br 0) .done))) .done
    have hlabel : SpellsIndex 0 [0x80, 0x00] := ⟨⟨rfl, rfl⟩, by decide, by decide, by decide⟩
    have hspells : code.Spells [0x02, 0x7f, 0x00, 0x1b, 0x0c, 0x80, 0x00, 0x0b] :=
      ⟨[0x02, 0x7f], _, rfl, ⟨_, rfl, rfl⟩, [0x00], _, rfl, ⟨_, rfl, rfl⟩, [0x1b], _, rfl,
        ⟨_, rfl, rfl⟩, [0x0c, 0x80, 0x00], _, rfl, ⟨_, rfl, hlabel⟩, [0x0b], _, rfl, ⟨_, rfl, rfl⟩,
        rfl⟩
    refine (hexact.1 code _ hspells).mpr (.block ?_ .done)
    let c := (Context.ofFunction (Module.constScope []) (some .i32)).inside (some .i32)
    have hstart : Instr.HasType c .unreachable [] [.i32, .i32, .i32] := .unreachable
    have hbr : Instr.HasType c (.br 0) ((some IntType.i32).toList ++ []) [.i32] := .br rfl
    exact .instr hstart (.instr .select (.instr hbr .done))
  · refine hexact.2 _ ?_
    rintro ⟨code, first, -, hbytes⟩
    have hlast := congrArg List.getLast? hbytes
    simp [closingByte, Opcode.byte] at hlast

end IntWasm.Structured
