import IntWasm.Proofs.Structured.Brackets
import IntWasm.Proofs.Structured.Chart
import IntWasm.Proofs.Structured.StackBound

/-!
# Where branches lead

The checker resolves branches while it reads a body, in code that can be reached and in code that
cannot. Its open blocks are those of the tokens read so far, and when one of them is closed, the
labels of no other block change. So the instructions that it leaves are those of the code with
resolved branches. It notes the number of operands at the entry of a block in the immediate of the
block, which no later step changes. Main statement: `branches_are_resolved`.
-/

namespace IntWasm

namespace Structured

open Body

/-! ## Branches lead out of open blocks -/

section

variable {scope : Scope} {s t : Checker}

/-- The checker accepts branches to open blocks only. -/
theorem lt_of_branchTypes {n : Nat} {types : List ValueType} (hok : s.branchTypes n = .ok types) :
    n < s.blocks.length := by
  unfold Checker.branchTypes at hok
  split at hok
  · cases hok
  · next hb => exact (List.getElem?_eq_some_iff.mp hb).1

/-- So it does for each label of a table. -/
theorem lt_of_checkCases {types : List ValueType} {labels : List UInt32} {v : Unit}
    (hok : s.checkCases types (labels.map fun label => (label.toNat : Int)) = .ok v) :
    ∀ label ∈ labels, label.toNat < s.blocks.length := by
  induction labels with
  | nil => exact nofun
  | cons label labels ih =>
    simp only [List.map_cons, Checker.checkCases, except_bind_eq_ok, Int.toNat_natCast] at hok
    obtain ⟨other, hother, hok⟩ := hok
    split at hok
    · cases hok
    · exact List.forall_mem_cons.mpr ⟨lt_of_branchTypes hother, ih hok⟩

/-- An instruction that the checker accepts does not branch out of the open blocks. -/
theorem within_of_step {i : Instr} {last : Bool}
    (hok : s.step scope i.op i.flat last = .ok (.more t)) : i.Within s.blocks.length := by
  have hlt {label : UInt32} {types : List ValueType}
      (htypes : s.branchTypes label.toUInt64.toUInt32.toNat = .ok types) :
      label.toNat < s.blocks.length := by
    rw [UInt32.toUInt32_toUInt64] at htypes
    exact lt_of_branchTypes htypes
  cases i with
  | br label | brIf label =>
    simp only [Instr.op, Checker.step, except_bind_eq_ok] at hok
    obtain ⟨types, htypes, -⟩ := hok
    exact hlt htypes
  | brTable labels default =>
    simp only [Instr.op, Checker.step, except_bind_eq_ok] at hok
    obtain ⟨types, htypes, v, hcases, -⟩ := hok
    exact ⟨hlt htypes, lt_of_checkCases hcases⟩
  | _ => trivial

end

/-! ## What the checker leaves -/

/-- The instructions of a checker, up to the immediates of blocks. -/
def bares (s : Checker) : List Instruction := s.instructions.toList.map bare

section

variable {scope : Scope} {s t u : Checker}

/-- Instructions are bared one by one. -/
theorem length_bares (s : Checker) : (bares s).length = s.instructions.size := by simp [bares]

/-- An instruction that is added is bared at the end. -/
theorem bares_of_push {i : Instruction} (hpush : t.instructions = s.instructions.push i) :
    bares t = bares s ++ [bare i] := by
  simp [bares, hpush]

/-- Changing labels changes those of the bare instruction. -/
theorem bares_relabel (s : Checker) (at_ : Nat) (change : List Int → List Int) :
    bares (s.relabel at_ change) = (bares s).modify at_ fun i =>
      { i with labels := change i.labels } := by
  apply List.ext_getElem?
  intro j
  simp only [bares, List.getElem?_map, Array.getElem?_toList, getElem?_relabel,
    List.getElem?_modify]
  by_cases hj : at_ = j
  · simp only [hj, if_true]
    cases s.instructions[j]? <;> rfl
  · simp [hj]

/-- A change in the middle of a list. -/
theorem modify_middle (before : List Instruction) (i : Instruction) (after : List Instruction)
    (change : Instruction → Instruction) :
    (before ++ i :: after).modify before.length change = before ++ change i :: after := by
  induction before with
  | nil => rfl
  | cons first before ih => simp [ih]

/-- The code is added with resolved branches, and the blocks around it are those that were open
before. -/
structure Emits (s : Checker) (code : Code) (t : Checker) : Prop where
  bares_eq : bares t = bares s ++ code.lay s.instructions.size
  openers_eq : openers t = openers s
  within : code.Within s.blocks.length

/-- As many instructions are added as the code has. -/
theorem Emits.size_eq {code : Code} (hemits : Emits s code t) :
    t.instructions.size = s.instructions.size + code.size := by
  rw [← length_bares, hemits.bares_eq, List.length_append, length_bares, Code.length_lay]

/-- Each open block has its opener. -/
theorem length_openers (s : Checker) : (openers s).length = s.blocks.length := List.length_map _

/-- Closing a block and adding an instruction adds it to the instructions. -/
theorem push_of_closeBlock {b : Block} (hclose : s.closeBlock = .ok (b, t)) (i : Instruction) :
    (t.append i).instructions = s.instructions.push i :=
  congrArg (·.push i) (Checker.instructions_of_closeBlock hclose)

section

variable {before between after : List Instruction} {x m : Instruction} {outer : List Opener}

/-- The labels of a block are resolved at its end. -/
theorem bares_of_step_close {last : Bool} {opener : Opener}
    (hok : s.step scope Token.close.op Token.close.flat last = .ok (.more t))
    (hopeners : openers s = opener :: outer) :
    ∃ v : Checker, bares v = bares s ++ [Token.close.flat] ∧
      bares t = bares (v.resolve opener (s.instructions.size + 1)) ∧ openers t = outer := by
  obtain ⟨b, v, hclose, -, rfl⟩ := exists_of_step_close hok
  obtain ⟨rfl, rfl⟩ := List.cons.inj (hopeners.symm.trans (openers_closeBlock hclose))
  exact ⟨v.append Token.close.flat, bares_of_push (push_of_closeBlock hclose _), rfl,
    openers_of_blocks (resolve_blocks _ _ _)⟩

/-- Closing a block or the first branch of an `if` resolves its opening instruction. -/
theorem bares_of_step_close_arm {opener : Opener} {last : Bool}
    (hok : s.step scope Token.close.op Token.close.flat last = .ok (.more t))
    (hbares : bares s = before ++ x :: after) (hopeners : openers s = opener :: outer)
    (hopener : opener = .block before.length ∨ opener = .ifThen before.length) :
    bares t = before ++ resolved (s.instructions.size + 1) x :: (after ++ [Token.close.flat]) ∧
      openers t = outer := by
  obtain ⟨v, hpush, hresolved, hopeners'⟩ := bares_of_step_close hok hopeners
  refine ⟨?_, hopeners'⟩
  rw [hresolved]
  rcases hopener with rfl | rfl <;>
    rw [Checker.resolve, bares_relabel, hpush, hbares, List.append_assoc, List.cons_append,
      modify_middle] <;> rfl

/-- The labels of both arms of a conditional are resolved. -/
theorem bares_of_step_close_otherwise {other : Nat} {last : Bool}
    (hok : s.step scope Token.close.op Token.close.flat last = .ok (.more t))
    (hbares : bares s = before ++ x :: (between ++ m :: after))
    (hopeners : openers s = .otherwise before.length other :: outer)
    (hother : other = before.length + 1 + between.length) :
    bares t = before ++ resolved (s.instructions.size + 1) x ::
      (between ++ resolved (s.instructions.size + 1) m :: (after ++ [Token.close.flat])) ∧
      openers t = outer := by
  obtain ⟨v, hpush, hresolved, hopeners'⟩ := bares_of_step_close hok hopeners
  refine ⟨?_, hopeners'⟩
  have hlength (y : Instruction) : other = (before ++ y :: between).length := by
    rw [hother, List.length_append, List.length_cons]
    omega
  rw [hresolved, Checker.resolve, bares_relabel, bares_relabel, hpush, hbares, List.append_assoc,
    List.cons_append, modify_middle, List.append_assoc, List.cons_append, ← List.cons_append,
    ← List.append_assoc, hlength, modify_middle, List.append_assoc]
  rfl

/-- Where the second arm of a conditional begins is noted in the conditional. -/
theorem bares_of_step_otherwise {last : Bool}
    (hok : s.step scope Token.otherwise.op Token.otherwise.flat last = .ok (.more t))
    (hbares : bares s = before ++ x :: between)
    (hopeners : openers s = .ifThen before.length :: outer) :
    bares t = before ++ { x with labels := x.labels.set 1 (s.instructions.size : Nat) } ::
      (between ++ [{ opcode := Opcode.otherwise.byte, labels := [0] }]) ∧
      openers t = .otherwise before.length s.instructions.size :: outer := by
  obtain ⟨b, v, at_, hclose, hopener, rfl⟩ := exists_of_step_otherwise hok
  obtain ⟨hfound, rfl⟩ := List.cons.inj (hopeners.symm.trans (openers_closeBlock hclose))
  obtain rfl := Opener.ifThen.inj (hfound.trans hopener)
  refine ⟨(bares_relabel (v.append { Token.otherwise.flat with labels := [0] }) before.length
    (·.set 1 (s.instructions.size : Nat))).trans ?_, rfl⟩
  rw [bares_of_push (push_of_closeBlock hclose _), hbares, List.append_assoc, List.cons_append,
    modify_middle]
  rfl

end

/-- An instruction that opens a block is left with labels that may still have to be resolved. -/
theorem bares_enter (hsame : SameCode s t) {i : Instruction} (hopens : opensBlock i.opcode = true)
    (opener : Opener) (labels : List Int) :
    bares (t.enter i opener labels) = bares s ++ [{ opcode := i.opcode, labels }] ∧
      openers (t.enter i opener labels) = opener :: openers s := by
  have hbare : bare (opening i t.stack.length labels) = { opcode := i.opcode, labels } := by
    have hopcode : opensBlock (opening i t.stack.length labels).opcode = true := hopens
    simp only [bare, hopcode, if_true]
    rfl
  refine ⟨?_, congrArg (opener :: ·) hsame.openers_eq⟩
  rw [bares_of_push (instructions_enter t i opener labels), hbare, bares,
    hsame.instructions_eq, bares]

/-- A state has the same code as itself. -/
theorem SameCode.refl (s : Checker) : SameCode s s := ⟨rfl, rfl⟩

/-- `block` is written with its type and one label that is not known yet. -/
theorem opened_of_step_block {type : BlockType} {last : Bool}
    (hok : s.step scope .block (Token.block type).flat last = .ok (.more t)) :
    bares t = bares s ++ [{ opcode := Opcode.block.byte, labels := [0] }] ∧
      openers t = .block (bares s).length :: openers s := by
  rw [length_bares]
  cases hok
  exact bares_enter (.refl s) rfl _ _

/-- `loop` is written with its type and the label that is its own place. -/
theorem opened_of_step_loop {type : BlockType} {last : Bool}
    (hok : s.step scope .loop (Token.loop type).flat last = .ok (.more t)) :
    bares t = bares s ++ [{ opcode := Opcode.loop.byte, labels := [(s.instructions.size : Nat)] }] ∧
      openers t = .loop s.instructions.size :: openers s := by
  cases hok
  exact bares_enter (.refl s) rfl _ _

/-- `if` is written with its type and two labels that are not known yet. -/
theorem opened_of_step_ifThen {type : BlockType} {last : Bool}
    (hok : s.step scope .ifThen (Token.ifThen type).flat last = .ok (.more t)) :
    bares t = bares s ++ [{ opcode := Opcode.ifThen.byte, labels := [0, 0] }] ∧
      openers t = .ifThen (bares s).length :: openers s := by
  obtain ⟨u, hcondition, rfl⟩ := exists_of_step_ifThen hok
  rw [length_bares]
  exact bares_enter (sameCode_of_popType hcondition) rfl _ _

/-- One bare instruction more is one instruction more. -/
theorem size_of_bares {i : Instruction} (hopened : bares t = bares s ++ [i]) :
    t.instructions.size = s.instructions.size + 1 := by
  rw [← length_bares, hopened, List.length_append, length_bares, List.length_singleton]

/-- What is left of a block is followed by what is left of the code behind it. -/
theorem Emits.next {v s' : Checker} {next : Code} {arms : List Instruction}
    (hclosed : bares v = bares s ++ arms) (hopeners : openers v = openers s)
    (hnext : Emits v next s') :
    bares s' = bares s ++ (arms ++ next.lay (s.instructions.size + arms.length)) ∧
      openers s' = openers s ∧ next.Within s.blocks.length := by
  have hsize : v.instructions.size = s.instructions.size + arms.length := by
    rw [← length_bares, hclosed, List.length_append, length_bares]
  have hdepth : v.blocks.length = s.blocks.length := by
    rw [← length_openers, hopeners, length_openers]
  refine ⟨?_, hnext.openers_eq.trans hopeners, hdepth ▸ hnext.within⟩
  rw [hnext.bares_eq, hclosed, hsize, List.append_assoc]

/-- The inside of a block sees one more block. -/
theorem Emits.inside {body : Code} {opener : Opener} (hopener : openers t = opener :: openers s)
    (hbody : Emits t body u) : body.Within (s.blocks.length + 1) := by
  have hinside : t.blocks.length = s.blocks.length + 1 := by
    rw [← length_openers, hopener, List.length_cons, length_openers]
  exact hinside ▸ hbody.within

/-- The inside of a block is laid behind its opening instruction. -/
theorem Emits.laid {body : Code} {x : Instruction} (hopened : bares t = bares s ++ [x])
    (hbody : Emits t body u) : bares u = bares s ++ x :: body.lay (s.instructions.size + 1) := by
  rw [hbody.bares_eq, hopened, size_of_bares hopened, List.append_assoc]
  rfl

/-- What is left of a block of one arm. -/
theorem emits_arm {v : Checker} {body : Code} {opener : Opener} {x : Instruction}
    (hopened : bares t = bares s ++ [x]) (hopener : openers t = opener :: openers s)
    (harm : opener = .block (bares s).length ∨ opener = .ifThen (bares s).length)
    (hbody : Emits t body u)
    (hclose : u.step scope Token.close.op Token.close.flat false = .ok (.more v)) :
    bares v = bares s ++ resolved (s.instructions.size + 1 + body.size + 1) x ::
      (body.lay (s.instructions.size + 1) ++ [Token.close.flat]) ∧ openers v = openers s := by
  have hclosed := bares_of_step_close_arm hclose (hbody.laid hopened)
    (hbody.openers_eq.trans hopener) harm
  rwa [hbody.size_eq, size_of_bares hopened] at hclosed

/-- A block is laid as its opening instruction, its inside, its end and what follows. -/
theorem lay_arm (k : Nat) (x c : Instruction) (body next : Code) :
    x :: (body.lay (k + 1) ++ [c]) ++ next.lay (k + (x :: (body.lay (k + 1) ++ [c])).length) =
      x :: (body.lay (k + 1) ++ c :: next.lay (k + 1 + body.size + 1)) := by
  have hplace : k + (x :: (body.lay (k + 1) ++ [c])).length = k + 1 + body.size + 1 := by
    simp only [List.length_cons, List.length_append, Code.length_lay, List.length_nil]
    omega
  rw [hplace]
  simp

/-- Over code, the checker leaves the instructions of the code with resolved branches. -/
theorem Code.emits_of_runs (code : Code) {s' : Checker} (hruns : Runs scope s code.tokens s') :
    Emits s code s' := by
  induction code generalizing s s' with
  | done =>
    cases hruns
    exact ⟨by simp [lay], rfl, trivial⟩
  -- The induction is on the code. What the checker has left before a block stays in place while it
  -- checks the inside, so the end finds the opening instruction where it was pushed.
  | instr i next ih =>
    obtain ⟨t, hstep, hruns⟩ := hruns
    have hadds := adds_of_step_instr hstep
    have hbare : bare i.flat = i.flat := by
      have hopens : opensBlock i.flat.opcode = false := opensBlock_byte (.instr i)
      simp only [bare, hopens, Bool.false_eq_true, if_false]
    have hadded := bares_of_push hadds.instructions_eq
    rw [hbare] at hadded
    obtain ⟨hbares, hopeners, hwithin⟩ := (ih hruns).next hadded hadds.openers_eq
    exact ⟨hbares, hopeners, within_of_step hstep, hwithin⟩
  | block type body next ihbody ihnext =>
    obtain ⟨t, hopen, hruns⟩ := hruns
    obtain ⟨u, hbody, v, hclose, hnext⟩ := runs_append.mp hruns
    obtain ⟨hopened, hopener⟩ := opened_of_step_block hopen
    have hinside := ihbody hbody
    obtain ⟨hclosed, hopeners⟩ := emits_arm hopened hopener (.inl rfl) hinside hclose
    obtain ⟨hbares, hopeners', hwithin⟩ := (ihnext hnext).next hclosed hopeners
    refine ⟨?_, hopeners', hinside.inside hopener, hwithin⟩
    rw [hbares, lay_arm]
    rfl
  | loop type body next ihbody ihnext =>
    obtain ⟨t, hopen, hruns⟩ := hruns
    obtain ⟨u, hbody, v, hclose, hnext⟩ := runs_append.mp hruns
    obtain ⟨hopened, hopener⟩ := opened_of_step_loop hopen
    have hinside := ihbody hbody
    obtain ⟨w, hpush, hclosed, hopeners⟩ :=
      bares_of_step_close hclose (hinside.openers_eq.trans hopener)
    -- The end of a loop resolves nothing: a branch to a loop goes back to its start.
    rw [Checker.resolve, hpush, hinside.laid hopened, List.append_assoc] at hclosed
    obtain ⟨hbares, hopeners', hwithin⟩ := (ihnext hnext).next hclosed hopeners
    refine ⟨?_, hopeners', hinside.inside hopener, hwithin⟩
    rw [hbares, List.cons_append, lay_arm]
    rfl
  | ifThen type body next ihbody ihnext =>
    obtain ⟨t, hopen, hruns⟩ := hruns
    obtain ⟨u, hbody, v, hclose, hnext⟩ := runs_append.mp hruns
    obtain ⟨hopened, hopener⟩ := opened_of_step_ifThen hopen
    have hinside := ihbody hbody
    obtain ⟨hclosed, hopeners⟩ := emits_arm hopened hopener (.inr rfl) hinside hclose
    obtain ⟨hbares, hopeners', hwithin⟩ := (ihnext hnext).next hclosed hopeners
    refine ⟨?_, hopeners', hinside.inside hopener, hwithin⟩
    rw [hbares, lay_arm]
    rfl
  | ifElse type first second next ihfirst ihsecond ihnext =>
    obtain ⟨t, hopen, hruns⟩ := hruns
    obtain ⟨u, hfirst, v, hother, hruns⟩ := runs_append.mp hruns
    obtain ⟨w, hsecond, z, hclose, hnext⟩ := runs_append.mp hruns
    obtain ⟨hopened, hopener⟩ := opened_of_step_ifThen hopen
    have hinside := ihfirst hfirst
    have hother' := hinside.size_eq
    rw [size_of_bares hopened] at hother'
    obtain ⟨hswitched, hopener'⟩ := bares_of_step_otherwise hother (hinside.laid hopened)
      (hinside.openers_eq.trans hopener)
    have hinside' := ihsecond hsecond
    have hv : v.instructions.size = u.instructions.size + 1 := by
      rw [← length_bares v, hswitched, hother']
      simp only [List.length_append, List.length_cons, length_bares, length_lay, List.length_nil]
      omega
    -- Both arms lie behind the opening instruction by now, with the `else` in between; the end
    -- resolves the two of them at once.
    have hlaid := hinside'.bares_eq
    rw [hswitched, hv, List.append_assoc, List.cons_append, List.append_assoc,
      List.singleton_append] at hlaid
    obtain ⟨hclosed, hopeners⟩ := bares_of_step_close_otherwise hclose hlaid
      (hinside'.openers_eq.trans hopener') (by rw [length_bares, length_lay, hother'])
    obtain ⟨hbares, hopeners', hwithin⟩ := (ihnext hnext).next hclosed hopeners
    have hdepth := hinside'.within
    rw [← length_openers, hopener', List.length_cons, length_openers] at hdepth
    refine ⟨?_, hopeners', hinside.inside hopener, hdepth, hwithin⟩
    rw [hbares, hinside'.size_eq, hv, hother']
    simp only [lay, List.cons_append, List.append_assoc, List.nil_append, List.length_cons,
      List.length_append, length_lay, List.length_nil]
    have hplace : s.instructions.size + (first.size + (second.size + (0 + 1) + 1) + 1) =
        s.instructions.size + 1 + first.size + 1 + second.size + 1 := by omega
    rw [hplace]
    rfl

end

/-! ## Heights -/

/-- The immediates of the instructions of a checker. -/
def words (s : Checker) : List UInt64 := s.instructions.toList.map Instruction.immediate

section

variable {scope : Scope} {s t u : Checker}

/-- An instruction that is added brings its immediate. -/
theorem words_of_push {i : Instruction} (hpush : t.instructions = s.instructions.push i) :
    words t = words s ++ [i.immediate] := by
  simp [words, hpush]

/-- Labels are not immediates. -/
theorem words_relabel (s : Checker) (at_ : Nat) (change : List Int → List Int) :
    words (s.relabel at_ change) = words s := by
  apply List.ext_getElem?
  intro j
  simp only [words, List.getElem?_map, Array.getElem?_toList, getElem?_relabel]
  split
  · cases s.instructions[j]? <;> rfl
  · rfl

/-- Resolving branches does not touch immediates. -/
theorem words_resolve (s : Checker) (opener : Opener) (next : Nat) :
    words (s.resolve opener next) = words s := by
  cases opener with
  | function | loop => rfl
  | block at_ | ifThen at_ => exact words_relabel s at_ _
  | otherwise at_ other => exact (words_relabel _ other _).trans (words_relabel s at_ _)

/-- Entering a block adds the immediate of its opening instruction. -/
theorem words_enter (hsame : SameCode s t) (i : Instruction) (opener : Opener) (labels : List Int) :
    words (t.enter i opener labels) = words s ++ [(opening i t.stack.length labels).immediate] := by
  rw [words_of_push (instructions_enter t i opener labels), words, hsame.instructions_eq, words]

/-- A step adds one instruction and changes no immediate. An instruction that opens a block notes
the number of operands at its entry. -/
theorem words_of_step {token : Token}
    (hok : s.step scope token.op token.flat false = .ok (.more t)) :
    ∃ w, words t = words s ++ [w] ∧
      (token.opens = true →
        ∀ labels, w = (opening token.flat t.stack.length labels).immediate) := by
  cases token with
  | instr i => exact ⟨_, words_of_push (adds_of_step_instr hok).instructions_eq, nofun⟩
  | block type =>
    cases hok
    exact ⟨_, words_enter (.refl s) (Token.block type).flat (.block s.instructions.size) [0],
      fun _ _ => rfl⟩
  | loop type =>
    cases hok
    exact ⟨_, words_enter (.refl s) (Token.loop type).flat (.loop s.instructions.size) _,
      fun _ _ => rfl⟩
  | ifThen type =>
    obtain ⟨u, hcondition, rfl⟩ := exists_of_step_ifThen hok
    exact ⟨_, words_enter (sameCode_of_popType hcondition) _ _ _, fun _ _ => rfl⟩
  | otherwise =>
    obtain ⟨b, v, at_, hclose, -, rfl⟩ := exists_of_step_otherwise hok
    exact ⟨_, (words_relabel (v.append { Token.otherwise.flat with labels := [0] }) at_
      (·.set 1 (s.instructions.size : Nat))).trans (words_of_push (push_of_closeBlock hclose _)),
      nofun⟩
  | close =>
    obtain ⟨b, v, hclose, -, rfl⟩ := exists_of_step_close hok
    exact ⟨_, (words_resolve (v.append Token.close.flat) b.opener (s.instructions.size + 1)).trans
      (words_of_push (push_of_closeBlock hclose _)), nofun⟩

/-- Later tokens do not change immediates that are there. -/
theorem words_of_runs {tokens : List Token} (hruns : Runs scope s tokens t) :
    ∃ more, words t = words s ++ more ∧ more.length = tokens.length := by
  induction tokens generalizing s with
  | nil =>
    cases hruns
    exact ⟨[], by simp, rfl⟩
  | cons token tokens ih =>
    obtain ⟨u, hstep, hmore⟩ := hruns
    obtain ⟨w, hw, -⟩ := words_of_step hstep
    obtain ⟨more, hwords, hlength⟩ := ih hmore
    exact ⟨w :: more, by rw [hwords, hw, List.append_assoc, List.singleton_append], by
      rw [List.length_cons, hlength, List.length_cons]⟩

/-- An instruction that opens a block notes the number of operands that the checker finds behind
it. -/
theorem height_of_runs {first rest : List Token} {token : Token} {i : Instruction}
    (hstart : s.instructions = #[]) (hfirst : Runs scope s first t)
    (hopen : t.step scope token.op token.flat false = .ok (.more u)) (hopens : token.opens = true)
    {s' : Checker} (hrest : Runs scope u rest s') (hat : s'.instructions[first.length]? = some i)
    (hheight : u.stack.length < 2 ^ 31) : i.height = u.stack.length := by
  obtain ⟨before, hbefore, hlength⟩ := words_of_runs hfirst
  obtain ⟨w, hw, hnotes⟩ := words_of_step hopen
  obtain ⟨more, hmore, -⟩ := words_of_runs hrest
  have hempty : words s = [] := by rw [words, hstart]; rfl
  have hword : (words s')[first.length]? = some w := by
    rw [hmore, hw, hbefore, hempty, List.nil_append, ← hlength, List.getElem?_append_left (by simp),
      List.getElem?_concat_length]
  have himmediate : i.immediate = w := by
    rw [words, List.getElem?_map, Array.getElem?_toList, hat] at hword
    exact Option.some.inj hword
  have hsame : i.height = (opening token.flat u.stack.length []).height := by
    rw [Instruction.height, himmediate, hnotes hopens []]
    rfl
  rw [hsame]
  cases token with
  | block type => exact height_opening .block type [] hheight
  | loop type => exact height_opening .loop type [] hheight
  | ifThen type => exact height_opening .ifThen type [] hheight
  | instr | otherwise | close => cases hopens

end

end Structured

namespace Body

/-- The instruction `i`, which opens a block, is matched by the end of the block at `e`, and the
labels of the block are resolved. -/
structure Matched (instructions : Array Instruction) (n : Nat) (i : Instruction) (e : Nat)
    (other : Option Nat) : Prop where
  before : n < e
  inside : e + 1 < instructions.size
  closes : Closes instructions e ⟨i.opcode, n, other⟩
  resolved : Resolved instructions e ⟨i.opcode, n, other⟩

/-- The blocks of a body are bracketed, and its branches are resolved. -/
structure BranchesResolved (instructions : Array Instruction) (last : Nat) : Prop where
  size_eq : instructions.size = last + 1
  /-- The last instruction ends the function. -/
  ends : (instructions[last]?).map Instruction.opcode = some Opcode.close.byte
  outermost : openBlocks instructions last = some []
  /-- No other end does, for it closes a block. -/
  bracketed : Structured.Bracketed instructions 0 last
  matched : ∀ n i, instructions[n]? = some i → opensBlock i.opcode = true →
    ∃ e other, Matched instructions n i e other

/-- The opcode of a bracket is that of its opening instruction. -/
theorem Resolved.opcode_eq {instructions : Array Instruction} {e : Nat} {b : Bracket}
    {i : Instruction} (hresolved : Resolved instructions e b)
    (hat : instructions[b.at_]? = some i) : b.opcode = i.opcode := by
  cases hresolved with
  | block hfound hopcode | loop hfound hopcode | ifThen hfound hopcode | ifElse hfound hopcode =>
    obtain rfl := Option.some.inj (hfound.symm.trans hat)
    exact hopcode.symm

end Body

namespace Structured

open Body

section

variable {instructions : Array Instruction} {last : Nat}

/-- In a body that is bracketed up to its last instruction, every block has its end. -/
theorem Bracketed.exists_matched (hbracketed : Bracketed instructions 0 last)
    (hsize : instructions.size = last + 1) {n : Nat} {i : Instruction} (hlt : n < last)
    (hat : instructions[n]? = some i) (hopens : opensBlock i.opcode = true) :
    ∃ e other, Matched instructions n i e other := by
  obtain ⟨open_, -, hopened⟩ := hbracketed n i (Nat.zero_le n) hlt hat
  obtain ⟨e, b, hbefore, hinside, hcloses, rfl⟩ := hopened.opens hopens
  obtain ⟨⟨j, hj, hclose⟩, outer, houter⟩ := And.imp_left Option.map_eq_some_iff.mp hcloses
  obtain ⟨open_, hopen, hclosed⟩ := hbracketed e j (Nat.zero_le e) (by omega) hj
  obtain ⟨b', outer', rfl, -, hresolved⟩ := hclosed.closes hclose
  obtain ⟨rfl, -⟩ := List.cons.inj (Option.some.inj (houter.symm.trans hopen))
  obtain ⟨opcode, at_, other⟩ := b
  obtain rfl : opcode = i.opcode := hresolved.opcode_eq hat
  exact ⟨e, other, hbefore, hinside, hcloses, hresolved⟩

/-- Code with resolved branches and the end of the function are a body with resolved branches. -/
theorem Code.branchesResolved {code : Code}
    (hbares : instructions.toList.map bare = code.lay 0 ++ [Token.close.flat])
    (hwithin : code.Within 1) : BranchesResolved instructions code.size := by
  have hsize : instructions.size = code.size + 1 := by
    have hlength := congrArg List.length hbares
    simpa [length_lay] using hlength
  have hlies : Lies instructions 0 (code.lay 0 ++ [Token.close.flat]) := by
    intro j x hx
    rw [Nat.zero_add, ← Array.getElem?_toList, ← List.getElem?_map, hbares, hx]
  have hends : (instructions[code.size]?).map Instruction.opcode = some Opcode.close.byte := by
    have hlast := hlies.right
    rw [length_lay, Nat.zero_add] at hlast
    obtain ⟨i, hi, hbare⟩ := hlast.head
    rw [hi]
    exact congrArg some (congrArg Instruction.opcode hbare)
  obtain ⟨hopen, hbracketed⟩ := code.bracketed hlies.left rfl hwithin (by omega)
  rw [Nat.zero_add] at hopen hbracketed
  refine ⟨hsize, hends, hopen, hbracketed, fun n i hat hopens => ?_⟩
  have hlt := (Array.getElem?_eq_some_iff.mp hat).1
  refine hbracketed.exists_matched hsize (Nat.lt_of_le_of_ne (by omega) ?_) hat hopens
  rintro rfl
  rw [hat] at hends
  rw [Option.some.inj hends] at hopens
  exact absurd hopens (by decide)

end

/-! ## Accepted bodies -/

/-- Where an instruction opens a block, a token opens it. -/
theorem exists_token_of_opens {tokens : List Token} {instructions : Array Instruction} {n : Nat}
    {i : Instruction} (hcarries : List.Forall₂ Carries instructions.toList (tokens ++ [.close]))
    (hat : instructions[n]? = some i) (hopens : opensBlock i.opcode = true) :
    ∃ first token rest, tokens = first ++ token :: rest ∧ first.length = n ∧
    token.opens = true := by
  obtain ⟨hlength, hcarries⟩ := List.forall₂_iff_get.mp hcarries
  obtain ⟨hlt, rfl⟩ := Array.getElem?_eq_some_iff.mp hat
  rw [Array.length_toList] at hlength
  have hopcode := (hcarries n (by simpa using hlt) (by rwa [← hlength])).opcode_eq
  simp only [List.get_eq_getElem, Array.getElem_toList] at hopcode
  rw [hopcode, opensBlock_byte] at hopens
  by_cases hn : n < tokens.length
  · rw [List.getElem_append_left hn] at hopens
    exact ⟨tokens.take n, tokens[n], tokens.drop (n + 1), by simp, by simp; omega, hopens⟩
  · rw [List.getElem_append_right (by omega)] at hopens
    simp [Token.opens] at hopens

/-- In a body that is accepted, ends match the beginnings of their blocks, and the labels of the
blocks lead there; branches lead out of blocks that are open. The heights of the stack that the
checker has found at the entries of blocks are noted in them if they have at most 31 bits. They do
if functions give at most one result and the body has fewer than 2³² bytes. -/
theorem branches_are_resolved {scope : Scope} {results : List ValueType} {base : Nat}
    {code : List UInt8} {body : Body} (hok : check scope results base code = .ok body) :
    (∃ last, BranchesResolved body.instructions last) ∧
      ∀ n i, body.instructions[n]? = some i → opensBlock i.opcode = true →
        ∃ types, chart scope results code (n + 1) = some types ∧
          (types.length < 2 ^ 31 → i.height = types.length) ∧
          (scope.Narrow → results.length ≤ 1 → code.length < 2 ^ 32 → types.length < 2 ^ 31) := by
  -- The tokens that the checker has run over are those of a tree, and over a tree the brackets
  -- match.
  obtain ⟨tokens, bytes, s', rfl, hspells, hruns, hdone⟩ :=
    exists_runs_of_checkFrom (check_eq_checkFrom.mp hok)
  have hcarries := carries_of_runs hruns hdone
  obtain ⟨tree, rfl⟩ := exists_code_of_runs hruns hdone
  obtain ⟨b, t, hclose, -, rfl⟩ := exists_of_step_done hdone
  have hpush := push_of_closeBlock hclose Token.close.flat
  have hemits := tree.emits_of_runs hruns
  refine ⟨⟨tree.size, ?_⟩, fun n i hat hopens => ?_⟩
  · refine Code.branchesResolved ?_ hemits.within
    rw [hpush, Array.toList_push, List.map_append]
    exact congrArg (· ++ [Token.close.flat]) hemits.bares_eq
  · obtain ⟨first, token, rest, htokens, rfl, htoken⟩ := exists_token_of_opens hcarries hat hopens
    have hplace : s'.instructions[first.length]? = some i := by
      have hsize : s'.instructions.size = tree.tokens.length := by
        rw [hemits.size_eq, Code.length_tokens]
        exact Nat.zero_add _
      rw [← hat, hpush, Array.getElem?_push, if_neg]
      rw [hsize, htokens, List.length_append, List.length_cons]
      omega
    rw [htokens] at hspells hruns
    obtain ⟨u, hfirst, v, hopen, hrest⟩ := runs_append.mp hruns
    have hbefore : Runs scope (Checker.openBlock {} .function results) (first ++ [token]) v :=
      runs_append.mpr ⟨u, hfirst, v, hopen, rfl⟩
    -- The chart tells the types behind each beginning of the tokens, hence behind the opening,
    -- where the height was noted.
    have htells := @tells_chart scope results _ _ hspells [closingByte]
    have htypes := htells (first ++ [token]) rest v (by simp) hbefore
    refine ⟨v.stack, by simpa [Checker.openBlock] using htypes, fun hheight => ?_,
      fun hnarrow hone hlength => ?_⟩
    · exact height_of_runs rfl hfirst hopen htoken hrest hplace hheight
    · rw [← List.singleton_append, ← List.append_assoc] at hspells
      obtain ⟨start, later, rfl, hstart, -⟩ := spellsTokens_append.mp hspells
      have hle := two_mul_length_stack_le hnarrow hone hbefore hstart
      simp only [List.length_append] at hlength
      omega

/-- A conditional in a block: its first arm leaves both, and its second arm is a loop for ever.
Below the block lies an operand. -/
def leavingOrLooping : List UInt8 :=
  [0x41, 0x07, 0x02, 0x40, 0x41, 0x01, 0x04, 0x40, 0x0c, 0x01, 0x05, 0x03, 0x40, 0x0c, 0x00, 0x0b,
    0x0b, 0x0b, 0x1a]

/-- A body that leaves its function from within an `if` or goes on looping. -/
theorem branches_are_resolved_leavingOrLooping :
    ∃ body, check bareScope [] 0 (leavingOrLooping ++ [closingByte]) = .ok body ∧ bareScope.Narrow ∧
      BranchesResolved body.instructions 12 ∧ ∃ i types, body.instructions[3]? = some i ∧
        opensBlock i.opcode = true ∧ i.labels = [10, 5] ∧
        chart bareScope [] (leavingOrLooping ++ [closingByte]) 4 = some types ∧
        types.length < 2 ^ 31 ∧
        i.height = types.length ∧ i.height = 1 := by
  let tokens : List Token :=
    [.instr (.const32 7), .block none, .instr (.const32 1), .ifThen none, .instr (.br 1),
      .otherwise, .loop none, .instr (.br 0), .close, .close, .close, .instr .drop]
  have hspells : SpellsTokens tokens leavingOrLooping := by
    have hindex (n : UInt32) (hn : n = 0 ∨ n = 1) : SpellsIndex n [n.toUInt8] := by
      rcases hn with rfl | rfl <;> exact ⟨rfl, by decide, by decide, by decide⟩
    exact ⟨[0x41, 0x07], _, rfl, ⟨_, rfl, rfl, by decide, by decide, by decide, by decide⟩,
      [0x02, 0x40], _, rfl, ⟨_, rfl, rfl⟩,
      [0x41, 0x01], _, rfl, ⟨_, rfl, rfl, by decide, by decide, by decide, by decide⟩,
      [0x04, 0x40], _, rfl, ⟨_, rfl, rfl⟩, [0x0c, 0x01], _, rfl, ⟨_, rfl, hindex 1 (.inr rfl)⟩,
      [0x05], _, rfl, ⟨_, rfl, rfl⟩, [0x03, 0x40], _, rfl, ⟨_, rfl, rfl⟩,
      [0x0c, 0x00], _, rfl, ⟨_, rfl, hindex 0 (.inl rfl)⟩, [0x0b], _, rfl, ⟨_, rfl, rfl⟩,
      [0x0b], _, rfl, ⟨_, rfl, rfl⟩, [0x0b], _, rfl, ⟨_, rfl, rfl⟩, [0x1a], _, rfl,
      ⟨_, rfl, rfl⟩, rfl⟩
  have hok : check bareScope [] 0 (leavingOrLooping ++ [closingByte]) = .ok _ :=
    (check_spelled_iff hspells).mpr ⟨_, ⟨_, rfl, _, rfl, _, rfl, _, rfl, _, rfl, _, rfl, _, rfl, _,
      rfl, _, rfl, _, rfl, _, rfl, _, rfl, rfl⟩, rfl⟩
  have hnarrow : bareScope.Narrow := ⟨nofun, nofun⟩
  obtain ⟨⟨last, hresolved⟩, hheights⟩ := branches_are_resolved hok
  obtain rfl : 12 = last := Nat.succ.inj hresolved.size_eq
  obtain ⟨types, htypes, hheight, hshort⟩ := hheights 3 _ rfl rfl
  have hlt := hshort hnarrow zero_le_one (by decide)
  exact ⟨_, hok, hnarrow, hresolved, _, types, rfl, rfl, rfl, htypes, hlt, hheight hlt, rfl⟩

end Structured

end IntWasm
