import IntWasm.Proofs.Structured.Openings

/-!
# The brackets of a flat body

The instructions of a body that open and close blocks are brackets. Going over the opcodes from the
left tells which blocks are open in front of every instruction, where each of them was opened and
whether its second arm has begun. `Code.lay` writes down the instructions of code with all branches
resolved, and where a body has these instructions, every bracket is closed and the labels of its
block lead to where it ends. Main statement: `Code.bracketed`.
-/

namespace IntWasm

/-- A block that is open. -/
structure Bracket where
  /-- The opcode of the instruction that opens it. -/
  opcode : UInt8
  /-- The index of this instruction. -/
  at_ : Nat
  /-- The index of the instruction between the arms of a conditional, if the second one has
  begun. -/
  other : Option Nat := none
  deriving Repr, DecidableEq

/-- The blocks that are open behind an instruction, given those in front of it; nothing comes out
where no block is there to be closed or to have a second arm. -/
def Bracket.after (i : Instruction) (ip : Nat) (open_ : List Bracket) : Option (List Bracket) :=
  if opensBlock i.opcode then some ({ opcode := i.opcode, at_ := ip } :: open_)
  else if i.opcode = Opcode.otherwise.byte then
    match open_ with
    | b :: outer =>
      if b.opcode = Opcode.ifThen.byte ∧ b.other = none
        then some ({ b with other := some ip } :: outer)
      else none
    | [] => none
  else if i.opcode = Opcode.close.byte then
    match open_ with
    | _ :: outer => some outer
    | [] => none
  else some open_

namespace Body

/-- The blocks that are open in front of the instruction at an index, the innermost first. The
function itself is not among them. -/
def openBlocks (instructions : Array Instruction) : Nat → Option (List Bracket)
  | 0 => some []
  | n + 1 => do
    let open_ ← openBlocks instructions n
    let i ← instructions[n]?
    Bracket.after i n open_

/-- The instruction at `e` closes a block. -/
def Closes (instructions : Array Instruction) (e : Nat) (b : Bracket) : Prop :=
  (instructions[e]?).map Instruction.opcode = some Opcode.close.byte ∧
    ∃ outer, openBlocks instructions e = some (b :: outer)

/-- The labels of a block that ends at `e` are resolved: one behind its end is where blocks and
conditionals go on, and loops go on at their beginning. A conditional knows its second arm, and the
first arm of it is left for the end. -/
inductive Resolved (instructions : Array Instruction) (e : Nat) : Bracket → Prop
  | block {at_ : Nat} {i : Instruction} (hat : instructions[at_]? = some i)
      (hopcode : i.opcode = Opcode.block.byte) (hlabels : i.labels = [(e + 1 : Nat)]) :
    Resolved instructions e ⟨Opcode.block.byte, at_, none⟩
  | loop {at_ : Nat} {i : Instruction} (hat : instructions[at_]? = some i)
      (hopcode : i.opcode = Opcode.loop.byte) (hlabels : i.labels = [(at_ : Nat)]) :
    Resolved instructions e ⟨Opcode.loop.byte, at_, none⟩
  | ifThen {at_ : Nat} {i : Instruction} (hat : instructions[at_]? = some i)
      (hopcode : i.opcode = Opcode.ifThen.byte) (hlabels : i.labels = [(e + 1 : Nat), 0]) :
    Resolved instructions e ⟨Opcode.ifThen.byte, at_, none⟩
  | ifElse {at_ other : Nat} {i m : Instruction} (hat : instructions[at_]? = some i)
      (hopcode : i.opcode = Opcode.ifThen.byte)
      (hlabels : i.labels = [(e + 1 : Nat), (other : Nat)]) (hbefore : at_ < other)
      (hafter : other < e) (hother : instructions[other]? = some m)
      (hmiddle : m.opcode = Opcode.otherwise.byte) (hskip : m.labels = [(e + 1 : Nat)]) :
    Resolved instructions e ⟨Opcode.ifThen.byte, at_, some other⟩

/-- What has to hold at an index for the blocks of a body to be bracketed. -/
structure BracketedAt (instructions : Array Instruction) (n : Nat) (i : Instruction)
    (open_ : List Bracket) : Prop where
  /-- A block that is opened is closed before the function ends. -/
  opens : opensBlock i.opcode = true → ∃ e b, n < e ∧ e + 1 < instructions.size ∧
    Closes instructions e b ∧ b.at_ = n
  /-- A block that is closed has its labels resolved. -/
  closes : i.opcode = Opcode.close.byte → ∃ b outer, open_ = b :: outer ∧ b.at_ < n ∧
    Resolved instructions n b
  /-- Branches lead out of open blocks or out of the function. -/
  branches : i.opcode = Opcode.br.byte ∨ i.opcode = Opcode.brIf.byte ∨
    i.opcode = Opcode.brTable.byte →
    i.index.toNat < open_.length + 1 ∧ ∀ label ∈ i.labels, 0 ≤ label ∧ label < open_.length + 1

end Body

namespace Structured

open Body

/-! ## Code with resolved branches -/

/-- The number of instructions of code. -/
def Code.size : Code → Nat
  | done => 0
  | instr _ next => next.size + 1
  | block _ body next | loop _ body next | ifThen _ body next => body.size + next.size + 2
  | ifElse _ first second next => first.size + second.size + next.size + 3

/-- The instructions of code that begins at an index, with all branches resolved. The immediates of
those that open blocks are left out. -/
def Code.lay : Code → Nat → List Instruction
  | done, _ => []
  | instr i next, k => i.flat :: next.lay (k + 1)
  | block _ body next, k =>
    let e := k + 1 + body.size
    { opcode := Opcode.block.byte, labels := [(e + 1 : Nat)] } ::
      (body.lay (k + 1) ++ Token.close.flat :: next.lay (e + 1))
  | loop _ body next, k =>
    let e := k + 1 + body.size
    { opcode := Opcode.loop.byte, labels := [(k : Nat)] } ::
      (body.lay (k + 1) ++ Token.close.flat :: next.lay (e + 1))
  | ifThen _ body next, k =>
    let e := k + 1 + body.size
    { opcode := Opcode.ifThen.byte, labels := [(e + 1 : Nat), 0] } ::
      (body.lay (k + 1) ++ Token.close.flat :: next.lay (e + 1))
  | ifElse _ first second next, k =>
    let other := k + 1 + first.size
    let e := other + 1 + second.size
    { opcode := Opcode.ifThen.byte, labels := [(e + 1 : Nat), (other : Nat)] } ::
      (first.lay (k + 1) ++ { opcode := Opcode.otherwise.byte, labels := [(e + 1 : Nat)] } ::
        (second.lay (other + 1) ++ Token.close.flat :: next.lay (e + 1)))

/-- Code is laid out in as many instructions as it has. -/
theorem Code.length_lay (code : Code) (k : Nat) : (code.lay k).length = code.size := by
  induction code generalizing k with
  | done => rfl
  | instr i next ih => simp [lay, size, ih]
  | block _ body next ihbody ihnext => simp [lay, size, ihbody, ihnext]; omega
  | loop _ body next ihbody ihnext => simp [lay, size, ihbody, ihnext]; omega
  | ifThen _ body next ihbody ihnext => simp [lay, size, ihbody, ihnext]; omega
  | ifElse _ first second next ihfirst ihsecond ihnext =>
    simp [lay, size, ihfirst, ihsecond, ihnext]; omega

/-- Code has as many tokens as instructions. -/
theorem Code.length_tokens (code : Code) : code.tokens.length = code.size := by
  induction code with
  | done => rfl
  | instr i next ih => simp [tokens, size, ih]
  | block _ body next ihbody ihnext => simp [tokens, size, ihbody, ihnext]; omega
  | loop _ body next ihbody ihnext => simp [tokens, size, ihbody, ihnext]; omega
  | ifThen _ body next ihbody ihnext => simp [tokens, size, ihbody, ihnext]; omega
  | ifElse _ first second next ihfirst ihsecond ihnext =>
    simp [tokens, size, ihfirst, ihsecond, ihnext]; omega

/-- The branches of an instruction lead at most out of `depth` blocks. -/
def Instr.Within (depth : Nat) : Instr → Prop
  | br label | brIf label => label.toNat < depth
  | brTable cases default => default.toNat < depth ∧ ∀ label ∈ cases, label.toNat < depth
  | _ => True

/-- The branches of code in `depth` blocks lead at most out of all of them. -/
def Code.Within : Nat → Code → Prop
  | _, done => True
  | depth, instr i next => i.Within depth ∧ next.Within depth
  | depth, block _ body next | depth, loop _ body next | depth, ifThen _ body next =>
    body.Within (depth + 1) ∧ next.Within depth
  | depth, ifElse _ first second next =>
    first.Within (depth + 1) ∧ second.Within (depth + 1) ∧ next.Within depth

/-! ## Where code lies -/

/-- An instruction without the immediate of a block. -/
def bare (i : Instruction) : Instruction :=
  { i with immediate := if opensBlock i.opcode then 0 else i.immediate }

/-- From an index on a body has given instructions, up to the immediates of blocks. -/
def Lies (instructions : Array Instruction) (k : Nat) (entries : List Instruction) : Prop :=
  ∀ j x, entries[j]? = some x → (instructions[k + j]?).map bare = some x

section

variable {instructions : Array Instruction} {k : Nat} {x : Instruction}
  {entries more : List Instruction}

/-- The first instruction is there. -/
theorem Lies.head (hlies : Lies instructions k (x :: entries)) :
    ∃ i, instructions[k]? = some i ∧ bare i = x :=
  Option.map_eq_some_iff.mp (hlies 0 x rfl)

/-- The others follow. -/
theorem Lies.tail (hlies : Lies instructions k (x :: entries)) :
    Lies instructions (k + 1) entries := by
  intro j y hy
  rw [Nat.add_assoc, Nat.add_comm 1]
  exact hlies (j + 1) y (by simpa using hy)

/-- What lies first lies there. -/
theorem Lies.left (hlies : Lies instructions k (entries ++ more)) :
    Lies instructions k entries := by
  intro j y hy
  refine hlies j y ?_
  rw [List.getElem?_append_left (List.getElem?_eq_some_iff.mp hy).1, hy]

/-- What lies after it lies behind. -/
theorem Lies.right (hlies : Lies instructions k (entries ++ more)) :
    Lies instructions (k + entries.length) more := by
  intro j y hy
  rw [Nat.add_assoc]
  refine hlies (entries.length + j) y ?_
  rw [List.getElem?_append_right (by omega), Nat.add_sub_cancel_left, hy]

/-! ## Brackets -/

/-- The open blocks after an instruction are found from those before it. -/
theorem openBlocks_succ {n : Nat} {i : Instruction} {open_ : List Bracket}
    (hopen : openBlocks instructions n = some open_) (hat : instructions[n]? = some i) :
    openBlocks instructions (n + 1) = Bracket.after i n open_ := by
  simp [openBlocks, hopen, hat]

/-- An opening instruction opens a bracket. -/
theorem after_opens {i : Instruction} (hopens : opensBlock i.opcode = true) (ip : Nat)
    (open_ : List Bracket) : Bracket.after i ip open_ = some (⟨i.opcode, ip, none⟩ :: open_) :=
  if_pos hopens

/-- An end closes the innermost bracket. -/
theorem after_close {i : Instruction} (hopcode : i.opcode = Opcode.close.byte) (ip : Nat)
    (b : Bracket) (outer : List Bracket) : Bracket.after i ip (b :: outer) = some outer := by
  rw [Bracket.after, hopcode]
  rfl

/-- The middle of an `if` is noted in its bracket. -/
theorem after_otherwise {i : Instruction} (hopcode : i.opcode = Opcode.otherwise.byte)
    (ip at_ : Nat) (outer : List Bracket) :
    Bracket.after i ip (⟨Opcode.ifThen.byte, at_, none⟩ :: outer) =
      some (⟨Opcode.ifThen.byte, at_, some ip⟩ :: outer) := by
  rw [Bracket.after, hopcode]
  rfl

/-- Other instructions change no brackets. -/
theorem after_instr (i : Instr) (ip : Nat) (open_ : List Bracket) :
    Bracket.after i.flat ip open_ = some open_ := by
  have hopens : opensBlock i.flat.opcode = false := opensBlock_byte (.instr i)
  have hother : i.flat.opcode ≠ Opcode.otherwise.byte := by
    rw [Instr.flat, Ne, Opcode.byte_eq_iff]
    cases i <;> intro hsame <;> cases hsame
  have hclose : i.flat.opcode ≠ Opcode.close.byte := by
    rw [Instr.flat, Ne, Opcode.byte_eq_iff]
    cases i <;> intro hsame <;> cases hsame
  unfold Bracket.after
  rw [hopens, if_neg Bool.false_ne_true, if_neg hother, if_neg hclose]

/-- Instructions that open nothing are bare. -/
theorem eq_of_bare_eq {i : Instruction} (hbare : bare i = x)
    (hopens : opensBlock x.opcode = false) : i = x := by
  subst hbare
  have hopcode : opensBlock i.opcode = false := hopens
  obtain ⟨opcode, immediate, labels⟩ := i
  simp only [bare, hopcode, Bool.false_eq_true, if_false]

/-! ## Bracketed parts of a body -/

/-- From the index `k` up to the index `stop` everything is bracketed. -/
def Bracketed (instructions : Array Instruction) (k stop : Nat) : Prop :=
  ∀ n i, k ≤ n → n < stop → instructions[n]? = some i →
    ∃ open_, openBlocks instructions n = some open_ ∧ BracketedAt instructions n i open_

/-- Two stretches that are bracketed are so together. -/
theorem Bracketed.append {middle stop : Nat} (hfirst : Bracketed instructions k middle)
    (hmore : Bracketed instructions middle stop) : Bracketed instructions k stop := by
  intro n i hk hstop hat
  by_cases hmiddle : n < middle
  · exact hfirst n i hk hmiddle hat
  · exact hmore n i (by omega) hstop hat

/-- A stretch of one instruction. -/
theorem bracketed_single {i : Instruction} {open_ : List Bracket}
    (hat : instructions[k]? = some i) (hopen : openBlocks instructions k = some open_)
    (hbracketed : BracketedAt instructions k i open_) : Bracketed instructions k (k + 1) := by
  intro n j hk hstop hn
  obtain rfl : n = k := by omega
  obtain rfl : i = j := Option.some.inj (hat.symm.trans hn)
  exact ⟨open_, hopen, hbracketed⟩

/-- Behind an instruction that opens a block and the contents of the block, its end closes it. -/
theorem bracketed_enclosed {e : Nat} {i j : Instruction} {b : Bracket} {open_ : List Bracket}
    (hopen : openBlocks instructions k = some open_) (hat : instructions[k]? = some i)
    (hopens : opensBlock i.opcode = true) (hbefore : k < e) (hclose : instructions[e]? = some j)
    (hopcode : j.opcode = Opcode.close.byte) (hend : e + 1 < instructions.size)
    (hcontents : openBlocks instructions e = some (b :: open_) ∧ Bracketed instructions (k + 1) e)
    (hplace : b.at_ = k) (hresolved : Resolved instructions e b) :
    openBlocks instructions (e + 1) = some open_ ∧ Bracketed instructions k (e + 1) := by
  obtain ⟨hopen', hinside⟩ := hcontents
  have hbeginning : BracketedAt instructions k i open_ := by
    have hcloses : Closes instructions e b :=
      ⟨by rw [hclose]; exact congrArg some hopcode, _, hopen'⟩
    refine ⟨fun _ => ⟨e, b, hbefore, hend, hcloses, hplace⟩, fun hcloses => ?_, fun hbranches => ?_⟩
    · rw [hcloses] at hopens
      exact absurd hopens (by decide)
    · rcases hbranches with hbranch | hbranch | hbranch <;> rw [hbranch] at hopens <;>
        exact absurd hopens (by decide)
  have hending : BracketedAt instructions e j (b :: open_) := by
    refine ⟨fun hagain => ?_, fun _ => ⟨b, open_, rfl, by omega, hresolved⟩, fun hbranches => ?_⟩
    · rw [hopcode] at hagain
      exact absurd hagain (by decide)
    · rcases hbranches with hbranch | hbranch | hbranch <;> rw [hopcode] at hbranch <;>
        exact absurd hbranch (by decide)
  refine ⟨?_, ((bracketed_single hat hopen hbeginning).append hinside).append
    (bracketed_single hclose hopen' hending)⟩
  rw [openBlocks_succ hopen' hclose, after_close hopcode]

/-- The branches of an instruction lead out of open blocks. -/
theorem Instr.Within.bracketedAt {i : Instr} {open_ : List Bracket}
    (hwithin : i.Within (open_.length + 1)) : BracketedAt instructions k i.flat open_ := by
  refine ⟨fun hopens => ?_, fun hclose => ?_, fun hbranch => ?_⟩
  · exact absurd ((opensBlock_byte (.instr i)).symm.trans hopens) Bool.false_ne_true
  · rw [Instr.flat, Opcode.byte_eq_iff] at hclose
    cases i <;> cases hclose
  · simp only [Instr.flat, Opcode.byte_eq_iff] at hbranch
    cases i <;> simp only [Instr.op, reduceCtorEq, or_self, or_false, false_or] at hbranch
    case br label | brIf label =>
      have hlt : label.toNat < open_.length + 1 := hwithin
      exact ⟨by simpa [Instr.flat, Instruction.index, Instr.immediate] using hlt,
        fun _ hlabel => by cases hlabel⟩
    case brTable cases default =>
      obtain ⟨hdefault, hcases⟩ := hwithin
      refine ⟨by simpa [Instr.flat, Instruction.index, Instr.immediate] using hdefault, ?_⟩
      intro label hlabel
      obtain ⟨l, hl, rfl⟩ := List.mem_map.mp hlabel
      have hlt := hcases l hl
      omega

/-- Between the arms of a conditional nothing is opened or closed. -/
theorem bracketedAt_otherwise {i : Instruction} (hopcode : i.opcode = Opcode.otherwise.byte)
    (open_ : List Bracket) : BracketedAt instructions k i open_ := by
  refine ⟨fun hopens => ?_, fun hclose => ?_, fun hbranches => ?_⟩
  · rw [hopcode] at hopens
    exact absurd hopens (by decide)
  · rw [hopcode] at hclose
    exact absurd hclose (by decide)
  · rcases hbranches with hbranch | hbranch | hbranch <;> rw [hopcode] at hbranch <;>
      exact absurd hbranch (by decide)

/-- A block of one arm is bracketed if its contents are. -/
theorem bracketed_arm {e : Nat} {opcode : UInt8} {labels : List Int} {open_ : List Bracket}
    (hlies : Lies instructions k ({ opcode, labels } :: (entries ++ Token.close.flat :: more)))
    (hlength : k + 1 + entries.length = e) (hopen : openBlocks instructions k = some open_)
    (hopens : opensBlock opcode = true) (hend : e + 1 < instructions.size)
    (hcontents : openBlocks instructions (k + 1) = some (⟨opcode, k, none⟩ :: open_) →
      openBlocks instructions e = some (⟨opcode, k, none⟩ :: open_) ∧
      Bracketed instructions (k + 1) e)
    (hresolved : ∀ i, instructions[k]? = some i → i.opcode = opcode → i.labels = labels →
      Resolved instructions e ⟨opcode, k, none⟩) :
    openBlocks instructions (e + 1) = some open_ ∧ Bracketed instructions k (e + 1) ∧
      Lies instructions (e + 1) more := by
  obtain ⟨i, hat, hbare⟩ := hlies.head
  obtain rfl : i.opcode = opcode := congrArg Instruction.opcode hbare
  have hafter := hlies.tail.right
  rw [hlength] at hafter
  obtain ⟨j, hclose, hclosed⟩ := hafter.head
  obtain rfl := eq_of_bare_eq hclosed rfl
  have hopen' : openBlocks instructions (k + 1) = some (⟨i.opcode, k, none⟩ :: open_) := by
    rw [openBlocks_succ hopen hat, after_opens hopens]
  obtain ⟨hopened, hblock⟩ := bracketed_enclosed hopen hat hopens (by omega) hclose rfl hend
    (hcontents hopen') rfl (hresolved i hat rfl (congrArg Instruction.labels hbare))
  exact ⟨hopened, hblock, hafter.tail⟩

/-- Where a body has the instructions of code, the code closes all blocks that it opens, and
everything in it is bracketed. -/
theorem Code.bracketed (code : Code) {open_ : List Bracket}
    (hlies : Lies instructions k (code.lay k)) (hopen : openBlocks instructions k = some open_)
    (hwithin : code.Within (open_.length + 1)) (hend : k + code.size < instructions.size) :
    openBlocks instructions (k + code.size) = some open_ ∧
    Bracketed instructions k (k + code.size) := by
  induction code generalizing k open_ with
  -- By induction on the code, with the open blocks as what is carried along: the code in a block
  -- sees one more of them, and the end takes it off again.
  | done => exact ⟨hopen, fun n i hk hstop => absurd hstop (by simp only [size]; omega)⟩
  | instr i next ih =>
    obtain ⟨j, hat, hbare⟩ := hlies.head
    obtain rfl := eq_of_bare_eq hbare (opensBlock_byte (.instr i))
    have hopen' : openBlocks instructions (k + 1) = some open_ := by
      rw [openBlocks_succ hopen hat, after_instr]
    simp only [size] at hend ⊢
    obtain ⟨hopened, hnext⟩ := ih hlies.tail hopen' hwithin.2 (by omega)
    rw [show k + (next.size + 1) = k + 1 + next.size by omega]
    exact ⟨hopened, (bracketed_single hat hopen hwithin.1.bracketedAt).append hnext⟩
  | block type body next ihbody ihnext =>
    simp only [size] at hend ⊢
    obtain ⟨hopened, hblock, hafter⟩ :=
      bracketed_arm hlies (by rw [length_lay]) hopen rfl (by omega)
      (fun hopen' => ihbody hlies.tail.left hopen' hwithin.1 (by omega))
      fun i hat hopcode hlabels => .block hat hopcode hlabels
    obtain ⟨hopened', hnext⟩ := ihnext hafter hopened hwithin.2 (by omega)
    rw [show k + (body.size + next.size + 2) = k + 1 + body.size + 1 + next.size by omega]
    exact ⟨hopened', hblock.append hnext⟩
  | loop type body next ihbody ihnext =>
    simp only [size] at hend ⊢
    obtain ⟨hopened, hblock, hafter⟩ :=
      bracketed_arm hlies (by rw [length_lay]) hopen rfl (by omega)
      (fun hopen' => ihbody hlies.tail.left hopen' hwithin.1 (by omega))
      fun i hat hopcode hlabels => .loop hat hopcode hlabels
    obtain ⟨hopened', hnext⟩ := ihnext hafter hopened hwithin.2 (by omega)
    rw [show k + (body.size + next.size + 2) = k + 1 + body.size + 1 + next.size by omega]
    exact ⟨hopened', hblock.append hnext⟩
  | ifThen type body next ihbody ihnext =>
    simp only [size] at hend ⊢
    obtain ⟨hopened, hblock, hafter⟩ :=
      bracketed_arm hlies (by rw [length_lay]) hopen rfl (by omega)
      (fun hopen' => ihbody hlies.tail.left hopen' hwithin.1 (by omega))
      fun i hat hopcode hlabels => .ifThen hat hopcode hlabels
    obtain ⟨hopened', hnext⟩ := ihnext hafter hopened hwithin.2 (by omega)
    rw [show k + (body.size + next.size + 2) = k + 1 + body.size + 1 + next.size by omega]
    exact ⟨hopened', hblock.append hnext⟩
  | ifElse type first second next ihfirst ihsecond ihnext =>
    simp only [size] at hend ⊢
    obtain ⟨i, hat, hbare⟩ := hlies.head
    have hopcode : i.opcode = Opcode.ifThen.byte := congrArg Instruction.opcode hbare
    have hopens : opensBlock i.opcode = true := by rw [hopcode]; rfl
    have hopen' : openBlocks instructions (k + 1) =
        some (⟨Opcode.ifThen.byte, k, none⟩ :: open_) := by
      rw [openBlocks_succ hopen hat, after_opens hopens, hopcode]
    obtain ⟨hopenfirst, hfirst⟩ := ihfirst hlies.tail.left hopen' hwithin.1 (by omega)
    -- The `else` keeps the block open and notes its place in the bracket, which is why the second
    -- arm starts from other open blocks than the first.
    have hother := hlies.tail.right
    rw [length_lay] at hother
    obtain ⟨m, hm, hmiddle⟩ := hother.head
    obtain rfl := eq_of_bare_eq hmiddle rfl
    have hopensecond : openBlocks instructions (k + 1 + first.size + 1) =
        some (⟨Opcode.ifThen.byte, k, some (k + 1 + first.size)⟩ :: open_) := by
      rw [openBlocks_succ hopenfirst hm, after_otherwise rfl]
    obtain ⟨hopened, hsecond⟩ := ihsecond hother.tail.left hopensecond hwithin.2.1 (by omega)
    have hafter := hother.tail.right
    rw [length_lay] at hafter
    obtain ⟨j, hclose, hclosed⟩ := hafter.head
    obtain rfl := eq_of_bare_eq hclosed rfl
    have harms := (hfirst.append
      (bracketed_single hm hopenfirst (bracketedAt_otherwise rfl _))).append
      hsecond
    obtain ⟨hopened', hblock⟩ :=
      bracketed_enclosed hopen hat hopens (by omega) hclose rfl (by omega)
      ⟨hopened, harms⟩ rfl
      (.ifElse hat hopcode (congrArg Instruction.labels hbare) (by omega) (by omega) hm rfl rfl)
    obtain ⟨hopened'', hnext⟩ := ihnext hafter.tail hopened' hwithin.2.2 (by omega)
    rw [show k + (first.size + second.size + next.size + 3) =
      k + 1 + first.size + 1 + second.size + 1 + next.size by omega]
    exact ⟨hopened'', hblock.append hnext⟩

end

end Structured

end IntWasm
