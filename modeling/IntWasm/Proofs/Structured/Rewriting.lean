import IntWasm.Proofs.Bytes.Writing
import IntWasm.Proofs.Instruction.Legible
import IntWasm.Proofs.Structured.Canonical
import IntWasm.Proofs.Structured.Growth
import IntWasm.Proofs.Structured.Refusals

/-!
# Checked bodies are written back

The checker changes the instructions that it has read: it notes stack heights in blocks and resolves
labels. What is written for an instruction does not depend on any of this, because heights stand in
bits that are left out of a block type, and only blocks and their second arms have labels resolved.
So the instructions of a checked body are written as the tokens that were read, which makes the body
shorter if it had padded numbers and is checked with the same result. Main statement:
`Structured.check_of_writeBody`.
-/

namespace IntWasm.Structured

open Body Instruction

/-! ## Instructions that stand for tokens -/

/-- An instruction is written as a token is. -/
structure Carries (i : Instruction) (token : Token) : Prop where
  opcode_eq : i.opcode = token.op.byte
  operands_eq : i.immediateBytes token.op = token.operands

/-- An instruction with labels that were resolved in it, which only a branch table has written. -/
theorem Carries.withLabels {i : Instruction} {token : Token} (hcarries : Carries i token)
    (htable : i.opcode ≠ Opcode.brTable.byte) (labels : List Int) :
    Carries { i with labels } token := by
  have hop : token.op ≠ .brTable := by
    intro hop
    exact htable (hcarries.opcode_eq.trans (congrArg Opcode.byte hop))
  refine ⟨hcarries.opcode_eq, ?_⟩
  rw [← hcarries.operands_eq]
  unfold immediateBytes
  split <;> first | rfl | exact absurd ‹_› hop

/-- The type of a block is written as its byte, whatever stack height is noted in it. -/
theorem blockTypeBytes_withHeight (type : BlockType) (n : UInt64) :
    blockTypeBytes (blockCode (typeByte type) ||| (n &&& heightMask)) = [typeByte type] := by
  obtain ⟨hmark, hbyte⟩ := typed_blockCode type
  have hlow : heightMask.toUInt8 = 0 := by decide
  have hdisjoint : heightMask &&& blockMark = 0 := by decide
  rw [blockTypeBytes, if_neg]
  · rw [UInt64.toUInt8_or, UInt64.toUInt8_and, hlow, UInt8.and_zero, UInt8.or_zero, hbyte]
  · rwa [or_and, UInt64.and_assoc, hdisjoint, UInt64.and_zero, UInt64.or_zero]

/-- A block's type is written as the byte that it was read from. -/
theorem blockTypeBytes_blockCode (type : BlockType) :
    blockTypeBytes (blockCode (typeByte type)) = [typeByte type] := by
  have h := blockTypeBytes_withHeight type 0
  rwa [UInt64.zero_and, UInt64.or_zero] at h

/-- A token is written as the instruction that is read for it. -/
theorem carries_flat (token : Token) : Carries token.flat token := by
  cases token with
  | instr i => exact ⟨rfl, i.immediateBytes_flat⟩
  | block type | loop type | ifThen type => exact ⟨rfl, blockTypeBytes_blockCode type⟩
  | otherwise | close => exact ⟨rfl, rfl⟩

/-- The instruction that opens a block carries its token. -/
theorem carries_opening {token : Token} (hopens : token.opens = true) (height : Nat)
    (labels : List Int) : Carries (opening token.flat height labels) token := by
  cases token with
  | block type | loop type | ifThen type => exact ⟨rfl, blockTypeBytes_withHeight type _⟩
  | instr | otherwise | close => cases hopens

/-! ## What a step does to the instructions -/

/-- What opened the blocks that are open, the innermost first. -/
def openers (s : Checker) : List Opener := s.blocks.map Block.opener

/-- Nothing but the operands has changed. -/
structure SameCode (s s' : Checker) : Prop where
  instructions_eq : s'.instructions = s.instructions
  openers_eq : openers s' = openers s

section

variable {s t s' : Checker}

/-- The openers are those of the blocks. -/
theorem openers_of_blocks (hblocks : s'.blocks = s.blocks) : openers s' = openers s := by
  rw [openers, hblocks, openers]

/-- Taking operands keeps the code. -/
theorem TakesOperands.sameCode (htakes : TakesOperands s t) : SameCode s t :=
  ⟨htakes.instructions_eq, openers_of_blocks htakes.blocks_eq⟩

/-- Taking an operand of a type keeps the code. -/
theorem sameCode_of_popType {type : ValueType} (hok : s.popType type = .ok s') : SameCode s s' :=
  (takesOperands_of_popType hok).sameCode

/-- A jump keeps what has opened the blocks. -/
theorem openers_jump (s : Checker) : openers s.jump = openers s := by
  unfold Checker.jump openers
  split <;> simp_all

/-- After its operands were taken, an instruction is added, and nothing else changes. -/
structure Adds (s : Checker) (i : Instruction) (s' : Checker) : Prop where
  instructions_eq : s'.instructions = s.instructions.push i
  openers_eq : openers s' = openers s

/-- Instructions that open no block are added as they were read. -/
theorem adds_of_step_instr {scope : Scope} {i : Instr} {last : Bool}
    (hok : s.step scope i.op i.flat last = .ok (.more s')) : Adds s i.flat s' := by
  obtain ⟨hinstructions, hblocks⟩ := passes_of_step_instr hok
  refine ⟨hinstructions, ?_⟩
  rcases hblocks with hblocks | hblocks
  · exact openers_of_blocks hblocks
  · exact (openers_of_blocks hblocks).trans (openers_jump s)

end

/-! ## What the checker has read -/

/-- An instruction that is no branch table stands at an index. -/
def Labelled (s : Checker) (j : Nat) : Prop :=
  ∃ i, s.instructions[j]? = some i ∧ i.opcode ≠ Opcode.brTable.byte

/-- The instructions of a checker are written as the tokens that it has read, and those whose labels
are still to be resolved are no branch tables. -/
structure Retells (s : Checker) (before : List Token) : Prop where
  size_eq : s.instructions.size = before.length
  carries : ∀ (j : Nat) (i : Instruction) (token : Token),
    s.instructions[j]? = some i → before[j]? = some token → Carries i token
  labelled : ∀ opener ∈ openers s, ∀ j ∈ touched opener, Labelled s j

section

variable {s s' : Checker} {before : List Token} {token : Token} {i : Instruction}

/-- What is no branch table stays none when an instruction is added. -/
theorem Labelled.of_push {j : Nat} (hlabelled : Labelled s j)
    (hpush : s'.instructions = s.instructions.push i) : Labelled s' j := by
  obtain ⟨found, hfound, hopcode⟩ := hlabelled
  have hlt := (Array.getElem?_eq_some_iff.mp hfound).1
  refine ⟨found, ?_, hopcode⟩
  rw [hpush, Array.getElem?_push_lt hlt, ← hfound, Array.getElem?_eq_getElem hlt]

/-- Nor does it become one when labels change. -/
theorem Labelled.relabel {j : Nat} (hlabelled : Labelled s j) (at_ : Nat)
    (change : List Int → List Int) : Labelled (s.relabel at_ change) j := by
  obtain ⟨found, hfound, hopcode⟩ := hlabelled
  rw [Labelled, getElem?_relabel, hfound]
  split
  · exact ⟨_, rfl, hopcode⟩
  · exact ⟨_, rfl, hopcode⟩

/-- An instruction that was just added and is no branch table. -/
theorem labelled_size (hopcode : i.opcode ≠ Opcode.brTable.byte)
    (hpush : s'.instructions = s.instructions.push i) : Labelled s' s.instructions.size :=
  ⟨i, by rw [hpush, Array.getElem?_push_size], hopcode⟩

/-- The blocks that are open may change as long as the labels to be resolved stand at instructions
that have labels. -/
theorem Retells.withOpeners (hretells : Retells s before)
    (hinstructions : s'.instructions = s.instructions)
    (hlabelled : ∀ opener ∈ openers s', ∀ j ∈ touched opener, Labelled s j) :
    Retells s' before := by
  refine ⟨by rw [hinstructions, hretells.size_eq], ?_, ?_⟩
  · rw [hinstructions]
    exact hretells.carries
  · simpa only [Labelled, hinstructions] using hlabelled

/-- An instruction that carries a token tells one token more. -/
theorem Retells.push (hretells : Retells s before) (hcarries : Carries i token)
    (hadds : Adds s i s') : Retells s' (before ++ [token]) := by
  refine ⟨?_, ?_, ?_⟩
  · rw [hadds.instructions_eq, Array.size_push, hretells.size_eq, List.length_append,
      List.length_singleton]
  · intro j found other hfound hother
    rw [hadds.instructions_eq, Array.getElem?_push, hretells.size_eq] at hfound
    split at hfound
    · rename_i hlast
      obtain rfl := Option.some.inj hfound
      rw [hlast, List.getElem?_concat_length] at hother
      obtain rfl := Option.some.inj hother
      exact hcarries
    · rename_i hlast
      have hlt := (Array.getElem?_eq_some_iff.mp hfound).1
      rw [hretells.size_eq] at hlt
      rw [List.getElem?_append_left hlt] at hother
      exact hretells.carries j found other hfound hother
  · intro opener hopener j hj
    rw [hadds.openers_eq] at hopener
    exact (hretells.labelled opener hopener j hj).of_push hadds.instructions_eq

/-- Labels tell nothing. -/
theorem Retells.relabel (hretells : Retells s before) {at_ : Nat} (hat : Labelled s at_)
    (change : List Int → List Int) : Retells (s.relabel at_ change) before := by
  refine ⟨by simpa [Checker.relabel] using hretells.size_eq, ?_, ?_⟩
  · intro j found other hfound hother
    rw [getElem?_relabel] at hfound
    split at hfound
    · rename_i hj
      subst hj
      obtain ⟨old, hold, hopcode⟩ := hat
      rw [hold] at hfound
      obtain rfl := Option.some.inj hfound
      exact (hretells.carries _ old other hold hother).withLabels hopcode _
    · exact hretells.carries j found other hfound hother
  · intro opener hopener j hj
    exact (hretells.labelled opener hopener j hj).relabel at_ change

/-- The labels of a block that has ended are resolved. -/
theorem Retells.resolve (hretells : Retells s before) {opener : Opener}
    (hopener : ∀ j ∈ touched opener, Labelled s j) (next : Nat) :
    Retells (s.resolve opener next) before := by
  cases opener with
  | function | loop => exact hretells
  | block at_ | ifThen at_ =>
    exact hretells.relabel (hopener at_ (by simp [touched])) (·.set 0 next)
  | otherwise at_ other =>
    have hfirst := hopener at_ (by simp [touched])
    have hsecond := hopener other (by simp [touched])
    exact (hretells.relabel hfirst (·.set 0 next)).relabel (hsecond.relabel at_ _) (·.set 0 next)

/-- A block is opened by the instruction that its labels are resolved in. -/
theorem Retells.enter (hretells : Retells s before) (hopens : token.opens = true) {opener : Opener}
    (hopener : ∀ j ∈ touched opener, j = s.instructions.size) (labels : List Int) :
    Retells (s.enter token.flat opener labels) (before ++ [token]) := by
  have hcarries := carries_opening hopens s.stack.length labels
  have hop : token.op ≠ .brTable := by
    cases token with
    | block type | loop type | ifThen type => simp [Token.op]
    | instr | otherwise | close => cases hopens
  have hopcode : (opening token.flat s.stack.length labels).opcode ≠ Opcode.brTable.byte := by
    rw [hcarries.opcode_eq]
    exact Opcode.byte_eq_iff.not.mpr hop
  have hpush : (s.append (opening token.flat s.stack.length labels)).instructions =
      s.instructions.push (opening token.flat s.stack.length labels) := rfl
  have hadded := hretells.push hcarries ⟨hpush, rfl⟩
  refine hadded.withOpeners rfl ?_
  intro other hother j hj
  rcases List.mem_cons.mp hother with rfl | hother
  · rw [hopener j hj]
    exact labelled_size hopcode hpush
  · exact hadded.labelled other hother j hj

end

/-! ## Steps and runs -/

section

variable {scope : Scope} {s s' : Checker} {before tokens : List Token} {token : Token}

/-- Closing a block closes the innermost one. -/
theorem openers_closeBlock {b : Block} (hok : s.closeBlock = .ok (b, s')) :
    openers s = b.opener :: openers s' := by
  rw [openers, closeBlock_blocks hok, List.map_cons, openers]

/-- Closing a block tells nothing. -/
theorem Retells.closeBlock {b : Block} (hretells : Retells s before)
    (hok : s.closeBlock = .ok (b, s')) : Retells s' before := by
  refine hretells.withOpeners (Checker.instructions_of_closeBlock hok) fun opener hopener => ?_
  exact hretells.labelled opener
    (by rw [openers_closeBlock hok]; exact List.mem_cons_of_mem _ hopener)

/-- The end of a block resolves the block's labels. -/
theorem Retells.close {b : Block} (hretells : Retells s before) (hok : s.closeBlock = .ok (b, s')) :
    Retells ((s'.append Token.close.flat).resolve b.opener (s.instructions.size + 1))
      (before ++ [.close]) := by
  have hinstructions := Checker.instructions_of_closeBlock hok
  have hadds : Adds s' Token.close.flat (s'.append Token.close.flat) := ⟨rfl, rfl⟩
  refine Retells.resolve ((hretells.closeBlock hok).push (carries_flat .close) hadds) ?_ _
  intro j hj
  have hlabelled :=
    hretells.labelled b.opener (by rw [openers_closeBlock hok]; exact List.mem_cons_self) j hj
  exact hlabelled.of_push (congrArg (·.push Token.close.flat) hinstructions)

/-- What a step on the beginning of a conditional does. -/
theorem exists_of_step_ifThen {i : Instruction} {last : Bool}
    (hok : s.step scope .ifThen i last = .ok (.more s')) :
    ∃ t, s.popType .i32 = .ok t ∧ s' = t.enter i (.ifThen s.instructions.size) [0, 0] := by
  simp only [Checker.step, except_bind_eq_ok] at hok
  obtain ⟨t, hcondition, hok⟩ := hok
  cases hok
  exact ⟨t, hcondition, rfl⟩

/-- What a step on the beginning of a second arm does. -/
theorem exists_of_step_otherwise {i : Instruction} {last : Bool}
    (hok : s.step scope .otherwise i last = .ok (.more s')) :
    ∃ b t at_, s.closeBlock = .ok (b, t) ∧ b.opener = .ifThen at_ ∧
      s' = ((t.append { i with labels := [0] }).relabel at_
        (·.set 1 (s.instructions.size : Nat))).openBlock (.otherwise at_ s.instructions.size)
          b.results := by
  simp only [Checker.step] at hok
  split at hok
  · cases hok
  · simp only [except_bind_eq_ok, Prod.exists] at hok
    obtain ⟨b, t, hclose, hok⟩ := hok
    split at hok
    · next at_ hopener =>
      cases hok
      exact ⟨b, t, at_, hclose, hopener, rfl⟩
    · cases hok

/-- What a step on the end of a block does that is not the function. -/
theorem exists_of_step_close {i : Instruction} {last : Bool}
    (hok : s.step scope .close i last = .ok (.more s')) :
    ∃ b t, s.closeBlock = .ok (b, t) ∧ b.opener ≠ .function ∧
      s' = ((t.append i).resolve b.opener (s.instructions.size + 1)).push b.results := by
  simp only [Checker.step, except_bind_eq_ok, Prod.exists] at hok
  obtain ⟨b, t, hclose, hok⟩ := hok
  refine ⟨b, t, hclose, ?_⟩
  split at hok
  · split at hok <;> cases hok
  · next hopener =>
    split at hok
    · cases hok
    · cases hok
      exact ⟨by simp [hopener], rfl⟩
  · next hfunction _ =>
    cases hok
    exact ⟨hfunction, rfl⟩

/-- What a step on the end of the function does. -/
theorem exists_of_step_done {i : Instruction} {last : Bool} {body : Body}
    (hdone : s.step scope .close i last = .ok (.done body)) :
    ∃ b t, s.closeBlock = .ok (b, t) ∧ b.opener = .function ∧
      body = { instructions := (t.append i).instructions, metrics := t.metrics } := by
  simp only [Checker.step, except_bind_eq_ok, Prod.exists] at hdone
  obtain ⟨b, t, hclose, hdone⟩ := hdone
  split at hdone
  · next hopener =>
    split at hdone
    · cases hdone
    · rw [hopener] at hdone
      cases hdone
      exact ⟨b, t, hclose, hopener, rfl⟩
  · split at hdone <;> cases hdone
  · cases hdone

/-- A step on a token adds an instruction that is written as the token is. -/
theorem Retells.step (hretells : Retells s before)
    (hok : s.step scope token.op token.flat false = .ok (.more s')) :
    Retells s' (before ++ [token]) := by
  cases token with
  | instr i => exact hretells.push (carries_flat (.instr i)) (adds_of_step_instr hok)
  | block type =>
    cases hok
    exact hretells.enter rfl (by simp [touched]) [0]
  | loop type =>
    cases hok
    let opener : Opener := .loop s.instructions.size
    have htouched : ∀ j ∈ touched opener, j = s.instructions.size := by simp [opener, touched]
    have hopens : (Token.loop type).opens = true := rfl
    have hentered := hretells.enter hopens htouched [(s.instructions.size : Int)]
    exact hentered.withOpeners rfl hentered.labelled
  | ifThen type =>
    obtain ⟨t, hcondition, rfl⟩ := exists_of_step_ifThen hok
    have hsame := sameCode_of_popType hcondition
    have hpopped : Retells t before := by
      refine hretells.withOpeners hsame.instructions_eq ?_
      rw [hsame.openers_eq]
      exact hretells.labelled
    exact hpopped.enter rfl (by simp [touched, hsame.instructions_eq]) [0, 0]
  -- The `else` closes the first arm, is pushed with a label of its own, and writes its place into
  -- the `if` it belongs to. Both places stay labelled for the end.
  | otherwise =>
    obtain ⟨b, t, at_, hclose, hopener, rfl⟩ := exists_of_step_otherwise hok
    have hinstructions := Checker.instructions_of_closeBlock hclose
    have hat : Labelled t at_ := by
      have hlabelled := hretells.labelled b.opener
        (by rw [openers_closeBlock hclose]; exact List.mem_cons_self) at_
        (by simp [hopener, touched])
      simpa only [Labelled, hinstructions] using hlabelled
    have hpush : (t.append { Token.otherwise.flat with labels := [0] }).instructions =
        t.instructions.push { Token.otherwise.flat with labels := [0] } := rfl
    have hadded := (hretells.closeBlock hclose).push
      ((carries_flat .otherwise).withLabels (by decide) [0]) ⟨hpush, rfl⟩
    have hchanged := hadded.relabel (hat.of_push hpush) (·.set 1 s.instructions.size)
    refine hchanged.withOpeners rfl fun opener hmem j hj => ?_
    rcases List.mem_cons.mp hmem with rfl | hmem
    · have hj' : j = at_ ∨ j = s.instructions.size := by simpa [touched] using hj
      rcases hj' with rfl | rfl
      · exact (hat.of_push hpush).relabel _ _
      · rw [← hinstructions]
        exact (labelled_size (by decide) hpush).relabel _ _
    · exact hchanged.labelled opener hmem j hj
  | close =>
    obtain ⟨b, t, hclose, -, rfl⟩ := exists_of_step_close hok
    have hclosed := hretells.close hclose
    exact hclosed.withOpeners rfl hclosed.labelled

/-- The induction is on the tokens that are still to be read. -/
theorem Retells.runs (hretells : Retells s before) (hruns : Runs scope s tokens s') :
    Retells s' (before ++ tokens) := by
  induction tokens generalizing s before with
  | nil =>
    cases hruns
    simpa using hretells
  | cons token tokens ih =>
    obtain ⟨t, hstep, hmore⟩ := hruns
    simpa using ih (hretells.step hstep) hmore

/-- The instructions of a body are written as the tokens that were read and the end of the body. -/
theorem carries_of_runs {types : List ValueType} {body : Body}
    (hruns : Runs scope (Checker.openBlock {} .function types) tokens s')
    (hdone : s'.step scope Token.close.op Token.close.flat true = .ok (.done body)) :
    List.Forall₂ Carries body.instructions.toList (tokens ++ [.close]) := by
  have hstart : Retells (Checker.openBlock {} .function types) [] := by
    refine ⟨rfl, fun j i token hi => ?_, fun opener hopener j hj => ?_⟩
    · simp [Checker.openBlock] at hi
    · obtain rfl : opener = .function := by simpa [openers, Checker.openBlock] using hopener
      simp [touched] at hj
  have hretells := hstart.runs hruns
  obtain ⟨b, t, hclose, hopener, rfl⟩ := exists_of_step_done hdone
  have hclosed := hretells.close hclose
  rw [hopener] at hclosed
  rw [List.forall₂_iff_get]
  refine ⟨by simpa [Checker.resolve] using hclosed.size_eq, fun j hfirst hsecond => ?_⟩
  refine hclosed.carries j _ _ ?_ ?_
  · rw [← Array.getElem?_toList]
    exact List.getElem?_eq_getElem hfirst
  · exact List.getElem?_eq_getElem hsecond

end

/-! ## Writing -/

/-- What is written for a token is known from the instruction that is read for it. -/
theorem written_eq_of_flat_eq {a b : Token} (hflat : a.flat = b.flat) : a.written = b.written := by
  have ha := carries_flat a
  have hb := carries_flat b
  rw [hflat] at ha
  have hop : a.op = b.op := Opcode.byte_injective (ha.opcode_eq.symm.trans hb.opcode_eq)
  rw [Token.written, Token.written, ← ha.operands_eq, ← hb.operands_eq, hop]

/-- Bytes that spell tokens in two ways spell tokens that are written alike. -/
theorem written_eq_of_spells {tokens others : List Token} {bytes : List UInt8}
    (hspells : SpellsTokens tokens bytes) (hothers : SpellsTokens others bytes) :
    tokens.flatMap Token.written = others.flatMap Token.written := by
  induction tokens generalizing others bytes with
  | nil =>
    cases hspells
    cases others with
    | nil => rfl
    | cons other others =>
      obtain ⟨first, more, hnil, hfirst, -⟩ := hothers
      have hpos := hfirst.length_pos
      rw [(List.append_eq_nil_iff.mp hnil.symm).1] at hpos
      exact absurd hpos (lt_irrefl 0)
  | cons token tokens ih =>
    obtain ⟨first, more, rfl, hfirst, hmore⟩ := hspells
    cases others with
    | nil =>
      have hpos := hfirst.length_pos
      rw [(List.append_eq_nil_iff.mp hothers).1] at hpos
      exact absurd hpos (lt_irrefl 0)
    | cons other others =>
      obtain ⟨first', more', hsplit, hfirst', hmore'⟩ := hothers
      have hread := ofBytes_of_spells hfirst more
      rw [hsplit, ofBytes_of_spells hfirst' more'] at hread
      obtain ⟨hflat, rfl⟩ := Prod.mk.inj (Except.ok.inj hread)
      rw [List.flatMap_cons, List.flatMap_cons, ih hmore hmore', written_eq_of_flat_eq hflat]

/-- Instructions that stand for tokens, the last of which is an end, are written one after
another. -/
theorem bodyBytes_of_carries {instructions : List Instruction} {tokens : List Token}
    (hcarries : List.Forall₂ Carries instructions (tokens ++ [.close])) (position : Nat) :
    bodyBytes position instructions = .ok (tokens.flatMap Token.written ++ [closingByte]) := by
  induction tokens generalizing instructions position with
  | nil =>
    obtain ⟨i, _, hi, hnil, rfl⟩ := List.forall₂_cons_right_iff.mp hcarries
    obtain rfl := List.forall₂_nil_right_iff.mp hnil
    have hop : i.op? = some .close := Opcode.ofByte?_eq_some_iff.mpr hi.opcode_eq.symm
    have hoperands : i.immediateBytes .close = [] := hi.operands_eq
    have hopcode : i.opcode = Opcode.close.byte := hi.opcode_eq
    rw [bodyBytes, bytesAt_of_op hop, hoperands, hopcode]
    rfl
  | cons token tokens ih =>
    obtain ⟨i, rest, hi, hrest, rfl⟩ := List.forall₂_cons_right_iff.mp hcarries
    have hop : i.op? = some token.op := Opcode.ofByte?_eq_some_iff.mpr hi.opcode_eq.symm
    have hwritten : i.opcode :: i.immediateBytes token.op = token.written := by
      rw [hi.opcode_eq, hi.operands_eq, Token.written]
    have hnil : rest.isEmpty = false := by
      cases rest with
      | nil =>
        have hlength := hrest.length_eq
        simp at hlength
      | cons j rest => rfl
    rw [bodyBytes, bytesAt_of_op hop, hwritten]
    simp [hnil, ih hrest, bind, Except.bind, pure, Except.pure, Except.mapError]

/-- Take an accepted body. Its instructions can be written, in bytes that are not more than those of
the body, that are accepted with the same result, and that are those of the body if no number in it
is padded. -/
theorem check_of_writeBody {scope : Scope} {types : List ValueType} {base : Nat}
    {bytes : List UInt8} {body : Body} (hok : check scope types base bytes = .ok body) :
    ∃ written, Writer.Puts EncodeFault.write (writeBody body.instructions.toList) written ∧
      written.length ≤ bytes.length ∧ check scope types base written = .ok body ∧
      ∀ tokens first, bytes = first ++ [closingByte] → ShortestTokens tokens first →
      written = bytes := by
  obtain ⟨tokens, first, s', rfl, hspells, hruns, hdone⟩ :=
    exists_runs_of_checkFrom (check_eq_checkFrom.mp hok)
  have hbytes := bodyBytes_of_carries (carries_of_runs hruns hdone) 0
  have hspelled := spellsTokens_written hspells
  refine ⟨tokens.flatMap Token.written ++ [closingByte], ?_, ?_, ?_, ?_⟩
  · unfold writeBody
    rw [hbytes]
    exact (Writer.puts_bytes _).lift
  · have hle := hspells.length_written_le
    rw [List.length_append, List.length_append]
    omega
  · exact (check_spelled_iff hspelled).mpr ⟨s', hruns, hdone⟩
  · intro others other hsplit hshortest
    obtain rfl : first = other := by simpa using hsplit
    rw [written_eq_of_spells hspells hshortest.spells, ← hshortest.eq_written]

/-- A block that gives a padded zero. -/
theorem check_of_writeBody_padded :
    ∃ body written, check bareScope [] 0 [0x02, 0x7f, 0x41, 0x80, 0x00, 0x0b, 0x1a,
      0x0b] = .ok body ∧
      Writer.Puts EncodeFault.write (writeBody body.instructions.toList) written ∧
      written.length ≤ 8 ∧ check bareScope [] 0 written = .ok body := by
  have hzero : Leb128.SpellsSigned 32 (0 : Int32).toInt [0x80, 0x00] :=
    ⟨⟨rfl, rfl⟩, by decide, by decide, by decide, by decide⟩
  have hspells : SpellsTokens [.block (some .i32), .instr (.const32 0), .close, .instr .drop]
      [0x02, 0x7f, 0x41, 0x80, 0x00, 0x0b, 0x1a] :=
    ⟨[0x02, 0x7f], _, rfl, ⟨_, rfl, rfl⟩, [0x41, 0x80, 0x00], _, rfl, ⟨_, rfl, hzero⟩,
      [0x0b], _, rfl, ⟨_, rfl, rfl⟩, [0x1a], _, rfl, ⟨_, rfl, rfl⟩, rfl⟩
  have hok : check bareScope [] 0
      ([0x02, 0x7f, 0x41, 0x80, 0x00, 0x0b, 0x1a] ++ [closingByte]) = .ok _ :=
    (check_spelled_iff hspells).mpr ⟨_, ⟨_, rfl, _, rfl, _, rfl, _, rfl, rfl⟩, rfl⟩
  obtain ⟨written, hputs, hlength, hagain, -⟩ := check_of_writeBody hok
  exact ⟨_, written, hok, hputs, hlength, hagain⟩

end IntWasm.Structured
