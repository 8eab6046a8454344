import IntWasm.Proofs.Structured.Instructions

/-!
# Code in step with a body

Blocks are entered and left on both sides alike. Main statement: `Represents.step`, which has a case
for each construct of the code.
-/

namespace IntWasm.Structured

open Body

variable {H σ : Type}

section

variable {m : Module} {inst : Instance H} {frame : Frame} {f : Activation} {c : Context}
  {height last count : Nat} {below : List UInt64} {store : Store H σ}

/-! ## Entering blocks -/

/-- The opcode of an opening instruction is the one that it opens with. -/
theorem Opens.op?_eq {i : Instruction} {op : Opcode} {type : BlockType} {labels : List Int}
    (hopens : Opens i op type height labels) : i.op? = some op := by
  rw [Instruction.op?, hopens.opcode_eq, Opcode.ofByte?_byte]

/-- A branch to a loop takes nothing, another one what the block leaves. -/
theorem Opens.arity_eq {i : Instruction} {op : Opcode} {type : BlockType} {labels : List Int}
    (hopens : Opens i op type height labels) :
    i.arity = if op = .loop then 0 else type.toList.length := by
  simp only [Instruction.arity, hopens.opcode_eq, Opcode.byte_eq_iff, hopens.results_eq, results,
    List.length_map]

/-- Opening a block puts its label on the others. -/
theorem Opens.openBlock_eq {i : Instruction} {op : Opcode} {type : BlockType} {labels : List Int}
    {target : Nat} (hopens : Opens i op type height (target :: labels)) {l : Label}
    (hlabel : l = ⟨target, height, if op = .loop then 0 else type.toList.length⟩) (f : Activation) :
    f.openBlock i = .ok { f with labels := l :: f.labels } := by
  simp only [Activation.openBlock, Activation.target, Instruction.continuation, hopens.labels_eq,
    hopens.height_eq, hopens.arity_eq, List.getElem?_cons_zero, bind, Except.bind,
    Int.toNat_natCast, hlabel]
  rfl

/-- A block is entered on both sides. -/
theorem Stands.answers_enter {label : BlockType} {last' count' ip : Nat} {operands : List UInt64}
    {l : Label} {b : Enclosing} {inner : Code}
    (hstands : Stands m inst 0 frame f c height last count below)
    (hwithin : Within f.function.body (c.inside label) (height + b.below.length) last' count'
      (l :: f.labels) (b :: frame.blocks) (b.below ++ below))
    (hinner : inner.Placed f.function.body (c.inside label) (height + b.below.length)
      last' count' ip 0)
    (hoperands : operands = b.below ++ below) :
    Answers m inst f (.go (frame.enter b inner))
      (.go { f with ip, operands, labels := l :: f.labels }) := by
  refine .go ?_ ⟨c.inside label, height + b.below.length, last', count', b.below ++ below, ?_⟩
  · exact ⟨rfl, rfl, rfl, rfl, rfl⟩
  · exact
      { hstands with
        within := hwithin
        placed := by simpa [Frame.enter] using hinner
        operands_eq := by rw [hoperands]; rfl }

/-- `block` opens a block in both. -/
theorem Stands.follows_block {type : BlockType} {inner next : Code} {i : Instruction} {q : Nat}
    (hstands : Stands m inst 0 frame f c height last count below)
    (hcode : frame.code = .block type inner next)
    (hopens : Opens i .block type (height + frame.operands.length) [(q + 1 : Nat)])
    (hclose : f.function.body.instructions[q]? = some Token.close.flat)
    (hopener : f.function.body.opener q = some i)
    (hnesting : c.labels.length < f.function.body.metrics.maxNesting)
    (hinner : inner.Placed f.function.body (c.inside type) (height + frame.operands.length) q
      type.toList.length (f.ip + 1) 0)
    (hnext : next.Placed f.function.body c height last count (q + 1)
      (type.toList.length + frame.operands.length)) :
    Follows m inst frame f store (Activation.step inst { f with ip := f.ip + 1 } i store) := by
  let b : Enclosing := ⟨type.toList.length, next, next, frame.operands⟩
  let l : Label := ⟨q + 1, height + frame.operands.length, type.toList.length⟩
  have hwithin : Within f.function.body (c.inside type) (height + b.below.length) q
      type.toList.length (l :: f.labels) (b :: frame.blocks) (b.below ++ below) := by
    refine .block hstands.within rfl rfl rfl hnext hclose (.inl ⟨rfl, rfl⟩) hnext hopener ?_ ?_
      (fun _ => rfl) hnesting
    · rw [hopens.results_eq, results, List.length_map]
    · simp [l, hopens.opcode_eq]
  rw [Activation.step_of_op hopens.op?_eq]
  simp only [Activation.stepLocal_block, hopens.openBlock_eq (l := l) rfl, bind,
    Except.bind]
  refine ⟨_, store, store.counters, ?_, rfl,
    hstands.answers_enter hwithin hinner hstands.operands_eq⟩
  simp only [Frame.next, hcode, b]

/-- `loop` opens a block in both, whose label leads back. -/
theorem Stands.follows_loop {type : BlockType} {inner next : Code} {i : Instruction} {q : Nat}
    (hstands : Stands m inst 0 frame f c height last count below)
    (hcode : frame.code = .loop type inner next)
    (hopens : Opens i .loop type (height + frame.operands.length) [(f.ip : Nat)])
    (hclose : f.function.body.instructions[q]? = some Token.close.flat)
    (hopener : f.function.body.opener q = some i)
    (hnesting : c.labels.length < f.function.body.metrics.maxNesting)
    (hinner : inner.Placed f.function.body (c.inside none) (height + frame.operands.length) q
      type.toList.length (f.ip + 1) 0)
    (hnext : next.Placed f.function.body c height last count (q + 1)
      (type.toList.length + frame.operands.length)) :
    Follows m inst frame f store (Activation.step inst { f with ip := f.ip + 1 } i store) := by
  let b : Enclosing := ⟨0, .loop type inner next, next, frame.operands⟩
  let l : Label := ⟨f.ip, height + frame.operands.length, 0⟩
  have hwithin : Within f.function.body (c.inside none) (height + b.below.length) q
      type.toList.length (l :: f.labels) (b :: frame.blocks) (b.below ++ below) := by
    refine .block hstands.within rfl rfl rfl ?_ hclose (.inl ⟨rfl, rfl⟩) hnext hopener ?_ ?_
      (fun _ => rfl) hnesting
    · simpa [hcode, l, b] using hstands.placed
    · rw [hopens.results_eq, results, List.length_map]
    · simp [l, hopens.opcode_eq]
  rw [Activation.step_of_op hopens.op?_eq]
  simp only [Activation.stepLocal_loop, hopens.openBlock_eq (l := l) rfl, bind,
    Except.bind]
  refine ⟨_, store, store.counters, ?_, rfl,
    hstands.answers_enter hwithin hinner hstands.operands_eq⟩
  simp only [Frame.next, hcode, b]

/-- `if` without a second branch opens a block in both or passes over it. -/
theorem Stands.follows_ifThen {inner next : Code} {i : Instruction} {q : Nat} {condition : UInt64}
    {operands : List UInt64} (hstands : Stands m inst 0 frame f c height last count below)
    (hcode : frame.code = .ifThen none inner next)
    (hoperands : frame.operands = condition :: operands)
    (hopens : Opens i .ifThen none (height + operands.length) [(q + 1 : Nat), 0])
    (hclose : f.function.body.instructions[q]? = some Token.close.flat)
    (hopener : f.function.body.opener q = some i)
    (hnesting : c.labels.length < f.function.body.metrics.maxNesting)
    (hinner : inner.Placed f.function.body (c.inside none) (height + operands.length) q
      0 (f.ip + 1) 0)
    (hnext : next.Placed f.function.body c height last count (q + 1) operands.length) :
    Follows m inst frame f store (Activation.step inst { f with ip := f.ip + 1 } i store) := by
  let b : Enclosing := ⟨0, next, next, operands⟩
  let l : Label := ⟨q + 1, height + operands.length, 0⟩
  have hwithin : Within f.function.body (c.inside none) (height + b.below.length) q 0
      (l :: f.labels) (b :: frame.blocks) (b.below ++ below) := by
    have hplaced : next.Placed f.function.body c height last count (q + 1)
        (0 + operands.length) := by
      rwa [Nat.zero_add]
    refine .block hstands.within rfl rfl rfl hplaced hclose (.inl ⟨rfl, rfl⟩) hplaced hopener ?_ ?_
      (fun _ => rfl) hnesting
    · rw [hopens.results_eq]
      rfl
    · simp [l]
  have hmachine : f.operands = condition :: (operands ++ below) := by
    rw [hstands.operands_eq, hoperands, List.cons_append]
  rw [Activation.step_of_op hopens.op?_eq]
  simp only [Activation.stepLocal_ifThen, Activation.pop, hmachine, bind, Except.bind]
  by_cases hcondition : condition.toUInt32 ≠ 0
  · simp only [hcondition, if_true, ne_eq, not_false_eq_true, hopens.openBlock_eq (l := l) rfl]
    refine ⟨_, store, store.counters, ?_, rfl, hstands.answers_enter hwithin hinner rfl⟩
    simp only [Frame.next, hcode, hoperands, hcondition, if_true, ne_eq, not_false_eq_true, b]
    rfl
  · have hrep : Represents m inst 0 { frame with operands, code := next }
        { f with ip := q + 1, operands := operands ++ below } :=
      ⟨c, height, last, count, below,
        { hstands with placed := by simpa using hnext, operands_eq := rfl }⟩
    simp only [hcondition, if_false, Instruction.elseLabel, Instruction.continuation,
      hopens.labels_eq, List.getElem?_cons_succ, List.getElem?_cons_zero, Activation.target,
      Int.toNat_natCast]
    refine ⟨_, store, store.counters, ?_, rfl, .go ?_ hrep⟩
    · simp only [Frame.next, hcode, hoperands, hcondition, if_false]
    · exact ⟨rfl, rfl, rfl, rfl, rfl⟩

/-- `if` with a second branch opens a block in both, at the branch that the condition says. -/
theorem Stands.follows_ifElse {type : BlockType} {first second next : Code} {i e : Instruction}
    {middle q : Nat} {condition : UInt64} {operands : List UInt64}
    (hstands : Stands m inst 0 frame f c height last count below)
    (hcode : frame.code = .ifElse type first second next)
    (hoperands : frame.operands = condition :: operands)
    (hopens : Opens i .ifThen type (height + operands.length) [(q + 1 : Nat), (middle : Nat)])
    (hmiddle : f.function.body.instructions[middle]? = some e) (hpos : middle ≠ 0)
    (helse : e.op? = some .otherwise) (hskip : e.labels = [(q + 1 : Nat)])
    (hopener : f.function.body.opener middle = some i)
    (hclose : f.function.body.instructions[q]? = some Token.close.flat)
    (hopener' : f.function.body.opener q = some i)
    (hnesting : c.labels.length < f.function.body.metrics.maxNesting)
    (hfirst : first.Placed f.function.body (c.inside type) (height + operands.length) middle
      type.toList.length (f.ip + 1) 0)
    (hsecond : second.Placed f.function.body (c.inside type) (height + operands.length) q
      type.toList.length (middle + 1) 0)
    (hnext : next.Placed f.function.body c height last count (q + 1)
      (type.toList.length + operands.length)) :
    Follows m inst frame f store (Activation.step inst { f with ip := f.ip + 1 } i store) := by
  let b : Enclosing := ⟨type.toList.length, next, next, operands⟩
  let l : Label := ⟨q + 1, height + operands.length, type.toList.length⟩
  have hwithin {last' : Nat} {j : Instruction}
      (hlast : f.function.body.instructions[last']? = some j) (hleaves : Leaves j last' (q + 1))
      (hbegun : f.function.body.opener last' = some i) :
      Within f.function.body (c.inside type) (height + b.below.length) last' type.toList.length
        (l :: f.labels) (b :: frame.blocks) (b.below ++ below) := by
    refine .block hstands.within rfl rfl rfl hnext hlast hleaves hnext hbegun ?_ ?_ ?_ hnesting
    · rw [hopens.results_eq, results, List.length_map]
    · simp [l, hopens.opcode_eq]
    · simp [hopens.opcode_eq]
  have hmachine : f.operands = condition :: (operands ++ below) := by
    rw [hstands.operands_eq, hoperands, List.cons_append]
  rw [Activation.step_of_op hopens.op?_eq]
  simp only [Activation.stepLocal_ifThen, Activation.pop, hmachine, bind, Except.bind]
  by_cases hcondition : condition.toUInt32 ≠ 0
  · simp only [hcondition, if_true, ne_eq, not_false_eq_true, hopens.openBlock_eq (l := l) rfl]
    refine ⟨_, store, store.counters, ?_, rfl,
      hstands.answers_enter (hwithin hmiddle (.inr ⟨helse, hskip⟩) hopener) hfirst rfl⟩
    simp only [Frame.next, hcode, hoperands, hcondition, if_true, ne_eq, not_false_eq_true, b]
  · simp only [hcondition, if_false, Instruction.elseLabel, hopens.labels_eq,
      List.getElem?_cons_succ, List.getElem?_cons_zero, Activation.target, Int.toNat_natCast, hpos,
      ne_eq, not_false_eq_true, if_true, hopens.openBlock_eq (l := l) rfl]
    refine ⟨_, store, store.counters, ?_, rfl,
      hstands.answers_enter (hwithin hclose (.inl ⟨rfl, rfl⟩) hopener') hsecond rfl⟩
    simp only [Frame.next, hcode, hoperands, hcondition, if_false, b]

/-! ## Leaving blocks -/

/-- An end compares the heights before it closes the innermost block. -/
theorem close_eq (f : Activation) {l : Label} {labels : List Label}
    (hlabels : f.labels = l :: labels) :
    f.close =
      if f.operands.length ≠ l.height + l.arity then .error (.trap .heightMismatch)
      else if labels = [] then f.results.map .leave
      else .ok (.go { f with labels }) := by
  simp only [Activation.close, hlabels, List.isEmpty_iff]
  by_cases hlength : f.operands.length ≠ l.height + l.arity
  · rw [if_pos hlength, if_pos hlength]
    rfl
  · rw [if_neg hlength, if_neg hlength]
    by_cases hnil : labels = []
    · rw [if_pos hnil, if_pos hnil]
      cases f.results <;> rfl
    · rw [if_neg hnil, if_neg hnil]
      rfl

/-- The function ends. -/
theorem Stands.follows_end_function {l : Label}
    (hstands : Stands m inst 0 frame f c height last count below) (hcode : frame.code = .done)
    (hblocks : frame.blocks = []) (hlabels : f.labels = [l]) (hheight : l.height = 0)
    (harity : l.arity = c.result.toList.length)
    (hlength : frame.operands.length = c.result.toList.length) (hbelow : below = []) :
    Follows m inst frame f store
      (Activation.step inst { f with ip := f.ip + 1 } Token.close.flat store) := by
  have hresults := hstands.results_eq' hlength.ge (f.ip + 1)
  have htake : frame.operands.take frame.arity = frame.operands := by
    rw [hstands.arity_eq, ← hlength, List.take_length]
  have hleave := hstands.answers_leave hlength.ge
  subst hbelow
  rw [htake] at hresults hleave
  have hop : Token.close.flat.op? = some .close := Token.op?_flat .close
  have hmatch : (frame.operands ++ []).length = l.height + l.arity := by
    rw [List.append_nil, hheight, harity, hlength, Nat.zero_add]
  have hclose : { f with ip := f.ip + 1, operands := frame.operands ++ [] }.close =
      .ok (.leave frame.operands) := by
    rw [close_eq { f with ip := f.ip + 1, operands := frame.operands ++ [] } hlabels,
      if_neg (not_not.mpr hmatch), if_pos rfl, hresults]
    rfl
  rw [Activation.step_of_op hop, hstands.moved_eq]
  simp only [Activation.stepLocal_close, hclose]
  refine ⟨_, store, store.counters, ?_, rfl, hleave⟩
  simp only [Frame.next, hcode, hblocks]

/-- A block ends, unless it is a loop whose label does not fit its results. -/
theorem Stands.follows_end_block {label : BlockType} {labels : List Label} {blocks : List Enclosing}
    {l : Label} {b : Enclosing} {last' count' next : Nat} {i opener : Instruction}
    (hstands : Stands m inst 0 frame f (c.inside label) (height + b.below.length) last' count'
      (b.below ++ below))
    (hcode : frame.code = .done) (hip : f.ip = last') (hlength : frame.operands.length = count')
    (hblocks : frame.blocks = b :: blocks) (hlabels : f.labels = l :: labels)
    (houter : Within f.function.body c height last count labels blocks below)
    (hheight : l.height = height + b.below.length)
    (hlast : f.function.body.instructions[last']? = some i) (hleaves : Leaves i last' next)
    (hafter : b.after.Placed f.function.body c height last count next (count' + b.below.length))
    (hopener : f.function.body.opener last' = some opener)
    (hresults : opener.blockResults.length = count')
    (hloop : l.arity = if opener.opcode = Opcode.loop.byte then 0 else count')
    (hcloses : opener.opcode = Opcode.loop.byte → i = Token.close.flat) :
    Follows m inst frame f store (Activation.step inst { f with ip := f.ip + 1 } i store) := by
  have hlabels' : labels ≠ [] := by
    have hpos := houter.length_blocks
    intro hnil
    rw [hnil, List.length_nil] at hpos
    omega
  have htotal : f.operands.length = l.height + count' := by
    have hbelow := hstands.within.length_below
    rw [hstands.operands_eq, List.length_append, hbelow, hlength, hheight]
    omega
  -- A label takes as many operands as the block has results, but for a loop: there it takes none,
  -- and a result makes the `end` compare different heights.
  by_cases harity : l.arity = count'
  · have hclose : { f with ip := f.ip + 1 }.close =
        .ok (.go { f with ip := f.ip + 1, labels }) := by
      have hmatch : f.operands.length = l.height + l.arity := by omega
      rw [close_eq { f with ip := f.ip + 1 } hlabels, if_neg (not_not.mpr hmatch), if_neg hlabels']
    have hrep : Represents m inst 0
        { frame with operands := frame.operands ++ b.below, code := b.after, blocks }
        { f with ip := next, labels } :=
      ⟨c, height, last, count, below,
        { hstands with
          within := houter
          placed := by simpa [hlength] using hafter
          operands_eq := by rw [List.append_assoc]; exact hstands.operands_eq }⟩
    have hstep : Activation.step inst { f with ip := f.ip + 1 } i store =
        .ok (.go { f with ip := next, labels }) store := by
      rcases hleaves with ⟨rfl, rfl⟩ | ⟨hop, hskip⟩
      · have hop : Token.close.flat.op? = some .close := Token.op?_flat .close
        rw [Activation.step_of_op hop]
        simp only [Activation.stepLocal_close, hclose, ← hip]
        rfl
      · rw [Activation.step_of_op hop]
        simp only [Activation.stepLocal_otherwise, hclose, bind, Except.bind, Activation.target,
          Instruction.continuation, hskip, List.getElem?_cons_zero, Int.toNat_natCast]
        rfl
    rw [hstep]
    refine ⟨_, store, store.counters, ?_, rfl, .go ?_ hrep⟩
    · simp only [Frame.next, hcode, hblocks]
    · exact ⟨rfl, rfl, rfl, rfl, rfl⟩
  · have hisLoop : opener.opcode = Opcode.loop.byte := by
      by_contra hne
      exact harity (by rw [hloop, if_neg hne])
    obtain rfl := hcloses hisLoop
    have hop : Token.close.flat.op? = some .close := Token.op?_flat .close
    have hclose : { f with ip := f.ip + 1 }.close = .error (.trap .heightMismatch) := by
      have hdiffer : f.operands.length ≠ l.height + l.arity := by omega
      rw [close_eq { f with ip := f.ip + 1 } hlabels, if_pos hdiffer]
    rw [Activation.step_of_op hop]
    simp only [Activation.stepLocal_close, hclose]
    refine ⟨rfl, .inr ⟨rfl, by rw [hip]; exact hlast, opener, by
      rw [hip]; exact hopener, hisLoop, ?_⟩⟩
    intro hnone
    rw [hnone, List.length_nil] at hresults
    exact harity (by rw [hloop, if_pos hisLoop, hresults])

/-- Where code has come to its end, the activation is at an instruction that closes the block. -/
theorem Stands.follows_end (hstands : Stands m inst 0 frame f c height last count below)
    (hcode : frame.code = .done) (hip : f.ip = last) (hlength : frame.operands.length = count) :
    ∃ i, f.function.body.instructions[f.ip]? = some i ∧
      Follows m inst frame f store (Activation.step inst { f with ip := f.ip + 1 } i store) := by
  obtain ⟨labels, hlabels⟩ : ∃ labels, f.labels = labels := ⟨_, rfl⟩
  obtain ⟨blocks, hblocks⟩ : ∃ blocks, frame.blocks = blocks := ⟨_, rfl⟩
  have hwithin := hstands.within
  rw [hlabels, hblocks] at hwithin
  cases hwithin with
  | function _ hclose _ _ hheight harity =>
    refine ⟨_, by rw [hip]; exact hclose, ?_⟩
    exact hstands.follows_end_function hcode hblocks hlabels hheight harity hlength rfl
  | block houter hheight _ _ _ hlast hleaves hafter hopener hresults hloop hcloses _ =>
    refine ⟨_, by rw [hip]; exact hlast, ?_⟩
    exact hstands.follows_end_block hcode hip hlength hblocks hlabels houter hheight hlast hleaves
      hafter hopener hresults hloop hcloses

/-- What an activation does is what the frame that stands for it does. -/
theorem Represents.step (hrep : Represents m inst 0 frame f) (store : Store H σ) :
    ∃ i, f.function.body.instructions[f.ip]? = some i ∧
      Follows m inst frame f store (Activation.step inst { f with ip := f.ip + 1 } i store) := by
  obtain ⟨c, height, last, count, below, hstands⟩ := hrep
  have hplaced := hstands.placed
  -- The cases are those of the placing of the code: at its end a block or the function ends.
  generalize hcode : frame.code = code at hplaced
  generalize hn : 0 + frame.operands.length = n at hplaced
  rw [Nat.zero_add] at hn
  cases hplaced with
  | done _ hip hcount => exact hstands.follows_end hcode hip (hn.trans hcount)
  | step _ hat hgoes htype hcount hnext =>
    exact ⟨_, hat, Meets.follows ⟨hcode, htype, hn.trans hcount, hnext⟩ hstands hgoes⟩
  | jump _ hat hjumps hcount =>
    exact ⟨_, hat, hstands.follows_jump hcode hjumps (hn.trans hcount)⟩
  | block _ hat hopens hclose hopener hnesting hinner hnext =>
    subst hn
    exact ⟨_, hat, hstands.follows_block hcode hopens hclose hopener hnesting hinner hnext⟩
  | loop _ hat hopens hclose hopener hnesting hinner hnext =>
    subst hn
    exact ⟨_, hat, hstands.follows_loop hcode hopens hclose hopener hnesting hinner hnext⟩
  | ifThen _ hat hopens hclose hopener hnesting hinner hnext =>
    obtain ⟨condition, operands, hoperands⟩ := List.exists_cons_of_length_eq_add_one hn
    rw [hoperands, List.length_cons, Nat.add_right_cancel_iff] at hn
    subst hn
    exact ⟨_, hat,
      hstands.follows_ifThen hcode hoperands hopens hclose hopener hnesting hinner hnext⟩
  | ifElse _ hat hopens hmiddle hpos helse hskip hopener hclose hopener' hnesting hfirst hsecond
      hnext =>
    obtain ⟨condition, operands, hoperands⟩ := List.exists_cons_of_length_eq_add_one hn
    rw [hoperands, List.length_cons, Nat.add_right_cancel_iff] at hn
    subst hn
    exact ⟨_, hat, hstands.follows_ifElse hcode hoperands hopens hmiddle hpos helse hskip hopener
      hclose hopener' hnesting hfirst hsecond hnext⟩

end

end IntWasm.Structured
