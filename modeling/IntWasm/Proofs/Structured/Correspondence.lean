import IntWasm.Module.Validate
import IntWasm.Proofs.Engine.Dispatch
import IntWasm.Proofs.Structured.Layout
import IntWasm.Proofs.Structured.Semantics

/-!
# Frames and activations

A frame of structured code and an activation of the machine stand for each other if the open blocks
of the one are those of the other: every label leads to where the code lies that a branch goes on
with, and the operands at the entries of the blocks are those between the heights of the labels.
Main statements: branches and the ends of blocks keep this, and so do the instructions that concern
operands only.
-/

namespace IntWasm.Structured

open Body

variable {H σ : Type}

/-! ## Open blocks -/

/-- How a block ends at the index `last`: the code after it lies at `next`. -/
def Leaves (i : Instruction) (last next : Nat) : Prop :=
  i = Token.close.flat ∧ next = last + 1 ∨ i.op? = some .otherwise ∧ i.labels = [(next : Int)]

/-- The labels of an activation and the blocks of a frame are the same: code in the innermost block
sees the context, was entered with `height` operands, ends at the index `last` and leaves `count`
operands. The operands at the entries of the blocks are `below`. -/
inductive Within (body : Body) :
    Context → (height last count : Nat) → List Label → List Enclosing → List UInt64 → Prop
  | function {c : Context} {last : Nat} {l : Label} (hlabels : c.labels = [c.result])
      (hclose : body.instructions[last]? = some Token.close.flat)
      (hopener : body.opener last = none) (hnesting : 0 < body.metrics.maxNesting)
      (hheight : l.height = 0) (harity : l.arity = c.result.toList.length) :
    Within body c 0 last c.result.toList.length [l] [] []
  | block {c : Context} {label : BlockType} {height last count : Nat} {labels : List Label}
      {blocks : List Enclosing} {below : List UInt64} {l : Label} {b : Enclosing}
      {last' count' next : Nat} {i opener : Instruction}
      (houter : Within body c height last count labels blocks below)
      (hheight : l.height = height + b.below.length) (harity : l.arity = label.toList.length)
      (hsame : b.arity = l.arity)
      (htarget : b.target.Placed body c height last count l.target (l.arity + b.below.length))
      (hlast : body.instructions[last']? = some i) (hleaves : Leaves i last' next)
      (hafter : b.after.Placed body c height last count next (count' + b.below.length))
      (hopener : body.opener last' = some opener) (hresults : opener.blockResults.length = count')
      (hloop : l.arity = if opener.opcode = Opcode.loop.byte then 0 else count')
      (hcloses : opener.opcode = Opcode.loop.byte → i = Token.close.flat)
      (hnesting : c.labels.length < body.metrics.maxNesting) :
    Within body (c.inside label) (height + b.below.length) last' count' (l :: labels) (b :: blocks)
      (b.below ++ below)

section

variable {body : Body} {c : Context} {height last count : Nat} {labels : List Label}
  {blocks : List Enclosing} {below : List UInt64}

/-- Below the innermost block lie as many operands as its height says. -/
theorem Within.length_below (hwithin : Within body c height last count labels blocks below) :
    below.length = height := by
  induction hwithin with
  | function => rfl
  | block =>
    rw [List.length_append]
    omega

/-- There is a label for each block that code sees. -/
theorem Within.length_labels (hwithin : Within body c height last count labels blocks below) :
    labels.length = c.labels.length := by
  induction hwithin with
  | function hlabels => rw [hlabels]; rfl
  | block _ _ _ _ _ _ _ _ _ _ _ _ _ ih => simp [Context.inside, ih]

/-- There is a block for each label but the function's own. -/
theorem Within.length_blocks (hwithin : Within body c height last count labels blocks below) :
    labels.length = blocks.length + 1 := by
  induction hwithin with
  | function => rfl
  | block _ _ _ _ _ _ _ _ _ _ _ _ _ ih => simp [ih]

/-- There is room for the labels. -/
theorem Within.nesting_le (hwithin : Within body c height last count labels blocks below) :
    labels.length ≤ body.metrics.maxNesting := by
  cases hwithin with
  | function _ _ _ hnesting => exact hnesting
  | block houter _ _ _ _ _ _ _ _ _ _ _ hnesting =>
    rw [List.length_cons, houter.length_labels]
    exact hnesting

/-- A branch leads out of the function or to an open block, around which everything is as it was. -/
theorem Within.branch (hwithin : Within body c height last count labels blocks below) {n : Nat}
    {type : BlockType} (hlabel : c.labels[n]? = some type) :
    (n = blocks.length ∧ type = c.result) ∨
    ∃ l b front c' height' last' count' below',
      labels[n]? = some l ∧ blocks[n]? = some b ∧ below = front ++ (b.below ++ below') ∧
      l.height = (b.below ++ below').length ∧ l.arity = type.toList.length ∧ b.arity = l.arity ∧
      c'.scope = c.scope ∧ c'.result = c.result ∧
      Within body c' height' last' count' (labels.drop (n + 1)) (blocks.drop (n + 1)) below' ∧
      b.target.Placed body c' height' last' count' l.target (l.arity + b.below.length) := by
  induction hwithin generalizing n with
  | @function c last l hlabels =>
    rw [hlabels] at hlabel
    cases n with
    | zero =>
      left
      simpa [eq_comm] using hlabel
    | succ n => simp at hlabel
  | @block c label height last count labels blocks below l b last' count' next i opener houter
      hheight harity hsame htarget _ _ _ _ _ _ _ _ ih =>
    cases n with
    | zero =>
      right
      obtain rfl : label = type := by simpa [Context.inside] using hlabel
      refine ⟨l, b, [], c, height, last, count, below, rfl, rfl, rfl, ?_, harity, hsame, rfl, rfl,
        houter, htarget⟩
      rw [hheight, List.length_append, houter.length_below, Nat.add_comm]
    | succ n =>
      rcases ih (n := n) (by simpa [Context.inside] using hlabel) with ⟨rfl, rfl⟩ | hblock
      · exact .inl ⟨rfl, rfl⟩
      · obtain ⟨l', b', front, c', height', last', count', below', hl, hb, rfl, hrest⟩ := hblock
        exact .inr ⟨l', b', b.below ++ front, c', height', last', count', below', hl, hb, by simp,
          hrest⟩

end

/-! ## Frames -/

/-- What the body of a function refers to is there in an instance. -/
structure Links (scope : Scope) (inst : Instance H) (fn : Function) : Prop where
  localType : ∀ {i t}, scope.localType i = some t → i.toNat < fn.locals
  functionType : ∀ {i f}, scope.functionType i = some f → inst.signature? i = some f
  type : ∀ {i f}, scope.type i = some f → inst.types[i.toNat]? = some f

/-- A frame stands for an activation that goes on with `pending` more operands. -/
structure Stands (m : Module) (inst : Instance H) (pending : Nat) (frame : Frame) (f : Activation)
    (c : Context) (height last count : Nat) (below : List UInt64) : Prop where
  scope_eq : ∃ locals, c.scope = m.scope locals
  links : Links c.scope inst f.function
  results_eq : f.function.type.results.length = c.result.toList.length
  arity_eq : frame.arity = c.result.toList.length
  within : Within f.function.body c height last count f.labels frame.blocks below
  placed : frame.code.Placed f.function.body c height last count f.ip
    (pending + frame.operands.length)
  operands_eq : f.operands = frame.operands ++ below
  locals_eq : f.locals = frame.locals
  size_eq : f.locals.size = f.function.locals
  base_nonneg : 0 ≤ f.base
  room_ge : f.function.body.metrics.maxStack ≤ f.room

/-- A frame stands for an activation in some block of its function. -/
def Represents (m : Module) (inst : Instance H) (pending : Nat) (frame : Frame) (f : Activation) :
    Prop :=
  ∃ c height last count below, Stands m inst pending frame f c height last count below

/-- What the code of a module relies on is there in a store. -/
structure Supports (m : Module) (inst : Instance H) (store : Store H σ) : Prop where
  global : ∀ {i type}, (m.scope []).globalType i = some type → ∃ address g,
    inst.globals[i.toNat]? = some address ∧ store.globals[address]? = some g ∧ g.type = type
  memory : (m.scope []).hasMemory = true → ∃ address memory,
    inst.memory = some address ∧ store.memories[address]? = some memory
  table : (m.scope []).hasTable = true → ∃ table, inst.table = some table ∧
    ∀ slot function, table.lookup slot = .ok function → (inst.signature? function).isSome

/-- What an activation never changes. -/
structure Keeps (f f' : Activation) : Prop where
  function_eq : f'.function = f.function
  base_eq : f'.base = f.base
  room_eq : f'.room = f.room
  labelsBelow_eq : f'.labelsBelow = f.labelsBelow
  callers_eq : f'.callers = f.callers

/-- What a frame does is what an activation `f` does. -/
inductive Answers (m : Module) (inst : Instance H) (f : Activation) : Deed → Next → Prop
  | go {frame f'} (hkeeps : Keeps f f') (hrep : Represents m inst 0 frame f') :
    Answers m inst f (.go frame) (.go f')
  | leave {results} (hlength : results.length = f.function.type.results.length) :
    Answers m inst f (.leave results) (.leave results)
  | call {frame f' function type args rest} (hsignature : inst.signature? function = some type)
      (hargs : args.length = type.params.length) (hkeeps : Keeps f f')
      (hheight : f'.operands.length ≤ f.operands.length)
      (hoperands : f'.operands = args.reverse ++ rest)
      (hrep : Represents m inst type.results.length frame { f' with operands := rest }) :
    Answers m inst f (.call frame function args) (.call f' function)

/-- The instruction that ends a loop with a result, for which its label is not made. -/
def EndsLoop (body : Body) (ip : Nat) : Prop :=
  body.instructions[ip]? = some Token.close.flat ∧ ∃ opener, body.opener ip = some opener ∧
    opener.opcode = Opcode.loop.byte ∧ opener.blockResults ≠ []

/-- What an instruction of the activation `f` comes to is what the frame does; only counters may
differ. If it stops the machine, the frame traps too, or a loop with a result ends, or the store
lacks something. -/
def Follows (m : Module) (inst : Instance H) (frame : Frame) (f : Activation) (store : Store H σ) :
    EStateM.Result Stop (Store H σ) Next → Prop
  | .ok next store' => ∃ deed store₁ counters, frame.next inst store = some (deed, store₁) ∧
      store' = { store₁ with counters } ∧ Answers m inst f deed next
  | .error (.trap t) store' => store' = store ∧
      (frame.next inst store = some (.trap t, store) ∨
        t = .heightMismatch ∧ EndsLoop f.function.body f.ip)
  | .error (.host _) _ => False
  | .error _ _ => ¬ Supports m inst store

end IntWasm.Structured
