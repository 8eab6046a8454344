import IntWasm.Engine.Instantiate
import IntWasm.Proofs.Outcome
import IntWasm.Proofs.Trace.Watching

/-!
# Instances with other settings

What an instruction does depends neither on the trace that is written nor on how much room is left
on the stacks, as long as it is enough. So the same instruction does the same for two instances that
differ in such settings only. Main statement: `Activation.step_alike`.
-/

namespace IntWasm

variable {H σ : Type}

/-- How far two runs may be apart: what is known of their traces, and whether the second one may
have larger stacks. -/
structure Leeway where
  watch : Watch
  larger : Prop

namespace Leeway

/-- A limit of both runs, which may be larger in the second one. -/
def AtMost {α : Type} [LE α] (l : Leeway) (a b : α) : Prop := a = b ∨ l.larger ∧ a ≤ b

/-- A stop of the first run that the second one may go past, because its stacks are larger. -/
def Excuses (l : Leeway) (stop : Stop) : Prop :=
  l.larger ∧ (stop = .outOfRange ∨ stop = .trap .stackExhausted)

end Leeway

/-! ## Configurations, instances and stores -/

/-- The limits of the stacks are the same, or they may be larger and are. -/
inductive Config.LimitsAlike (l : Leeway) (c c' : Config) : Prop
  | same (callDepth_eq : c.maxCallDepth = c'.maxCallDepth)
      (operandStack_eq : c.maxOperandStack = c'.maxOperandStack)
      (controlDepth_eq : c.maxControlDepth = c'.maxControlDepth)
  | larger (hlarger : l.larger)
      (hpositive : 0 < c.maxCallDepth ∧ 0 < c.maxOperandStack ∧ 0 < c.maxControlDepth)
      (callDepth_le : c.maxCallDepth ≤ c'.maxCallDepth)
      (operandStack_le : c.maxOperandStack ≤ c'.maxOperandStack)
      (controlDepth_le : c.maxControlDepth ≤ c'.maxControlDepth) (hfit : c'.stacksFit = true)

/-- Two configurations differ in the limits of the stacks, as far as they may, and in the trace,
unless it is watched. -/
structure Config.Alike (l : Leeway) (c c' : Config) : Prop where
  eq : c' = { c with
    maxCallDepth := c'.maxCallDepth, maxOperandStack := c'.maxOperandStack
    maxControlDepth := c'.maxControlDepth, trace := c'.trace }
  limits : Config.LimitsAlike l c c'
  trace_eq : l.watch ≠ .free → c.trace = c'.trace

namespace Config.Alike

variable {l : Leeway} {c c' : Config}

/-- Calls are counted for both or for neither. -/
theorem counted_eq (hconfig : c.Alike l c') : c.counted = c'.counted := by rw [hconfig.eq]

/-- The limit of the call depth may be larger. -/
theorem callDepth (hconfig : c.Alike l c') : l.AtMost c.maxCallDepth c'.maxCallDepth := by
  cases hconfig.limits with
  | same hcalls => exact .inl hcalls
  | larger hlarger _ hcalls => exact .inr ⟨hlarger, hcalls⟩

/-- The limit of the operand stack may be larger. -/
theorem operandStack (hconfig : c.Alike l c') : l.AtMost c.maxOperandStack c'.maxOperandStack := by
  cases hconfig.limits with
  | same _ hoperands => exact .inl hoperands
  | larger hlarger _ _ hoperands => exact .inr ⟨hlarger, hoperands⟩

/-- The limit of the control depth may be larger. -/
theorem controlDepth (hconfig : c.Alike l c') : l.AtMost c.maxControlDepth c'.maxControlDepth := by
  cases hconfig.limits with
  | same _ _ hcontrol => exact .inl hcontrol
  | larger hlarger _ _ _ hcontrol => exact .inr ⟨hlarger, hcontrol⟩

/-- The stacks of both can be made or of neither, as those that are larger can be. -/
theorem stacksFit_eq (hconfig : c.Alike l c') : c.stacksFit = c'.stacksFit := by
  cases hconfig.limits with
  | same hcalls hoperands hcontrol => simp only [stacksFit, hcalls, hoperands, hcontrol]
  | larger _ _ hcalls hoperands hcontrol hfit =>
    rw [hfit]
    simp only [stacksFit, Bool.and_eq_true, decide_eq_true_eq] at hfit ⊢
    omega

end Config.Alike

/-- A configuration is like itself. -/
theorem Config.alike_refl (l : Leeway) (c : Config) : c.Alike l c :=
  ⟨rfl, .same rfl rfl rfl, fun _ => rfl⟩

/-- Two instances that differ in their settings only. -/
structure Instance.Alike (l : Leeway) (inst inst' : Instance H) : Prop where
  eq : inst' = { inst with config := inst'.config }
  config : inst.config.Alike l inst'.config

/-- Two stores with instances that differ in their settings only. -/
structure Store.Alike (l : Leeway) (s t : Store H σ) : Prop where
  memories_eq : s.memories = t.memories
  allocators_eq : s.allocators = t.allocators
  globals_eq : s.globals = t.globals
  counters_eq : s.counters = t.counters
  host_eq : s.host = t.host
  size_eq : s.instances.size = t.instances.size
  instances : ∀ i (hs : i < s.instances.size) (ht : i < t.instances.size),
    (s.instances[i]).Alike l t.instances[i]
  traces : l.watch.Traces s.traces t.traces

section

variable {l : Leeway} {s t : Store H σ}

/-- A store is like itself if its traces are related to themselves. -/
theorem Store.alike_refl (s : Store H σ) (htraces : l.watch.Traces s.traces s.traces) :
    s.Alike l s :=
  ⟨rfl, rfl, rfl, rfl, rfl, rfl, fun _ _ _ => ⟨rfl, Config.alike_refl l _⟩, htraces⟩

/-- The instances at a place of both stores. -/
theorem Store.Alike.instance? (hst : s.Alike l t) (place : Nat) :
    (s.instances[place]? = none ∧ t.instances[place]? = none) ∨
      ∃ inst inst', s.instances[place]? = some inst ∧ t.instances[place]? = some inst' ∧
        inst.Alike l inst' := by
  by_cases hplace : place < s.instances.size
  · have hplace' : place < t.instances.size := hst.size_eq ▸ hplace
    exact .inr ⟨_, _, Array.getElem?_eq_getElem hplace, Array.getElem?_eq_getElem hplace',
      hst.instances place hplace hplace'⟩
  · have hplace' : ¬ place < t.instances.size := hst.size_eq ▸ hplace
    exact .inl ⟨by simp [Nat.le_of_not_lt hplace], by simp [Nat.le_of_not_lt hplace']⟩

/-- Both stores count, or neither does. -/
theorem Store.Alike.count (hst : s.Alike l t) {c c' : Config} (hconfig : c.Alike l c')
    (f : Counters → Counters) : (s.count c f).Alike l (t.count c' f) := by
  unfold Store.count
  rw [hconfig.counted_eq, hst.counters_eq]
  split
  · exact { hst with counters_eq := rfl }
  · exact hst

/-- The same change of the instances at a place. -/
theorem Store.Alike.modifyInstance (hst : s.Alike l t) (place : Nat) {f : Instance H → Instance H}
    (hf : ∀ inst inst' : Instance H, inst.Alike l inst' → (f inst).Alike l (f inst')) :
    (s.modifyInstance place f).Alike l (t.modifyInstance place f) := by
  refine { hst with
    size_eq := by simpa [Store.modifyInstance] using hst.size_eq
    instances := fun i hs ht => ?_ }
  simp only [Store.modifyInstance, Array.size_modify] at hs ht
  simp only [Store.modifyInstance, Array.getElem_modify]
  by_cases hplace : place = i
  · simp only [if_pos hplace]
    exact hf _ _ (hst.instances i hs ht)
  · simp only [if_neg hplace]
    exact hst.instances i hs ht

end

/-! ## Activations -/

/-- Two activations that differ in the room on the operand stack only. -/
def Activation.Alike (l : Leeway) (f g : Activation) : Prop :=
  ∃ room, g = { f with room } ∧ l.AtMost f.room room

/-- Two activations go on alike. -/
inductive Next.Alike (l : Leeway) : Next → Next → Prop
  | go {f g : Activation} (hfg : f.Alike l g) : Next.Alike l (.go f) (.go g)
  | leave (results : List UInt64) : Next.Alike l (.leave results) (.leave results)
  | call {f g : Activation} (hfg : f.Alike l g) (function : UInt32) :
    Next.Alike l (.call f function) (.call g function)

namespace Activation

variable {l : Leeway} {f g : Activation}

/-- Both activations take the same operand and go on. -/
theorem pop_alike {α β : Type} {V : α → β → Prop} (hfg : f.Alike l g)
    {next : UInt64 × Activation → Except Stop α} {next' : UInt64 × Activation → Except Stop β}
    (hnext : ∀ v f g, f.Alike l g → Agree l.Excuses V (next (v, f)) (next' (v, g))) :
    Agree l.Excuses V (f.pop >>= next) (g.pop >>= next') := by
  obtain ⟨room, rfl, hroom⟩ := hfg
  unfold pop
  cases f.operands with
  | nil => exact .error _
  | cons v operands => exact hnext v _ _ ⟨room, rfl, hroom⟩

/-- Both activations take the same two operands and go on. -/
theorem pop2_alike {α β : Type} {V : α → β → Prop} (hfg : f.Alike l g)
    {next : UInt64 × UInt64 × Activation → Except Stop α}
    {next' : UInt64 × UInt64 × Activation → Except Stop β}
    (hnext : ∀ a b f g, f.Alike l g → Agree l.Excuses V (next (a, b, f)) (next' (a, b, g))) :
    Agree l.Excuses V (f.pop2 >>= next) (g.pop2 >>= next') := by
  obtain ⟨room, rfl, hroom⟩ := hfg
  unfold pop2
  match f.operands with
  | [] => exact .error _
  | [_] => exact .error _
  | b :: a :: operands => exact hnext a b _ _ ⟨room, rfl, hroom⟩

/-- A word fits the second stack if it fits the first one. -/
theorem push_alike (hfg : f.Alike l g) (v : UInt64) :
    Agree l.Excuses (Activation.Alike l) (f.push v) (g.push v) := by
  obtain ⟨room, rfl, hroom⟩ := hfg
  unfold push
  by_cases hfits : f.operands.length < f.room
  · have hfits' : f.operands.length < room := by
      rcases hroom with heq | ⟨-, hle⟩
      · rwa [← heq]
      · exact Nat.lt_of_lt_of_le hfits hle
    simp only [if_pos hfits, if_pos hfits']
    exact .ok ⟨room, rfl, hroom⟩
  · simp only [if_neg hfits]
    rcases hroom with rfl | ⟨hlarger, -⟩
    · simp only [if_neg hfits]
      exact .error _
    · exact .excused ⟨hlarger, .inl rfl⟩ _

/-- The locals are the same. -/
theorem getLocal_alike (hfg : f.Alike l g) (i : UInt32) : f.getLocal i = g.getLocal i := by
  obtain ⟨room, rfl, -⟩ := hfg
  rfl

/-- A local is set in both activations. -/
theorem setLocal_alike (hfg : f.Alike l g) (i : UInt32) (v : UInt64) :
    Agree l.Excuses (Activation.Alike l) (f.setLocal i v) (g.setLocal i v) := by
  obtain ⟨room, rfl, hroom⟩ := hfg
  unfold setLocal
  simp only
  split
  · exact .error _
  · split
    · exact .ok ⟨room, rfl, hroom⟩
    · exact .error _

/-- A block is opened in both activations, unless the first one has too many labels. -/
theorem openBlock_alike (hfg : f.Alike l g) (i : Instruction) :
    Agree l.Excuses (Activation.Alike l) (f.openBlock i) (g.openBlock i) := by
  obtain ⟨room, rfl, hroom⟩ := hfg
  exact (Agree.refl _).bind fun target _ heq => heq ▸ .ok ⟨room, rfl, hroom⟩

/-- The results are taken from the same operands. -/
theorem results_alike (hfg : f.Alike l g) : f.results = g.results := by
  obtain ⟨room, rfl, -⟩ := hfg
  rfl

/-- The function is left with the same results. -/
theorem leave_alike (hfg : f.Alike l g) :
    Agree l.Excuses (Next.Alike l) (return .leave (← f.results)) (return .leave (← g.results)) := by
  rw [results_alike hfg]
  exact (Agree.refl _).bind fun results _ heq => heq ▸ .ok (.leave results)

/-- A branch leads both activations to the same place. -/
theorem branch_alike (hfg : f.Alike l g) (depth : Int) :
    Agree l.Excuses (Next.Alike l) (f.branch depth) (g.branch depth) := by
  have hleave := leave_alike hfg
  obtain ⟨room, rfl, hroom⟩ := hfg
  unfold branch
  by_cases hnegative : depth < 0
  · simp only [if_pos hnegative]
    exact .error _
  simp only [if_neg hnegative]
  by_cases houter : depth.toNat + 1 = f.labels.length
  · simp only [if_pos houter]
    exact hleave
  simp only [if_neg houter]
  cases f.labels[depth.toNat]? with
  | none => exact .error _
  | some label =>
    by_cases hheight : f.operands.length < label.height + label.arity
    · simp only [if_pos hheight]
      exact .error _
    · simp only [if_neg hheight]
      exact .ok (.go ⟨room, rfl, hroom⟩)

/-- An end closes the same block in both activations. -/
theorem close_alike (hfg : f.Alike l g) :
    Agree l.Excuses (Next.Alike l) f.close g.close := by
  have hleave := leave_alike hfg
  obtain ⟨room, rfl, hroom⟩ := hfg
  unfold close
  simp only
  cases f.labels with
  | nil => exact .error _
  | cons label labels =>
    by_cases hheight : f.operands.length ≠ label.height + label.arity
    · simp only [if_pos hheight]
      exact .error _
    simp only [if_neg hheight]
    cases labels.isEmpty with
    | true => exact hleave
    | false => exact .ok (.go ⟨room, rfl, hroom⟩)

/-- A constant fits the second stack if it fits the first one. -/
theorem constant_alike (hfg : f.Alike l g) (v : UInt64) :
    Agree l.Excuses (Next.Alike l) (f.constant v) (g.constant v) :=
  (push_alike hfg v).bind fun _ _ hfg => .ok (.go hfg)

/-- An operation on one operand does the same in both activations. -/
theorem unary_alike (hfg : f.Alike l g) (op : UInt64 → UInt64) :
    Agree l.Excuses (Next.Alike l) (f.unary op) (g.unary op) :=
  pop_alike hfg fun _ _ _ hfg => constant_alike hfg _

/-- An operation on two operands does the same in both activations. -/
theorem binary_alike (hfg : f.Alike l g) (op : UInt64 → UInt64 → Except Trap UInt64) :
    Agree l.Excuses (Next.Alike l) (f.binary op) (g.binary op) := by
  refine pop2_alike hfg fun a b f g hfg => ?_
  simp only
  cases op a b with
  | ok v => exact constant_alike hfg v
  | error trap => exact .error _

/-- Both activations go on at the same place. -/
theorem alike_at (hfg : f.Alike l g) (ip : Nat) :
    Activation.Alike l { f with ip } { g with ip } := by
  obtain ⟨room, rfl, hroom⟩ := hfg
  exact ⟨room, rfl, hroom⟩

/-- An instruction that concerns the activation alone does the same to both. -/
theorem stepLocal_alike (hfg : f.Alike l g) (op : Opcode) (i : Instruction) :
    Agree l.Excuses (Next.Alike l) (f.stepLocal op i) (g.stepLocal op i) := by
  -- What the cases share: going on, opening a block, and jumping to a label, which does not depend
  -- on the room.
  have hgo {f g : Activation} (hfg : f.Alike l g) :
      Agree l.Excuses (Next.Alike l) (pure (.go f)) (pure (.go g)) := .ok (.go hfg)
  have hopen {f g : Activation} (hfg : f.Alike l g) :
      Agree l.Excuses (Next.Alike l) (return .go (← f.openBlock i))
      (return .go (← g.openBlock i)) :=
    (openBlock_alike hfg i).bind fun _ _ => hgo
  have htarget {V : Next → Next → Prop} {label : Option Int} {next next' : Nat → Except Stop Next}
      (hnext : ∀ ip, Agree l.Excuses V (next ip) (next' ip)) :
      Agree l.Excuses V (target label >>= next) (target label >>= next') :=
    (Agree.refl _).bind fun ip _ heq => heq ▸ hnext ip
  unfold stepLocal
  split
  · exact .error _
  · exact hgo hfg
  · exact hopen hfg
  · exact hopen hfg
  · refine pop_alike hfg fun condition f g hfg => ?_
    by_cases htaken : condition.toUInt32 ≠ 0
    · simp only [if_pos htaken]
      exact hopen hfg
    · simp only [if_neg htaken]
      refine htarget fun other => ?_
      by_cases helse : other ≠ 0
      · simp only [if_pos helse]
        exact (openBlock_alike hfg i).bind fun _ _ hfg => hgo (alike_at hfg _)
      · simp only [if_neg helse]
        exact htarget fun ip => hgo (alike_at hfg ip)
  · refine (close_alike hfg).bind fun next next' hnext => ?_
    cases hnext with
    | go hfg => exact htarget fun ip => hgo (alike_at hfg ip)
    | leave results => exact .ok (.leave results)
    | call hfg function => exact .ok (.call hfg function)
  · exact close_alike hfg
  · exact branch_alike hfg _
  · refine pop_alike hfg fun condition f g hfg => ?_
    by_cases htaken : condition.toUInt32 ≠ 0
    · simp only [if_pos htaken]
      exact branch_alike hfg _
    · simp only [if_neg htaken]
      exact hgo hfg
  · refine pop_alike hfg fun index f g hfg => ?_
    simp only
    cases i.labels[index.toUInt32.toNat]? with
    | some label => exact branch_alike hfg _
    | none => exact branch_alike hfg _
  · exact leave_alike hfg
  · exact pop_alike hfg fun _ _ _ => hgo
  · exact pop_alike hfg fun _ _ _ hfg => binary_alike hfg _
  · rw [getLocal_alike hfg]
    exact (Agree.refl _).bind fun _ _ heq => heq ▸ constant_alike hfg _
  · exact pop_alike hfg fun v _ _ hfg => (setLocal_alike hfg _ v).bind fun _ _ => hgo
  · exact pop_alike hfg fun v _ _ _ => (setLocal_alike hfg _ v).bind fun _ _ => hgo
  · exact constant_alike hfg _
  · exact constant_alike hfg _
  · exact unary_alike hfg _
  · exact binary_alike hfg _
  · exact unary_alike hfg _
  · exact binary_alike hfg _
  · exact unary_alike hfg _
  · exact unary_alike hfg _
  · exact unary_alike hfg _
  · exact unary_alike hfg _
  · exact .error _

end Activation

/-! ## Instructions -/

section

variable {l : Leeway} {inst inst' : Instance H}

/-- Two computations on stores end alike, unless the first one is excused. -/
abbrev Exec.Alike (l : Leeway) {α β : Type} (V : α → β → Prop) (x : Exec H σ α)
    (y : Exec H σ β) : Prop :=
  TogetherUnless l.Excuses (Store.Alike l) V x y

/-- What depends on the activation only changes neither store. -/
theorem Exec.lift_alike {α β : Type} {V : α → β → Prop} {x : Except Stop α} {y : Except Stop β}
    (hxy : Agree l.Excuses V x y) : Exec.Alike l V (Exec.lift x : Exec H σ α) (Exec.lift y) := by
  intro s t hst
  cases hxy with
  | ok hab => exact .ok hab hst
  | error e => exact .error e hst
  | excused hexcused y => exact .excused hexcused s _

/-- Both stores hold the same in a global. -/
theorem Exec.getGlobal_alike (hinst : inst.Alike l inst') (i : UInt32) :
    Exec.Alike l Eq (Exec.getGlobal inst i : Exec H σ UInt64) (Exec.getGlobal inst' i) := by
  intro s t hst
  rw [hinst.eq]
  simp only [Exec.getGlobal, hst.globals_eq]
  split
  · exact .ok rfl hst
  · exact .error _ hst

/-- A global is set in both stores. -/
theorem Exec.setGlobal_alike (hinst : inst.Alike l inst') (i : UInt32) (v : UInt64) :
    Exec.Alike l Eq (Exec.setGlobal inst i v : Exec H σ Unit) (Exec.setGlobal inst' i v) := by
  intro s t hst
  rw [hinst.eq]
  simp only [Exec.setGlobal, hst.globals_eq]
  cases inst.globals[i.toNat]? with
  | none => exact .error _ hst
  | some place =>
    simp only
    cases t.globals[place]? with
    | none => exact .error _ hst
    | some g =>
      simp only
      cases g.set? v with
      | none => exact .error _ hst
      | some g' => exact .ok rfl { hst with globals_eq := rfl }

/-- Both instances find their memory, which is the same, or neither does. -/
theorem Exec.memory_alike {α β : Type} {V : α → β → Prop} (hinst : inst.Alike l inst')
    {next : Nat → Exec H σ α} {next' : Nat → Exec H σ β}
    (hnext : ∀ place, Exec.Alike l V (next place) (next' place)) :
    Exec.Alike l V (Exec.memory inst >>= next) (Exec.memory inst' >>= next') := by
  rw [hinst.eq]
  unfold Exec.memory
  cases inst.memory with
  | none => exact togetherUnless_throw _
  | some place => exact hnext place

/-- Both memories hold the same bytes. -/
theorem Exec.load_alike (hinst : inst.Alike l inst') (base offset : UInt32) (width : Nat) :
    Exec.Alike l Eq (Exec.load inst base offset width : Exec H σ UInt64)
      (Exec.load inst' base offset width) := by
  refine Exec.memory_alike hinst fun place s t hst => ?_
  simp only [hst.memories_eq]
  cases t.memories[place]? with
  | none => exact .error _ hst
  | some m =>
    simp only
    cases m.load base offset width with
    | ok w => exact .ok rfl hst
    | error trap => exact .error _ hst

/-- The same bytes are written to both memories. -/
theorem Exec.store_alike (hinst : inst.Alike l inst') (base offset : UInt32) (width : Nat)
    (w : UInt64) :
    Exec.Alike l Eq (Exec.store inst base offset width w : Exec H σ Unit)
      (Exec.store inst' base offset width w) := by
  refine Exec.memory_alike hinst fun place s t hst => ?_
  simp only [hst.memories_eq]
  cases t.memories[place]? with
  | none => exact .error _ hst
  | some m =>
    simp only
    cases m.address base offset width with
    | error trap => exact .error _ hst
    | ok start =>
      exact .ok rfl { hst with memories_eq := by simp only [Store.modifyMemory, hst.memories_eq] }

/-- Both memories have the same size. -/
theorem Exec.memorySize_alike (hinst : inst.Alike l inst') :
    Exec.Alike l Eq (Exec.memorySize inst : Exec H σ UInt64) (Exec.memorySize inst') := by
  refine Exec.memory_alike hinst fun place s t hst => ?_
  simp only [hst.memories_eq]
  cases t.memories[place]? with
  | none => exact .error _ hst
  | some m => exact .ok rfl hst

/-- A memory grows in both stores, as the allocators are the same. -/
theorem Store.growMemory_alike (place : Nat) (pages : UInt32) :
    Together (Store.Alike l) Eq (Store.growMemory place pages : EStateM _ (Store H σ) UInt32)
      (Store.growMemory place pages) := by
  intro s t hst
  simp only [Store.growMemory, hst.memories_eq, hst.allocators_eq]
  split
  · exact ⟨rfl, { hst with memories_eq := rfl, allocators_eq := rfl }⟩
  · exact ⟨rfl, { hst with memories_eq := rfl, allocators_eq := rfl }⟩

/-- The growth of a memory gives the same answer for both. -/
theorem Exec.memoryGrow_alike (hinst : inst.Alike l inst') (pages : UInt32) :
    Exec.Alike l Eq (Exec.memoryGrow inst pages : Exec H σ UInt64)
      (Exec.memoryGrow inst' pages) := by
  refine Exec.memory_alike hinst fun place s t hst => ?_
  rcases (Store.growMemory_alike place pages s t hst).cases with
    ⟨before, _, s', t', hs, ht, rfl, hgrown⟩ | ⟨e, s', t', hs, ht, hgrown⟩
  · simp only [hs, ht]
    exact .ok rfl (hgrown.count hinst.config _)
  · simp only [hs, ht]
    exact .ok rfl (hgrown.count hinst.config _)

/-- Both tables hold the same function. -/
theorem Exec.indirect_alike (hinst : inst.Alike l inst') (slot type : UInt32) :
    Exec.Alike l Eq (Exec.indirect inst slot type : Exec H σ UInt32)
      (Exec.indirect inst' slot type) := by
  have hsame : (Exec.indirect inst' slot type : Exec H σ UInt32) =
      Exec.indirect inst slot type := by
    rw [hinst.eq]
    rfl
  rw [hsame]
  unfold Exec.indirect
  cases inst.table with
  | none => exact togetherUnless_throw _
  | some table =>
    simp only
    cases table.lookup slot with
    | error trap => exact togetherUnless_throw _
    | ok function =>
      simp only
      cases inst.types[type.toNat]? with
      | none => exact togetherUnless_throw _
      | some expected =>
        simp only
        cases inst.signature? function with
        | none => exact togetherUnless_throw _
        | some actual =>
          simp only
          split
          · exact togetherUnless_pure rfl
          · exact togetherUnless_throw _

/-- An operand is taken from both activations. -/
theorem Exec.pop_alike {α β : Type} {V : α → β → Prop} {f g : Activation} (hfg : f.Alike l g)
    {next : UInt64 × Activation → Exec H σ α} {next' : UInt64 × Activation → Exec H σ β}
    (hnext : ∀ v f g, f.Alike l g → Exec.Alike l V (next (v, f)) (next' (v, g))) :
    Exec.Alike l V (Exec.lift f.pop >>= next) (Exec.lift g.pop >>= next') := by
  obtain ⟨room, rfl, hroom⟩ := hfg
  unfold Activation.pop
  cases f.operands with
  | nil => exact fun _ _ hst => .error _ hst
  | cons v operands => exact hnext v _ _ ⟨room, rfl, hroom⟩

/-- One instruction does the same for both instances, unless it does not fit on the stack of the
first. -/
theorem Activation.step_alike (hinst : inst.Alike l inst') {f g : Activation} (hfg : f.Alike l g)
    (i : Instruction) :
    Exec.Alike l (Next.Alike l) (Activation.step inst f i : Exec H σ Next)
      (Activation.step inst' g i) := by
  have hgo {f g : Activation} (hfg : f.Alike l g) :
      Exec.Alike l (Next.Alike l) (pure (.go f) : Exec H σ Next) (pure (.go g)) :=
    togetherUnless_pure (.go hfg)
  have hconstant {f g : Activation} (hfg : f.Alike l g) (v : UInt64) :
      Exec.Alike l (Next.Alike l) (Exec.lift (f.constant v) : Exec H σ Next)
        (Exec.lift (g.constant v)) :=
    Exec.lift_alike (constant_alike hfg v)
  rw [Activation.step, Activation.step]
  split
  · exact togetherUnless_throw _
  · exact togetherUnless_pure (.call hfg _)
  · exact Exec.pop_alike hfg fun _ _ _ hfg =>
      (Exec.indirect_alike hinst _ _).andThen fun _ => togetherUnless_pure (.call hfg _)
  · exact (Exec.getGlobal_alike hinst _).andThen fun _ => hconstant hfg _
  · exact Exec.pop_alike hfg fun _ _ _ hfg =>
      (Exec.setGlobal_alike hinst _ _).andThen fun _ => hgo hfg
  · exact Exec.pop_alike hfg fun _ _ _ hfg =>
      (Exec.load_alike hinst _ _ _).andThen fun _ => hconstant hfg _
  · obtain ⟨room, rfl, hroom⟩ := hfg
    unfold pop2
    simp only
    split
    · exact (Exec.store_alike hinst _ _ _ _).andThen fun _ => hgo ⟨room, rfl, hroom⟩
    · exact fun _ _ hst => .error _ hst
  · exact (Exec.memorySize_alike hinst).andThen fun _ => hconstant hfg _
  · exact Exec.pop_alike hfg fun _ _ _ hfg =>
      (Exec.memoryGrow_alike hinst _).andThen fun _ => hconstant hfg _
  · exact Exec.lift_alike (stepLocal_alike hfg _ i)

end

end IntWasm
