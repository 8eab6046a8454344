import IntWasm.Proofs.Engine.Leeway
import IntWasm.Proofs.Structured.Machine
import Mathlib.Data.List.Forall2

/-!
# Runs with other settings

The same call of two instances that differ in their settings runs alike: the same instructions in
the same activations, the same entries of the traces and the same calls of the embedder's functions.
It does so to its end, unless the stacks of the first instance are too small. Main statements:
`Instance.runFunction_alike`, `Engine.invoke_alike` and `Engine.instantiate_alike`.
-/

namespace IntWasm

variable {H σ : Type}

/-! ## Machines -/

/-- Two machines whose activations differ in the room on the operand stack only. -/
structure Machine.Alike (l : Leeway) (m n : Machine) : Prop where
  frames : List.Forall₂ (Activation.Alike l) m.frames n.frames
  outer_eq : m.outer = n.outer
  slot_eq : m.slot = n.slot

namespace Machine.Alike

variable {l : Leeway} {m n : Machine}

/-- Machines without activations are alike. -/
theorem refl (l : Leeway) (outer : List UInt64) (slot : UInt64) :
    Machine.Alike l ⟨[], outer, slot⟩ ⟨[], outer, slot⟩ :=
  ⟨.nil, rfl, rfl⟩

/-- Neither machine has an activation, or the innermost ones differ in the room only. -/
theorem cases (hmn : m.Alike l n) :
    (∃ outer slot, m = ⟨[], outer, slot⟩ ∧ n = ⟨[], outer, slot⟩) ∨
      ∃ f room callers callers' outer slot, m = ⟨f :: callers, outer, slot⟩ ∧
        n = ⟨{ f with room } :: callers', outer, slot⟩ ∧ l.AtMost f.room room ∧
        List.Forall₂ (Activation.Alike l) callers callers' := by
  obtain ⟨frames, outer, slot⟩ := m
  obtain ⟨frames', outer', slot'⟩ := n
  obtain ⟨hframes, rfl, rfl⟩ := hmn
  cases hframes with
  | nil => exact .inl ⟨outer, slot, rfl, rfl⟩
  | cons hfg hcallers =>
    obtain ⟨room, rfl, hroom⟩ := hfg
    exact .inr ⟨_, room, _, _, outer, slot, rfl, rfl, hroom, hcallers⟩

/-- The operands are the same. -/
theorem operands_eq (hmn : m.Alike l n) : m.operands = n.operands := by
  rcases hmn.cases with ⟨_, _, rfl, rfl⟩ | ⟨_, _, _, _, _, _, rfl, rfl, -⟩ <;> rfl

/-- The heights of the operand stacks are the same. -/
theorem height_eq (hmn : m.Alike l n) : m.height = n.height := by
  rcases hmn.cases with ⟨_, _, rfl, rfl⟩ | ⟨_, _, _, _, _, _, rfl, rfl, -⟩ <;> rfl

/-- As many labels are open. -/
theorem labelCount_eq (hmn : m.Alike l n) : m.labelCount = n.labelCount := by
  rcases hmn.cases with ⟨_, _, rfl, rfl⟩ | ⟨_, _, _, _, _, _, rfl, rfl, -⟩ <;> rfl

/-- As many activations run. -/
theorem depth_eq (hmn : m.Alike l n) : m.depth = n.depth := by
  rcases hmn.cases with ⟨_, _, rfl, rfl⟩ | ⟨_, _, _, _, _, _, rfl, rfl, -⟩ <;> rfl

/-- A stop is blamed on the same place. -/
theorem place?_eq (hmn : m.Alike l n) : m.place? = n.place? := by
  rcases hmn.cases with ⟨_, _, rfl, rfl⟩ | ⟨_, _, _, _, _, _, rfl, rfl, -⟩ <;> rfl

/-- The operands of the innermost activation may be replaced. -/
theorem setOperands (hmn : m.Alike l n) (operands : List UInt64) :
    (m.setOperands operands).Alike l (n.setOperands operands) := by
  rcases hmn.cases with ⟨_, _, rfl, rfl⟩ |
    ⟨f, room, callers, callers', _, _, rfl, rfl, hroom, hcallers⟩
  · exact .refl l _ _
  · exact ⟨.cons ⟨room, rfl, hroom⟩ hcallers, rfl, rfl⟩

/-- The innermost activation may be taken away. -/
theorem below (hmn : m.Alike l n) :
    Machine.Alike l { m with frames := m.frames.tail } { n with frames := n.frames.tail } := by
  rcases hmn.cases with ⟨_, _, rfl, rfl⟩ |
    ⟨f, room, callers, callers', _, _, rfl, rfl, hroom, hcallers⟩
  · exact .refl l _ _
  · exact ⟨hcallers, rfl, rfl⟩

/-- Activations that are alike may be put back. -/
theorem resume (hmn : m.Alike l n) {f g : Activation} (hfg : f.Alike l g) :
    (m.resume f).Alike l (n.resume g) :=
  ⟨.cons hfg hmn.below.frames, hmn.outer_eq, hmn.slot_eq⟩

/-- A function may be left with the same results. -/
theorem leave (hmn : m.Alike l n) (results : List UInt64) :
    (m.leave results).Alike l (n.leave results) := by
  unfold Machine.leave
  simp only [hmn.below.operands_eq]
  exact hmn.below.setOperands _

/-- A function that fits on the stacks of the first machine fits on those of the second one. -/
theorem admits (hmn : m.Alike l n) {c c' : Config} (hconfig : c.Alike l c') (fn : Function) :
    m.admits c fn = n.admits c' fn ∨ l.larger ∧ m.admits c fn = false := by
  cases hadmits : m.admits c fn with
  | false =>
    cases hconfig.limits with
    | same hcalls hoperands hcontrol =>
      refine .inl ?_
      rw [← hadmits]
      simp only [Machine.admits, hmn.height_eq, hmn.labelCount_eq, hmn.depth_eq, hcalls, hoperands,
        hcontrol]
    | larger hlarger => exact .inr ⟨hlarger, rfl⟩
  | true =>
    refine .inl (Eq.symm ?_)
    have hle {a b : Int} (hab : l.AtMost a b) : a ≤ b := by
      rcases hab with rfl | ⟨-, hle⟩
      · exact Int.le_refl _
      · exact hle
    have hcalls := hle hconfig.callDepth
    have hoperands := hle hconfig.operandStack
    have hcontrol := hle hconfig.controlDepth
    simp only [Machine.admits, hmn.height_eq, hmn.labelCount_eq, hmn.depth_eq, Bool.and_eq_true,
      decide_eq_true_eq] at hadmits ⊢
    omega

/-- A function may be entered, each time with the room that the settings give. -/
theorem enter (hmn : m.Alike l n) {c c' : Config} (hconfig : c.Alike l c') (fn : Function) :
    (m.enter c fn).Alike l (n.enter c' fn) := by
  have hrest := hmn.setOperands (n.operands.drop fn.type.params.length)
  have hroom : l.AtMost (c.maxOperandStack - (n.height - fn.type.params.length) - fn.locals).toNat
      (c'.maxOperandStack - (n.height - fn.type.params.length) - fn.locals).toNat := by
    rcases hconfig.operandStack with heq | ⟨hlarger, hle⟩
    · exact .inl (by rw [heq])
    · exact .inr ⟨hlarger, Int.toNat_le_toNat (by omega)⟩
  unfold Machine.enter
  simp only [hmn.operands_eq, hmn.height_eq, hmn.labelCount_eq, hmn.depth_eq]
  exact ⟨.cons ⟨_, rfl, hroom⟩ hrest.frames, hrest.outer_eq, hrest.slot_eq⟩

/-- A word fits the second machine if it fits the first one. -/
theorem push (hmn : m.Alike l n) {c c' : Config} (hconfig : c.Alike l c') (v : UInt64) :
    Agree l.Excuses (Machine.Alike l) (m.push c v) (n.push c' v) := by
  rcases hmn.cases with ⟨outer, slot, rfl, rfl⟩ |
    ⟨f, room, callers, callers', _, _, rfl, rfl, hroom, hcallers⟩
  · simp only [Machine.push]
    by_cases hfits : (outer.length : Int) < c.maxOperandStack
    · have hfits' : (outer.length : Int) < c'.maxOperandStack := by
        rcases hconfig.operandStack with heq | ⟨-, hle⟩
        · rwa [← heq]
        · exact Int.lt_of_lt_of_le hfits hle
      simp only [if_pos hfits, if_pos hfits']
      exact .ok (refl l _ _)
    · simp only [if_neg hfits]
      rcases hconfig.operandStack with heq | ⟨hlarger, -⟩
      · simp only [← heq, if_neg hfits]
        exact .error _
      · exact .excused ⟨hlarger, .inl rfl⟩ _
  · exact (Activation.push_alike ⟨room, rfl, hroom⟩ v).bind fun _ _ hfg =>
      .ok ⟨.cons hfg hcallers, rfl, rfl⟩

/-- The result of a host function fits the second machine if it fits the first one. -/
theorem finishHostCall (hmn : m.Alike l n) {c c' : Config} (hconfig : c.Alike l c')
    (type : FuncType) (written : Option UInt64) :
    Agree l.Excuses (Machine.Alike l) (m.finishHostCall c type written)
      (n.finishHostCall c' type written) := by
  have hrest := hmn.setOperands (n.operands.drop type.params.length)
  unfold Machine.finishHostCall
  rw [hmn.operands_eq]
  cases type.results with
  | nil => exact .ok hrest
  | cons t _ =>
    have hwritten (slot : UInt64) :
        Machine.Alike l { m.setOperands (n.operands.drop type.params.length) with slot }
          { n.setOperands (n.operands.drop type.params.length) with slot } :=
      ⟨hrest.frames, hrest.outer_eq, rfl⟩
    simp only [hrest.slot_eq]
    exact push (hwritten _) hconfig _

/-- A result that was written before a failure is kept in both. -/
theorem keepWritten (hmn : m.Alike l n) (type : FuncType) (written : Option UInt64) :
    (m.keepWritten type written).Alike l (n.keepWritten type written) := by
  unfold Machine.keepWritten
  cases type.results with
  | nil => exact hmn
  | cons => exact ⟨hmn.frames, hmn.outer_eq, by rw [hmn.slot_eq]⟩

end Machine.Alike

/-! ## States -/

/-- What may be known once the first output is full. -/
def Leeway.filled (l : Leeway) : Leeway := { l with watch := l.watch.filled }

section

variable {l : Leeway}

/-- Configurations stay alike if the room is not looked at any more. -/
theorem Config.Alike.filled {c c' : Config} (hconfig : c.Alike l c') : c.Alike l.filled c' := by
  refine ⟨hconfig.eq, ?_, fun hwatched => hconfig.trace_eq fun hfree => hwatched ?_⟩
  · cases hconfig.limits with
    | same hcalls hoperands hcontrol => exact .same hcalls hoperands hcontrol
    | larger hlarger hpositive hcalls hoperands hcontrol hfit =>
      exact .larger hlarger hpositive hcalls hoperands hcontrol hfit
  · simp only [Leeway.filled, hfree, Watch.filled]

/-- Instances stay alike if the room is not looked at any more. -/
theorem Instance.Alike.filled {inst inst' : Instance H} (hinst : inst.Alike l inst') :
    inst.Alike l.filled inst' :=
  ⟨hinst.eq, hinst.config.filled⟩

/-- Stores stay alike if their traces are related as the weaker watch asks. -/
theorem Store.Alike.filled {s t : Store H σ} (hst : s.Alike l t)
    (htraces : l.filled.watch.Traces s.traces t.traces) : s.Alike l.filled t :=
  { hst with
    instances := fun i hs ht => (hst.instances i hs ht).filled
    traces := htraces }

/-- A computation on the stores of two threads leaves as much known of them, if it does so for the
stores whether the first output is full or not. -/
theorem TogetherUnless.threads {ε α β : Type} {X : ε → Prop} {V V' : α → β → Prop}
    {x : EStateM ε (Store H σ) α} {y : EStateM ε (Store H σ) β}
    (hxy : TogetherUnless X (Store.Alike l) V x y)
    (hfilled : TogetherUnless X (Store.Alike l.filled) V' x y) {s t : Store H σ} (hst : s.Alike l t)
    {trace : Option Nat} {thread thread' : Thread}
    (hthreads : l.watch.Threads trace thread thread' s.traces t.traces) :
    EndsAlikeUnless X
      (fun s t => s.Alike l t ∧ l.watch.Threads trace thread thread' s.traces t.traces) V
        (x s) (y t) := by
  -- What is known of the threads depends on the output once it is full, and a full one stays full:
  -- hence the second hypothesis.
  have hknown : (∀ u v, l.watch.Threads trace thread thread' u v) ∨
      l.filled.watch.Traces s.traces t.traces ∧
        ∀ u v, l.filled.watch.Traces u v → l.watch.Threads trace thread thread' u v := by
    unfold Leeway.filled
    cases hwatch : l.watch with
    | free => exact .inl fun _ _ => trivial
    | full k place => exact .inl fun _ _ => trivial
    | cut k place =>
      rw [hwatch] at hthreads
      by_cases htrace : trace = some place
      · rcases hthreads htrace with hsynced | hfull
        · exact .inl fun _ _ _ => .inl hsynced
        · exact .inr ⟨hfull, fun _ _ hfull _ => .inr hfull⟩
      · exact .inl fun _ _ heq => absurd heq htrace
  have hends := hxy s t hst
  rcases hknown with hknown | ⟨htraces, hknown⟩
  · generalize x s = r at hends ⊢
    generalize y t = q at hends ⊢
    cases hends with
    | ok hab hst' => exact .ok hab ⟨hst', hknown _ _⟩
    | error e hst' => exact .error e ⟨hst', hknown _ _⟩
    | excused hexcused s => exact .excused hexcused s _
  · have hfull := hfilled s t (hst.filled htraces)
    generalize x s = r at hends hfull ⊢
    generalize y t = q at hends hfull ⊢
    cases hends with
    | ok hab hst' =>
      cases hfull with
      | ok _ hst => exact .ok hab ⟨hst', hknown _ _ hst.traces⟩
    | error e hst' =>
      cases hfull with
      | error _ hst => exact .error e ⟨hst', hknown _ _ hst.traces⟩
      | excused hexcused => exact .excused hexcused _ _
    | excused hexcused s => exact .excused hexcused s _

end

/-- Two states of machines, of which the first one writes the trace at a given place. -/
structure State.Alike (l : Leeway) (trace : Option Nat) (s t : State H σ) : Prop where
  store : s.store.Alike l t.store
  threads : l.watch.Threads trace s.thread t.thread s.store.traces t.store.traces
  memory_eq : s.thread.memory = t.thread.memory
  depth_eq : s.thread.depth = t.thread.depth
  maxDepth : l.AtMost s.thread.maxDepth t.thread.maxDepth
  machine : s.machine.Alike l t.machine

/-- Two calls of the same function of the embedder. -/
structure HostCall.Alike (l : Leeway) (c d : HostCall H) : Prop where
  code_eq : c.code = d.code
  type_eq : c.type = d.type
  args_eq : c.args = d.args
  memory_eq : c.memory = d.memory
  depth_eq : c.depth = d.depth
  maxDepth : l.AtMost c.maxDepth d.maxDepth

/-- Two machines do the same next. -/
inductive Progress.Alike (l : Leeway) : Progress H → Progress H → Prop
  | done : Progress.Alike l .done .done
  | more : Progress.Alike l .more .more
  | host {c d : HostCall H} (hcall : c.Alike l d) : Progress.Alike l (.host c) (.host d)

/-- Two computations of machines run alike, unless the first one is excused. -/
abbrev Run.Alike (l : Leeway) (trace : Option Nat) {α β : Type} (V : α → β → Prop) (x : Run H σ α)
    (y : Run H σ β) : Prop :=
  TogetherUnless l.Excuses (State.Alike l trace) V x y

section

variable {l : Leeway} {inst inst' : Instance H} {s t : State H σ}

/-- Two notes that tell the same entry keep the traces related. -/
theorem State.Alike.traced {trace : Option Nat} (hst : s.Alike l trace t) {c c' : Config}
    (hconfig : c.Alike l c') (htrace : c.trace = trace) {act : Thread → Sink → Thread × Sink}
    {depth : Int → Int} {e : TraceEntry} (htells : Thread.Tells act depth e) :
    (Run.traced c s act).Alike l trace (Run.traced c' t act) := by
  subst htrace
  have hwatch := Watch.traced hconfig.trace_eq htells hst.store.traces hst.threads
  have hemitted (t : Thread) (out : Sink) :
      ∃ fault, (act t out).1 = { t with depth := depth t.depth, fault } := by
    rw [htells, Thread.emit_spec]
    split
    · split
      · exact ⟨_, rfl⟩
      · exact ⟨_, rfl⟩
    · exact ⟨t.fault, rfl⟩
  have heq (c : Config) (s : State H σ) : ∃ fault traces, Run.traced c s act =
      { s with
        thread := { s.thread with depth := depth s.thread.depth, fault }
        store.traces := traces } := by
    cases htrace : c.trace with
    | none =>
      obtain ⟨fault, heq⟩ := hemitted s.thread {}
      exact ⟨fault, s.store.traces, by rw [Run.traced_none htrace, heq]⟩
    | some place =>
      obtain ⟨fault, heq⟩ := hemitted s.thread (s.store.traces[place]?.getD {})
      exact ⟨fault, _, by rw [Run.traced_some htrace, heq]⟩
  obtain ⟨fault, traces, hs⟩ := heq c s
  obtain ⟨fault', traces', ht⟩ := heq c' t
  rw [hs, ht] at hwatch ⊢
  exact { hst with
    store := { hst.store with traces := hwatch.1 }
    threads := hwatch.2
    depth_eq := congrArg depth hst.depth_eq }

/-- The machines change alike. -/
theorem Run.modify_alike {trace : Option Nat} {f g : Machine → Machine}
    (hfg : ∀ m n : Machine, m.Alike l n → (f m).Alike l (g n)) :
    Run.Alike l trace Eq (modify fun s => { s with machine := f s.machine } : Run H σ Unit)
      (modify fun s => { s with machine := g s.machine } : Run H σ Unit) :=
  fun _ _ hst => .ok rfl { hst with machine := hfg _ _ hst.machine }

variable (hinst : inst.Alike l inst')

include hinst

/-- Both runs note that the function is entered. -/
theorem Run.openFunction_alike (name : String) (function : UInt32) (type : FuncType) :
    Run.Alike l inst.config.trace Eq (Run.openFunction inst name function type : Run H σ Unit)
      (Run.openFunction inst' name function type) := by
  intro s t hst
  unfold Run.openFunction
  have hopened := hst.traced hinst.config rfl (Thread.tells_opened name function type)
  by_cases hfull : s.thread.maxDepth ≤ s.thread.depth
  · rcases hst.maxDepth with heq | ⟨hlarger, -⟩
    · have hfull' := hfull
      rw [heq, hst.depth_eq] at hfull'
      simp only [Thread.isFull, hfull, hfull', decide_true, if_true]
      exact .error _ hst
    · simp only [Thread.isFull, hfull, decide_true, if_true]
      exact .excused ⟨hlarger, .inr rfl⟩ _ _
  · have hfull' : ¬ t.thread.maxDepth ≤ t.thread.depth := by
      rw [hst.depth_eq] at hfull
      rcases hst.maxDepth with heq | ⟨-, hle⟩
      · rwa [← heq]
      · omega
    simp only [Thread.isFull, hfull, hfull', decide_false, Bool.false_eq_true, if_false]
    exact .ok rfl hopened

/-- Both runs enter the function, unless the first one has no room for it. -/
theorem Run.enterFunction_alike (fn : Function) :
    Run.Alike l inst.config.trace Eq (Run.enterFunction inst fn : Run H σ Unit)
      (Run.enterFunction inst' fn) := by
  have hname : inst'.name = inst.name := by rw [hinst.eq]
  have hget : Run.Alike l inst.config.trace (State.Alike l inst.config.trace)
      (get : Run H σ (State H σ)) get := fun _ _ hst => .ok hst hst
  have hrest : Run.Alike l inst.config.trace Eq (do
      Run.openFunction inst inst.name fn.index fn.type
      modify fun s => { s with machine := s.machine.enter inst.config fn } : Run H σ Unit) (do
      Run.openFunction inst' inst'.name fn.index fn.type
      modify fun s => { s with machine := s.machine.enter inst'.config fn } : Run H σ Unit) := by
    rw [hname]
    exact (Run.openFunction_alike hinst _ _ _).andThen fun _ =>
      Run.modify_alike fun _ _ hmn => hmn.enter hinst.config fn
  unfold Run.enterFunction
  refine hget.bind fun s t hst => ?_
  rcases hst.machine.admits hinst.config fn with heq | ⟨hlarger, hfalse⟩
  · rw [heq]
    cases t.machine.admits inst'.config fn with
    | true => exact hrest
    | false => exact (togetherUnless_throw _).andThen fun _ => hrest
  · rw [hfalse]
    exact fun _ _ _ => .excused ⟨hlarger, .inr rfl⟩ _ _

/-- Both runs hand the same call to the embedder. -/
theorem Run.beginHostCall_alike (function : UInt32) (f : ImportedFunction H) :
    Run.Alike l inst.config.trace (HostCall.Alike l) (Run.beginHostCall inst function f : Run H σ _)
      (Run.beginHostCall inst' function f) := by
  unfold Run.beginHostCall
  refine (Run.openFunction_alike hinst _ _ _).andThen fun _ s t hst => ?_
  simp only [hst.machine.operands_eq]
  by_cases hrange : t.machine.operands.length < f.type.params.length ∨ 1 < f.type.results.length
  · simp only [if_pos hrange]
    exact .error _ hst
  · simp only [if_neg hrange]
    exact .ok ⟨rfl, rfl, rfl, hst.memory_eq, hst.depth_eq, hst.maxDepth⟩ hst

/-- Both runs call the same function, unless the first one has no room for it. -/
theorem Run.call_alike (function : UInt32) :
    Run.Alike l inst.config.trace (Progress.Alike l) (Run.call inst function : Run H σ _)
      (Run.call inst' function) := by
  have himports : inst'.imports = inst.imports := by rw [hinst.eq]
  have hfunctions : inst'.functions = inst.functions := by rw [hinst.eq]
  unfold Run.call
  rw [himports, hfunctions]
  cases inst.imports[function.toNat]? with
  | some f =>
    exact (Run.beginHostCall_alike hinst _ _).bind fun _ _ hcall =>
      togetherUnless_pure (.host hcall)
  | none =>
    simp only
    cases inst.functions[function.toNat - inst.imports.size]? with
    | some fn =>
      exact (Run.enterFunction_alike hinst _).andThen fun _ => togetherUnless_pure .more
    | none => exact togetherUnless_throw _

/-- Both runs note that the function is left. -/
theorem Run.closeFunction_alike :
    Run.Alike l inst.config.trace Eq (Run.closeFunction inst : Run H σ Unit)
      (Run.closeFunction inst') :=
  fun _ _ hst => .ok rfl (hst.traced hinst.config rfl Thread.tells_leave)

/-- Whatever comes next comes next in both runs. -/
theorem Run.follow_alike {next next' : Next} (hnext : next.Alike l next') :
    Run.Alike l inst.config.trace (Progress.Alike l) (Run.follow inst next : Run H σ _)
      (Run.follow inst' next') := by
  cases hnext with
  | go hfg =>
    exact (Run.modify_alike fun _ _ hmn => hmn.resume hfg).andThen fun _ =>
      togetherUnless_pure .more
  | leave results =>
    exact (Run.modify_alike fun _ _ hmn => hmn.leave results).andThen fun _ =>
      (Run.closeFunction_alike hinst).andThen fun _ => togetherUnless_pure .more
  | call hfg function =>
    exact (Run.modify_alike fun _ _ hmn => hmn.resume hfg).andThen fun _ => Run.call_alike hinst _

/-- Both machines run the same instruction. -/
theorem Run.advance_alike :
    Run.Alike l inst.config.trace (Progress.Alike l) (Run.advance inst : Run H σ _)
      (Run.advance inst') := by
  rintro ⟨store, thread, ⟨frames, outer, slot⟩⟩ ⟨store', thread', ⟨frames', outer', slot'⟩⟩ hst
  obtain ⟨hframes, houter, hslot⟩ := hst.machine
  simp only at hframes houter hslot
  subst houter hslot
  cases hframes with
  | nil => exact .ok .done { hst with machine := .refl l outer slot }
  | @cons f g callers callers' hfg hcallers =>
    have hat := Activation.alike_at hfg (f.ip + 1)
    obtain ⟨room, rfl, hroom⟩ := hfg
    cases hinstr : f.function.body.instructions[f.ip]? with
    | none =>
      rw [Run.advance_of_none hinstr, Run.advance_of_none (f := { f with room }) hinstr]
      exact .error _ hst
    | some i =>
      rw [Run.advance_of_some hinstr rfl, Run.advance_of_some (f := { f with room }) hinstr rfl]
      -- Tracing first, as the instruction starts from the store that it leaves.
      have htraced := hst.traced hinst.config rfl
        (Thread.tells_instruction f.ip i f.operands.length)
      generalize Run.traced inst.config _ _ = u at htraced ⊢
      generalize Run.traced inst'.config _ _ = v at htraced ⊢
      obtain ⟨store, thread, machine⟩ := u
      obtain ⟨store', thread', machine'⟩ := v
      have hstep := TogetherUnless.threads (Activation.step_alike hinst hat i)
        (Activation.step_alike hinst.filled hat i) htraced.store htraced.threads
      simp only at hstep
      generalize Activation.step inst _ i store = r at hstep ⊢
      generalize Activation.step inst' _ i store' = q at hstep ⊢
      cases hstep with
      | ok hnext hst =>
        exact Run.follow_alike hinst hnext _ _
          { htraced with store := hst.1, threads := hst.2 }
      | error e hst =>
        exact .error _
          { htraced with store := hst.1, threads := hst.2, machine := htraced.machine.resume hat }
      | excused hexcused s => exact .excused hexcused _ _

variable {host : Host H σ} {v w : Invoker H σ}

/-- Functions of the embedder do the same to stores with instances that differ in their settings
only, with these ways to invoke functions. -/
def Host.CallsAlike (host : Host H σ) (l : Leeway) (v w : Invoker H σ) : Prop :=
  ∀ c d, HostCall.Alike l c d → Together (Store.Alike l) Eq (host.call v c) (host.call w d)

variable (hhost : host.CallsAlike l v w) (hfilled : host.CallsAlike l.filled v w)

include hhost hfilled

/-- The embedder's function does the same for both runs. -/
theorem Run.performHostCall_alike {c d : HostCall H} (hcall : c.Alike l d) :
    Run.Alike l inst.config.trace Eq (Run.performHostCall host v inst c)
      (Run.performHostCall host w inst' d) := by
  rintro ⟨store, thread, machine⟩ ⟨store', thread', machine'⟩ hst
  have hcall' : c.Alike l.filled d :=
    ⟨hcall.code_eq, hcall.type_eq, hcall.args_eq, hcall.memory_eq, hcall.depth_eq, hcall.maxDepth⟩
  have hcalled := TogetherUnless.threads (X := fun _ => False)
    (fun s t hst => (hhost c d hcall s t hst).unless)
    (fun s t hst => (hfilled c d hcall' s t hst).unless) hst.store hst.threads
  simp only [Run.performHostCall]
  simp only at hcalled
  generalize host.call v c store = r at hcalled ⊢
  generalize host.call w d store' = q at hcalled ⊢
  cases hcalled with
  | excused hexcused => exact hexcused.elim
  -- A function that fails may have written its result already; both machines keep the word.
  | error failure hended =>
    rw [← hcall.type_eq]
    exact .error _
      { hst with
        store := hended.1, threads := hended.2
        machine := hst.machine.keepWritten c.type failure.written }
  | @ok written _ u u' heq hended =>
    subst heq
    have hclosed : State.Alike l inst.config.trace ⟨u, thread, machine⟩ ⟨u', thread', machine'⟩ :=
      { hst with store := hended.1, threads := hended.2 }
    have htraced := hclosed.traced hinst.config rfl Thread.tells_leave
    simp only
    generalize Run.traced inst.config _ _ = x at htraced ⊢
    generalize Run.traced inst'.config _ _ = y at htraced ⊢
    obtain ⟨u, thread, machine⟩ := x
    obtain ⟨u', thread', machine'⟩ := y
    have hfinished := htraced.machine.finishHostCall hinst.config c.type written
    simp only [← hcall.type_eq]
    simp only at hfinished
    generalize machine.finishHostCall _ _ _ = m at hfinished ⊢
    generalize machine'.finishHostCall _ _ _ = n at hfinished ⊢
    cases hfinished with
    | ok hmn => exact .ok rfl { htraced with machine := hmn }
    | error stop =>
      exact .error _ { htraced with machine := htraced.machine.keepWritten c.type written }
    | excused hexcused => exact .excused hexcused _ _

/-- Both machines run to the same end. -/
theorem Run.runFrom_alike (fuel : Nat) {next next' : Progress H} (hnext : next.Alike l next') :
    Run.Alike l inst.config.trace Eq (Run.runFrom host v inst fuel next)
      (Run.runFrom host w inst' fuel next') := by
  induction fuel generalizing next next' with
  | zero =>
    cases hnext with
    | done => exact togetherUnless_pure rfl
    | more => exact togetherUnless_throw _
    | host => exact togetherUnless_throw _
  | succ fuel ih =>
    cases hnext with
    | done => exact togetherUnless_pure rfl
    | more => exact (Run.advance_alike hinst).bind fun _ _ hnext => ih hnext
    | host hcall =>
      exact (Run.performHostCall_alike hinst hhost hfilled hcall).andThen fun _ => ih .more

/-- The same call of both instances runs to the same end, unless the stacks of the first one are too
small. -/
theorem Instance.runFunction_alike (fuel : Nat) (function : UInt32) (args : List UInt64) :
    Run.Alike l inst.config.trace Eq (inst.runFunction host v fuel function args)
      (inst'.runFunction host w fuel function args) := by
  have hrest : Run.Alike l inst.config.trace Eq (do
      modify fun s => { s with machine.outer := args.reverse }
      let next ← Run.call inst function
      Run.runFrom host v inst fuel next : Run H σ Unit) (do
      modify fun s => { s with machine.outer := args.reverse }
      let next ← Run.call inst' function
      Run.runFrom host w inst' fuel next : Run H σ Unit) :=
    (Run.modify_alike (f := fun m => { m with outer := args.reverse })
      (g := fun m => { m with outer := args.reverse })
      fun _ _ hmn => ⟨hmn.frames, rfl, hmn.slot_eq⟩).andThen fun _ =>
      (Run.call_alike hinst function).bind fun _ _ hnext =>
        Run.runFrom_alike hinst hhost hfilled fuel hnext
  unfold Instance.runFunction
  by_cases hfull : inst.config.maxOperandStack < args.length
  · rcases hinst.config.operandStack with heq | ⟨hlarger, -⟩
    · rw [← heq]
      simp only [if_pos hfull]
      exact (togetherUnless_throw _).andThen fun _ => hrest
    · simp only [if_pos hfull]
      exact fun _ _ _ => .excused ⟨hlarger, .inr rfl⟩ _ _
  · have hfull' : ¬ inst'.config.maxOperandStack < args.length := by
      rcases hinst.config.operandStack with heq | ⟨-, hle⟩
      · rwa [← heq]
      · omega
    simp only [if_neg hfull, if_neg hfull']
    exact hrest

omit hhost hfilled in
/-- Two runs begin alike. -/
theorem Instance.newThread_alike {store store' : Store H σ} (hst : store.Alike l store')
    (slot : UInt64) :
    State.Alike l inst.config.trace ⟨store, inst.newThread, { slot }⟩
      ⟨store', inst'.newThread, { slot }⟩ := by
  refine ⟨hst, ?_, by rw [hinst.eq]; rfl, rfl, ?_, .refl l [] slot⟩
  · cases hwatch : l.watch with
    | free => trivial
    | full k place => trivial
    | cut k place =>
      have htrace := hinst.config.trace_eq (by simp [hwatch])
      exact fun _ => .inl ⟨by simp only [newThread, Thread.new, htrace], rfl⟩
  · simp only [newThread, Thread.new]
    cases hinst.config.limits with
    | same hcalls => exact .inl (by rw [hcalls])
    | larger hlarger hpositive hcalls =>
      have hleft : ¬ inst.config.maxCallDepth ≤ 0 := by omega
      have hright : ¬ inst'.config.maxCallDepth ≤ 0 := by omega
      simp only [if_neg hleft, if_neg hright]
      exact .inr ⟨hlarger, hcalls⟩

omit hinst hhost hfilled in
/-- A call stops where larger stacks may let it go on, and this is reported as a given trap. -/
def Instance.Exhausts (inst : Instance H) (l : Leeway) (host : Host H σ) (v : Invoker H σ)
    (fuel : Nat) (function : UInt32) (args : List UInt64) (s : Store H σ) (e : TrapError) : Prop :=
  ∃ stop u, inst.runFunction host v fuel function args
    ⟨s, inst.newThread, { slot := inst.idle.getD 0 }⟩ = .error stop u ∧ l.Excuses stop ∧
    trapOf stop u.machine.place? = .ok e

omit hinst hhost hfilled in
/-- A stop that is excused is reported as a trap. -/
theorem Leeway.Excuses.trapOf {stop : Stop} (hexcused : l.Excuses stop)
    (place : Option (Int × Int)) : ∃ e, Instance.trapOf stop place = .ok e := by
  unfold Instance.trapOf
  rcases hexcused.2 with hstop | hstop <;> simp [hstop]

/-- The same call of both instances on machines with the same word in the result slot ends alike. -/
theorem Instance.callOn_alike {fuel : Nat} {function : UInt32} {args : List UInt64} {slot : UInt64}
    {s t : Store H σ} (hst : s.Alike l t)
    (hexcused : ∀ stop u, inst.runFunction host v fuel function args ⟨s, inst.newThread, { slot }⟩ =
      .error stop u → ¬ l.Excuses stop) :
    (inst.callOn host v fuel function args slot s).1 =
      (inst'.callOn host w fuel function args slot t).1 ∧
      (inst.callOn host v fuel function args slot s).2.Alike l
        (inst'.callOn host w fuel function args slot t).2 := by
  have hends := (Instance.runFunction_alike hinst hhost hfilled fuel function args _ _
    (newThread_alike hinst hst slot)).never hexcused
  unfold callOn
  rcases hends.cases with ⟨_, _, u, u', hu, hu', -, hended⟩ | ⟨stop, u, u', hu, hu', hended⟩
  · simp only [hu, hu']
    have hclosed := hended.traced hinst.config rfl Thread.tells_close
    exact ⟨by rw [hclosed.machine.operands_eq, hclosed.machine.slot_eq], hclosed.store⟩
  · simp only [hu, hu', hended.machine.place?_eq]
    cases trapOf stop u'.machine.place? with
    | error crash => exact ⟨rfl, hended.store⟩
    | ok e =>
      have hclosed := (hended.traced hinst.config rfl (Thread.tells_trapped e.trap e.ip)).traced
        hinst.config rfl Thread.tells_close
      exact ⟨by simp only [hclosed.machine.slot_eq], hclosed.store.count hinst.config _⟩

/-- The same call of both instances ends alike, or it traps in the first one, whose stacks may be
too small. -/
theorem Instance.call_alike (fuel : Nat) (function : UInt32) (args : List UInt64) {s t : Store H σ}
    (hst : s.Alike l t) :
    ((inst.call host v fuel function args s).1 = (inst'.call host w fuel function args t).1 ∧
        (inst.call host v fuel function args s).2.Alike l
          (inst'.call host w fuel function args t).2) ∨
      ∃ e, inst.Exhausts l host v fuel function args s e ∧
        (inst.call host v fuel function args s).1.outcome = .error (.trapped e) := by
  have hon : ((inst.callOn host v fuel function args (inst.idle.getD 0) s).1 =
          (inst'.callOn host w fuel function args (inst.idle.getD 0) t).1 ∧
        (inst.callOn host v fuel function args (inst.idle.getD 0) s).2.Alike l
          (inst'.callOn host w fuel function args (inst.idle.getD 0) t).2) ∨
      ∃ e, inst.Exhausts l host v fuel function args s e ∧
        (inst.callOn host v fuel function args (inst.idle.getD 0) s).1.outcome =
          .error (.trapped e) := by
    by_cases hexcused : ∀ stop u, inst.runFunction host v fuel function args
        ⟨s, inst.newThread, { slot := inst.idle.getD 0 }⟩ = .error stop u → ¬ l.Excuses stop
    · exact .inl (callOn_alike hinst hhost hfilled hst hexcused)
    · simp only [not_forall, not_not] at hexcused
      obtain ⟨stop, u, herror, hexcused⟩ := hexcused
      obtain ⟨e, htrap⟩ := hexcused.trapOf u.machine.place?
      exact .inr ⟨e, ⟨stop, u, herror, hexcused, htrap⟩, by simp only [callOn, herror, htrap]⟩
  have hidle : inst'.idle = inst.idle := by rw [hinst.eq]
  unfold call
  rw [hidle, ← hinst.config.stacksFit_eq]
  cases hslot : inst.idle with
  | some slot =>
    rw [hslot] at hon
    exact hon
  | none =>
    rw [hslot] at hon
    cases inst.config.stacksFit with
    | true => exact hon
    | false => exact .inl ⟨rfl, hst⟩

end

/-! ## Invocations -/

section

variable {l : Leeway} {host : Host H σ}

/-- The arguments are checked against the same signature. -/
theorem Instance.Alike.prepare_eq {inst inst' : Instance H} (hinst : inst.Alike l inst')
    (name : String) (args : List Value) : inst.prepare name args = inst'.prepare name args := by
  rw [hinst.eq]
  rfl

/-- An invocation of an instance traps where larger stacks may let it go on. -/
def Engine.Exhausts (host : Host H σ) (l : Leeway) (fuel nesting address : Nat) (name : String)
    (args : List Value) (s : Store H σ) : Prop :=
  ∃ inst function type words e s', s.instances[address]? = some inst ∧
    inst.prepare name args = .ok (function, type, words) ∧
    inst.Exhausts l host (invoke host fuel nesting) fuel function words
      ((s.count inst.config Counters.invocation).modifyInstance address ({ · with idle := none }))
      e ∧
    invoke host fuel (nesting + 1) address name args s = .error (.trapped e) s'

/-- An invocation of both instances at a place ends alike, if the functions of the embedder do the
same to both, or it traps in the first one, whose stacks may be too small. -/
theorem Engine.invoke_alike {fuel nesting : Nat}
    (hhost : host.CallsAlike l (invoke host fuel nesting) (invoke host fuel nesting))
    (hfilled : host.CallsAlike l.filled (invoke host fuel nesting) (invoke host fuel nesting))
    (address : Nat) (name : String) (args : List Value) {s t : Store H σ} (hst : s.Alike l t) :
    EndsAlike (Store.Alike l) Eq (invoke host fuel (nesting + 1) address name args s)
        (invoke host fuel (nesting + 1) address name args t) ∨
      Exhausts host l fuel nesting address name args s := by
  have hidle (idle : Option UInt64) {s t : Store H σ} (hst : s.Alike l t) :
      (s.modifyInstance address ({ · with idle })).Alike l
        (t.modifyInstance address ({ · with idle })) :=
    hst.modifyInstance address fun inst inst' hinst => ⟨by rw [hinst.eq], hinst.config⟩
  unfold Exhausts
  -- Neither store has the instance, or both have it.
  rcases hst.instance? address with ⟨hs, ht⟩ | ⟨inst, inst', hs, ht, hinst⟩
  · refine .inl ?_
    unfold invoke
    simp only [hs, ht]
    exact ⟨rfl, hst⟩
  cases hprepare : inst.prepare name args with
  | error e =>
    refine .inl ?_
    unfold invoke
    simp only [hs, ht, ← hinst.prepare_eq, hprepare]
    exact ⟨rfl, hst⟩
  | ok call =>
    obtain ⟨function, type, words⟩ := call
    rcases Instance.call_alike hinst hhost hfilled fuel function words
      (hidle none (hst.count hinst.config Counters.invocation)) with hcalled |
      ⟨e, hexhausts, houtcome⟩
    · refine .inl ?_
      unfold invoke
      simp only [hs, ht, ← hinst.prepare_eq, hprepare]
      -- The calls are compared by `Instance.call_alike` alone; how they ran is forgotten here.
      generalize inst.call host _ fuel function words _ = left at hcalled ⊢
      generalize inst'.call host _ fuel function words _ = right at hcalled ⊢
      obtain ⟨⟨outcome, slot⟩, s'⟩ := left
      obtain ⟨⟨outcome', slot'⟩, t'⟩ := right
      obtain ⟨hended, hst'⟩ := hcalled
      obtain ⟨rfl, rfl⟩ := Instance.CallEnd.mk.inj hended
      cases slot with
      | none => cases outcome <;> exact ⟨rfl, hst'⟩
      | some slot => cases outcome <;> exact ⟨rfl, hidle (some slot) hst'⟩
    · refine .inr ⟨inst, function, type, words, e, ?_⟩
      unfold invoke
      simp only [hs, hprepare, houtcome]
      exact ⟨_, trivial, trivial, hexhausts, rfl⟩

end

end IntWasm
