import IntWasm.Proofs.Structured.Simulation

/-!
# Executions and machines

An execution of structured code and a machine stand for each other if their frames and activations
do, one by one. Below the first activation a frame without code receives the results. Each
activation was entered only because the most that it needs fits on the stacks, so none of its
instructions runs out of them. Main statements: `Mirrors.advance` and `Calls.perform`, what one step
of a machine comes to, and `Reaches.run`, what a whole run comes to.
-/

namespace IntWasm

/-! ## Threads -/

/-- Writing a trace changes nothing of a thread but the failure that it has met. -/
theorem Thread.emit_eq (t : Thread) (e : TraceEntry) (out : Sink) :
    ∃ fault, (t.emit e out).1 = { t with fault } := by
  unfold emit
  split
  · split
    · exact ⟨t.fault, rfl⟩
    · exact ⟨_, rfl⟩
  · exact ⟨t.fault, rfl⟩

/-- What a thread knows of a run with `n` open functions. -/
structure Thread.Attends {H : Type} (t : Thread) (inst : Instance H) (n : Nat) : Prop where
  depth_eq : t.depth = n
  memory_eq : t.memory = inst.memory
  maxDepth_eq : t.maxDepth = inst.newThread.maxDepth

section

variable {H σ : Type} {inst : Instance H} {t : Thread} {n : Nat}

/-- Noting an instruction does not change what is attended to. -/
theorem Thread.Attends.instruction (hattends : t.Attends inst n) (ip : Int) (i : Instruction)
    (height : Int) (out : Sink) : (t.instruction ip i height out).1.Attends inst n := by
  obtain ⟨fault, hfault⟩ := t.emit_eq (.instruction ip i height) out
  rw [Thread.instruction, hfault]
  exact ⟨hattends.depth_eq, hattends.memory_eq, hattends.maxDepth_eq⟩

/-- A function that is opened is attended to as well. -/
theorem Thread.Attends.opened (hattends : t.Attends inst n) (name : String) (function : UInt32)
    (type : FuncType) (out : Sink) :
    (t.opened name function type out).1.Attends inst (n + 1) := by
  obtain ⟨fault, hfault⟩ := Thread.emit_eq { t with depth := t.depth + 1 }
    (.enter (Text.utf8 name) function type) out
  rw [Thread.opened, hfault]
  exact ⟨by simp [hattends.depth_eq], hattends.memory_eq, hattends.maxDepth_eq⟩

/-- The function that is left is no longer attended to. -/
theorem Thread.Attends.leave (hattends : t.Attends inst (n + 1)) (out : Sink) :
    (t.leave out).1.Attends inst n := by
  obtain ⟨fault, hfault⟩ := Thread.emit_eq { t with depth := t.depth - 1 } .leave out
  rw [Thread.leave, hfault]
  exact ⟨by simp [hattends.depth_eq], hattends.memory_eq, hattends.maxDepth_eq⟩

/-- Tracing changes the thread as it does and of the store the traces only. -/
theorem Run.traced_eq (config : Config) (s : State H σ) (act : Thread → Sink → Thread × Sink) :
    ∃ traces out, Run.traced config s act =
      { s with store := { s.store with traces }, thread := (act s.thread out).1 } := by
  obtain ⟨store, thread, machine⟩ := s
  simp only [Run.traced]
  cases config.trace with
  | none => exact ⟨store.traces, {}, rfl⟩
  | some address => exact ⟨_, _, rfl⟩

end

/-- What comes of an instruction of the activation `f`, once it has been carried out: the machine is
left with an activation that has moved on, or does what the instruction asks for. -/
def Run.carriedOut {H σ : Type} (inst : Instance H) (f : Activation) (s : State H σ) :
    EStateM.Result Stop (Store H σ) Next → EStateM.Result Stop (State H σ) (Progress H)
  | .error stop store =>
    .error stop { s with store, machine := s.machine.resume { f with ip := f.ip + 1 } }
  | .ok next store => Run.follow inst next { s with store }

section

variable {H σ : Type} {inst : Instance H} {f : Activation} {callers : List Activation}
  {store store' : Store H σ} {thread : Thread} {outer : List UInt64} {slot : UInt64}
  {i : Instruction} {s : State H σ}

/-- Whatever an instruction asks for, its activation is replaced or left. -/
theorem Run.follow_resume (next : Next) (g : Activation) :
    Run.follow inst next { s with machine := s.machine.resume g } = Run.follow inst next s := by
  cases next <;> rfl

/-- Past its last instruction an activation stops the machine, which is left as it was. -/
theorem Run.advance_of_none (hat : f.function.body.instructions[f.ip]? = none) :
    Run.advance inst (⟨store, thread, ⟨f :: callers, outer, slot⟩⟩ : State H σ) =
      .error .outOfRange ⟨store, thread, ⟨f :: callers, outer, slot⟩⟩ := by
  rw [Run.advance, hat]

/-- The instruction at the place is noted and carried out. -/
theorem Run.advance_of_some (hat : f.function.body.instructions[f.ip]? = some i)
    (htraced : Run.traced inst.config ⟨store, thread, ⟨f :: callers, outer, slot⟩⟩
      (·.instruction f.ip i f.operands.length) = s) :
    Run.advance inst ⟨store, thread, ⟨f :: callers, outer, slot⟩⟩ =
      Run.carriedOut inst f s (Activation.step inst { f with ip := f.ip + 1 } i s.store) := by
  obtain ⟨store₁, thread₁, machine₁⟩ := s
  rw [Run.advance]
  -- Any step will do. To look its opcode up the kernel would have to build the table of opcodes.
  generalize Activation.step inst { f with ip := f.ip + 1 } = step
  as_aux_lemma =>
    simp only [hat, htraced]
    cases step i store₁ with
    | error => rfl
    | ok next store₂ => exact Run.follow_resume (s := ⟨store₂, thread₁, machine₁⟩) next _

/-- An instruction that stops the machine leaves the advanced activation on it. -/
theorem Run.advance_of_error (hat : f.function.body.instructions[f.ip]? = some i)
    (htraced : Run.traced inst.config ⟨store, thread, ⟨f :: callers, outer, slot⟩⟩
      (·.instruction f.ip i f.operands.length) = s) {stop : Stop}
    (hstep : Activation.step inst { f with ip := f.ip + 1 } i s.store = .error stop store') :
    Run.advance inst ⟨store, thread, ⟨f :: callers, outer, slot⟩⟩ = .error stop
      { s with store := store', machine := s.machine.resume { f with ip := f.ip + 1 } } := by
  rw [Run.advance_of_some hat htraced, hstep]
  rfl

/-- What an instruction says comes next is done with its activation put back. -/
theorem Run.advance_of_ok (hat : f.function.body.instructions[f.ip]? = some i)
    (htraced : Run.traced inst.config ⟨store, thread, ⟨f :: callers, outer, slot⟩⟩
      (·.instruction f.ip i f.operands.length) = s) {next : Next}
    (hstep : Activation.step inst { f with ip := f.ip + 1 } i s.store = .ok next store') :
    Run.advance inst ⟨store, thread, ⟨f :: callers, outer, slot⟩⟩ =
      Run.follow inst next { s with store := store' } := by
  rw [Run.advance_of_some hat htraced, hstep]
  rfl

end

/-- The states that a call of a function goes through, each with what is done next in it: an
instruction of the innermost activation, or a function of the embedder. -/
inductive Instance.Visits {H σ : Type} (inst : Instance H) (host : Host H σ) (invoker : Invoker H σ)
    (function : UInt32) (args : List UInt64) (store : Store H σ) (slot : UInt64) :
    Progress H → State H σ → Prop
  | start {next s} (hroom : ¬ inst.config.maxOperandStack < args.length)
      (hcall : Run.call inst function
        ⟨store, inst.newThread, { outer := args.reverse, slot }⟩ = .ok next s) :
    Visits inst host invoker function args store slot next s
  | advance {s next s'} (hvisits : Visits inst host invoker function args store slot .more s)
      (hadvance : Run.advance inst s = .ok next s') :
    Visits inst host invoker function args store slot next s'
  | perform {c s s'} (hvisits : Visits inst host invoker function args store slot (.host c) s)
      (hperform : Run.performHostCall host invoker inst c s = .ok () s') :
    Visits inst host invoker function args store slot .more s'

/-- A call that ends early has stopped in one of the states that it goes through, unless it was
stopped from outside. -/
theorem Instance.Visits.exists_stop {H σ : Type} {inst : Instance H} {host : Host H σ}
    {invoker : Invoker H σ} {function : UInt32} {args : List UInt64} {store : Store H σ}
    {slot : UInt64} {fuel : Nat} {next : Progress H} {s s' : State H σ} {stop : Stop}
    (hvisits : inst.Visits host invoker function args store slot next s)
    (herror : Run.runFrom host invoker inst fuel next s = .error stop s') :
    stop = .crash .outOfFuel ∨
    (∃ t, inst.Visits host invoker function args store slot .more t ∧
      Run.advance inst t = .error stop s') ∨
    ∃ c t, inst.Visits host invoker function args store slot (.host c) t ∧
      Run.performHostCall host invoker inst c t = .error stop s' := by
  induction fuel generalizing next s with
  | zero =>
    cases next with
    | done => cases herror
    | more | host =>
      obtain ⟨rfl, -⟩ := EStateM.Result.error.inj herror
      exact .inl rfl
  | succ fuel ih =>
    cases next with
    | done => cases herror
    | more =>
      simp only [Run.runFrom, bind, EStateM.bind] at herror
      cases hresult : Run.advance inst s with
      | ok next' s₁ =>
        rw [hresult] at herror
        exact ih (hvisits.advance hresult) herror
      | error h' s₁ =>
        rw [hresult] at herror
        obtain ⟨rfl, rfl⟩ := EStateM.Result.error.inj herror
        exact .inr (.inl ⟨s, hvisits, hresult⟩)
    | host c =>
      simp only [Run.runFrom, bind, EStateM.bind] at herror
      cases hresult : Run.performHostCall host invoker inst c s with
      | ok _ s₁ =>
        rw [hresult] at herror
        exact ih (hvisits.perform hresult) herror
      | error h' s₁ =>
        rw [hresult] at herror
        obtain ⟨rfl, rfl⟩ := EStateM.Result.error.inj herror
        exact .inr (.inr ⟨c, s, hvisits, hresult⟩)

/-- A call that does not stop goes through all of its states. -/
theorem Instance.Visits.done {H σ : Type} {inst : Instance H} {host : Host H σ}
    {invoker : Invoker H σ} {function : UInt32} {args : List UInt64} {store : Store H σ}
    {slot : UInt64} {fuel : Nat} {next : Progress H} {s s' : State H σ} {u : Unit}
    (hvisits : inst.Visits host invoker function args store slot next s)
    (hok : Run.runFrom host invoker inst fuel next s = .ok u s') :
    inst.Visits host invoker function args store slot .done s' := by
  induction fuel generalizing next s with
  | zero =>
    cases next with
    | done =>
      obtain ⟨-, rfl⟩ := EStateM.Result.ok.inj hok
      exact hvisits
    | more | host => cases hok
  | succ fuel ih =>
    cases next with
    | done =>
      obtain ⟨-, rfl⟩ := EStateM.Result.ok.inj hok
      exact hvisits
    | more =>
      simp only [Run.runFrom, estate_bind_eq_ok] at hok
      obtain ⟨next, t, hadvance, hok⟩ := hok
      exact ih (hvisits.advance hadvance) hok
    | host c =>
      simp only [Run.runFrom, estate_bind_eq_ok] at hok
      obtain ⟨_, t, hperform, hok⟩ := hok
      exact ih (hvisits.perform hperform) hok

/-- A run that ends has visited its end. -/
theorem Instance.runFunction_ok {H σ : Type} {inst : Instance H} {host : Host H σ}
    {invoker : Invoker H σ} {function : UInt32} {args : List UInt64} {store : Store H σ}
    {slot : UInt64} {fuel : Nat} {s' : State H σ} {u : Unit}
    (hok : inst.runFunction host invoker fuel function args
      ⟨store, inst.newThread, { slot }⟩ = .ok u s') :
    inst.Visits host invoker function args store slot .done s' := by
  unfold Instance.runFunction at hok
  by_cases hroom : inst.config.maxOperandStack < args.length
  · simp only [hroom, if_true, bind, EStateM.bind, estate_throw] at hok
    cases hok
  · simp only [hroom, if_false, estate_bind_eq_ok, estate_modify_eq_ok] at hok
    obtain ⟨_, _, rfl, next, s, hcall, hok⟩ := hok
    exact Visits.done (.start hroom hcall) hok

/-- A call is stopped at its beginning or in one of the states that it goes through. -/
theorem Instance.runFunction_error {H σ : Type} {inst : Instance H} {host : Host H σ}
    {invoker : Invoker H σ} {function : UInt32} {args : List UInt64} {store : Store H σ}
    {slot : UInt64} {fuel : Nat} {s' : State H σ} {stop : Stop}
    (herror : inst.runFunction host invoker fuel function args
      ⟨store, inst.newThread, { slot }⟩ = .error stop s') :
    inst.config.maxOperandStack < args.length ∧ stop = .trap .stackExhausted ∨
    ¬ inst.config.maxOperandStack < args.length ∧ Run.call inst function
      ⟨store, inst.newThread, { outer := args.reverse, slot }⟩ = .error stop s' ∨
    stop = .crash .outOfFuel ∨
    (∃ t, inst.Visits host invoker function args store slot .more t ∧
      Run.advance inst t = .error stop s') ∨
    ∃ c t, inst.Visits host invoker function args store slot (.host c) t ∧
      Run.performHostCall host invoker inst c t = .error stop s' := by
  unfold Instance.runFunction at herror
  by_cases hroom : inst.config.maxOperandStack < args.length
  · simp only [hroom, if_true, bind, EStateM.bind, estate_throw] at herror
    obtain ⟨rfl, -⟩ := EStateM.Result.error.inj herror
    exact .inl ⟨hroom, rfl⟩
  · simp only [hroom, if_false, bind, EStateM.bind, estate_modify] at herror
    cases hresult : Run.call inst function
        ⟨store, inst.newThread, { outer := args.reverse, slot }⟩ with
    | ok next s =>
      rw [hresult] at herror
      exact .inr (.inr (Instance.Visits.exists_stop (.start hroom hresult) herror))
    | error h' s =>
      rw [hresult] at herror
      obtain ⟨rfl, rfl⟩ := EStateM.Result.error.inj herror
      exact .inr (.inl ⟨hroom, rfl⟩)

namespace Structured

open Body

variable {H σ : Type}

/-! ## Stacks of activations -/

/-- An activation lies on top of a machine, and the most that it needs fits on the stacks. -/
structure Seated (config : Config) (f : Activation) (below : Machine) : Prop where
  base_eq : f.base = below.height
  labelsBelow_eq : f.labelsBelow = below.labelCount
  callers_eq : f.callers = below.depth
  stack_le : f.base + f.function.locals + f.function.body.metrics.maxStack ≤ config.maxOperandStack
  nesting_le : (f.labelsBelow + f.function.body.metrics.maxNesting : Int) ≤ config.maxControlDepth
  callers_lt : (f.callers : Int) < config.maxCallDepth

/-- Frames stand for the activations of a machine, of which the innermost goes on with `pending`
more operands. In the end `count` results are left below the first activation. -/
inductive Stacked (m : Module) (inst : Instance H) (count : Nat) (outer : List UInt64) :
    (pending : Nat) → List Frame → List Activation → Prop
  | outermost {pending frame} (hcode : frame.code = .done) (hblocks : frame.blocks = [])
      (hoperands : frame.operands = outer) (hcount : pending + outer.length = count) :
    Stacked m inst count outer pending [frame] []
  | activation {pending frame frames f fs} (hrep : Represents m inst pending frame f)
      (hseated : Seated inst.config f { frames := fs, outer })
      (hrest : Stacked m inst count outer f.function.type.results.length frames fs) :
    Stacked m inst count outer pending (frame :: frames) (f :: fs)

section

variable {m : Module} {inst : Instance H} {count pending : Nat} {outer : List UInt64}
  {frames : List Frame} {fs : List Activation}

/-- There is one activation more than callers. -/
theorem Stacked.length_eq (hstacked : Stacked m inst count outer pending frames fs) :
    frames.length = fs.length + 1 := by
  induction hstacked with
  | outermost => rfl
  | activation _ _ _ ih => simp [ih]

/-- The innermost frame stands for the innermost activation. -/
theorem Stacked.represents {frame : Frame} {f : Activation}
    (hstacked : Stacked m inst count outer pending (frame :: frames) (f :: fs)) :
    Represents m inst pending frame f ∧ Seated inst.config f { frames := fs, outer } := by
  cases hstacked with
  | activation hrep hseated _ => exact ⟨hrep, hseated⟩

/-- The number of operands of an activation is bounded by its function. -/
theorem Represents.length_le {frame : Frame} {f : Activation}
    (hrep : Represents m inst pending frame f) :
    f.operands.length + pending ≤ f.function.body.metrics.maxStack := by
  obtain ⟨c, height, last, count, below, hstands⟩ := hrep
  have hfits := hstands.placed.fits
  have hbelow := hstands.within.length_below
  rw [hstands.operands_eq, List.length_append]
  omega

/-- An activation has no more labels than its body nests. -/
theorem Represents.labels_le {frame : Frame} {f : Activation}
    (hrep : Represents m inst pending frame f) :
    f.labels.length ≤ f.function.body.metrics.maxNesting := by
  obtain ⟨c, height, last, count, below, hstands⟩ := hrep
  exact hstands.within.nesting_le

/-- The body's operands have room. -/
theorem Represents.room_ge {frame : Frame} {f : Activation}
    (hrep : Represents m inst pending frame f) :
    f.function.body.metrics.maxStack ≤ f.room := by
  obtain ⟨c, height, last, count, below, hstands⟩ := hrep
  exact hstands.room_ge

/-- An activation has the locals of its function. -/
theorem Represents.size_eq {frame : Frame} {f : Activation}
    (hrep : Represents m inst pending frame f) : f.locals.size = f.function.locals := by
  obtain ⟨c, height, last, count, below, hstands⟩ := hrep
  exact hstands.size_eq

/-- There is at least nothing on the operand stack. -/
theorem Stacked.height_nonneg (hstacked : Stacked m inst count outer pending frames fs)
    (slot : UInt64) : 0 ≤ Machine.height ⟨fs, outer, slot⟩ := by
  cases hstacked with
  | outermost => exact Int.natCast_nonneg _
  | activation hrep _ _ =>
    obtain ⟨c, height, last, count, below, hstands⟩ := hrep
    have hbase := hstands.base_nonneg
    simp only [Machine.height, Activation.height]
    omega

/-- What is on the stacks of a machine fits on them. -/
structure Fits (config : Config) (machine : Machine) : Prop where
  height_nonneg : 0 ≤ machine.height
  height_le : machine.height ≤ config.maxOperandStack
  labelCount_le : (machine.labelCount : Int) ≤ config.maxControlDepth
  depth_le : (machine.depth : Int) ≤ config.maxCallDepth

end

/-! ## Executions in step with machines -/

/-- The functions of an instance are those of a module, with the code that they were written as. -/
structure Realizes (p : Setting H σ) (m : Module) : Prop where
  function : ∀ {i : Nat} {fn : Function}, p.inst.functions[i]? = some fn → ∃ code locals result,
    p.codes[i]? = some code ∧ Lays fn.body (m.scope locals) result code ∧
    Links (m.scope locals) p.inst fn ∧ fn.type.results.length = result.toList.length ∧
    fn.type.params.length ≤ fn.locals
  results_le : ∀ {i : Nat} {f : ImportedFunction H}, p.inst.imports[i]? = some f →
    f.type.results.length ≤ 1

/-- An execution and a machine between two instructions. -/
structure Mirrors (p : Setting H σ) (m : Module) (count : Nat) (e : Execution H σ) (s : State H σ) :
    Prop where
  stacked : Stacked m p.inst count s.machine.outer 0 (e.frame :: e.callers) s.machine.frames
  slot_eq : e.slot = s.machine.slot
  store_eq : e.store = s.store
  attends : s.thread.Attends p.inst s.machine.frames.length

/-- An execution calls a function that the machine calls. -/
structure Asks (p : Setting H σ) (m : Module) (count : Nat) (e : Execution H σ) (s : State H σ)
    (frame : Frame) (function : UInt32) (args : List UInt64) (type : FuncType) (store : Store H σ)
    (rest : List UInt64) : Prop where
  next_eq : e.frame.next p.inst e.store = some (.call frame function args, store)
  signature_eq : p.inst.signature? function = some type
  length_args : args.length = type.params.length
  operands_eq : s.machine.operands = args.reverse ++ rest
  height_le : s.machine.height ≤ p.inst.config.maxOperandStack
  stacked : Stacked m p.inst count (s.machine.setOperands rest).outer type.results.length
    (frame :: e.callers) (s.machine.setOperands rest).frames
  slot_eq : e.slot = s.machine.slot
  store_eq : ∃ traces counters, s.store = { store with traces, counters }

/-- An execution and a machine before a function of the embedder is performed. -/
def Calls (p : Setting H σ) (m : Module) (count : Nat) (e : Execution H σ) (c : HostCall H)
    (s : State H σ) : Prop :=
  ∃ frame function args f store rest, Asks p m count e s frame function args f.type store rest ∧
    p.inst.imports[function.toNat]? = some f ∧ f.type.results.length ≤ 1 ∧
    c = e.hostCall p f args ∧ s.thread.Attends p.inst (s.machine.frames.length + 1)

/-- An execution and a machine that goes on in a given way. -/
def Reaches (p : Setting H σ) (m : Module) (count : Nat) (e : Execution H σ) (s : State H σ) :
    Progress H → Prop
  | .done => Mirrors p m count e s ∧ s.machine.frames = []
  | .more => Mirrors p m count e s
  | .host c => Calls p m count e c s

/-- Why a machine that stands for an execution stops: a stack is full, a loop with a result ends,
the execution fails too, or the store lacks something that the module relies on. -/
inductive Stops (p : Setting H σ) (m : Module) (e : Execution H σ) (s : State H σ) (stop : Stop)
    (store : Store H σ) : Prop
  | exhausted (hstop : stop = .trap .stackExhausted)
  | mismatch {f} (hstop : stop = .trap .heightMismatch) (hframe : s.machine.frames.head? = some f)
      (hends : EndsLoop f.function.body f.ip)
  | fails {e'} (hsteps : Steps p e e') (hfails : Fails p e' stop store)
  | unsupported (hstop : ∀ t, stop ≠ .trap t) (hstop' : ∀ t, stop ≠ .host t)
      (hlacks : ∃ traces, ¬ Supports m p.inst { s.store with traces })

/-- What a step of a machine that stands for an execution comes to. -/
def Proceeds (p : Setting H σ) (m : Module) (count : Nat) (e : Execution H σ) (s : State H σ) :
    EStateM.Result Stop (State H σ) (Progress H) → Prop
  | .ok next s' => ∃ e', Steps p e e' ∧ Reaches p m count e' s' next
  | .error stop s' => Stops p m e s stop s'.store

/-- A function that is entered stands for the frame at its beginning. -/
theorem represents_start {m : Module} {inst : Instance H} {fn : Function} {code : Code}
    {locals : List LocalGroup} {result : BlockType}
    (hlays : Lays fn.body (m.scope locals) result code) (hlinks : Links (m.scope locals) inst fn)
    (hresults : fn.type.results.length = result.toList.length) {args : List UInt64}
    (hargs : args.length ≤ fn.locals) {f : Activation} (hfunction : f.function = fn)
    (hip : f.ip = 0) (hoperands : f.operands = [])
    (hlocals : f.locals = (args ++ List.replicate (fn.locals - args.length) 0).toArray)
    {target : Nat} (hlabels : f.labels = [⟨target, 0, fn.type.results.length⟩]) (hbase : 0 ≤ f.base)
    (hroom : fn.body.metrics.maxStack ≤ f.room) : Represents m inst 0 (.start fn code args) f := by
  subst hfunction
  refine ⟨.ofFunction (m.scope locals) result, 0, code.tokens.length, result.toList.length, [], ?_⟩
  refine ⟨⟨locals, rfl⟩, hlinks, hresults, hresults, ?_, ?_, ?_, hlocals, ?_, hbase, hroom⟩
  · rw [hlabels]
    exact .function rfl hlays.close_eq hlays.opener_eq hlays.nesting_pos rfl hresults
  · rw [hip]
    exact hlays.placed
  · rw [hoperands]
    rfl
  · rw [hlocals]
    simp
    omega

/-! ## Calls -/

section

variable {machine : Machine} {args rest : List UInt64}

/-- The operand stack without the arguments of a call. -/
theorem height_setOperands (hoperands : machine.operands = args.reverse ++ rest) :
    (machine.setOperands rest).height = machine.height - args.length := by
  obtain ⟨fs, outer, slot⟩ := machine
  cases fs with
  | nil =>
    simp only [Machine.operands] at hoperands
    simp [Machine.height, Machine.setOperands, hoperands]
  | cons f fs =>
    simp only [Machine.operands] at hoperands
    simp only [Machine.height, Machine.setOperands, Activation.height, hoperands,
      List.length_append, List.length_reverse]
    omega

/-- Replacing operands keeps the labels. -/
theorem labelCount_setOperands : (machine.setOperands rest).labelCount = machine.labelCount := by
  obtain ⟨fs, outer, slot⟩ := machine
  cases fs <;> rfl

/-- Replacing operands keeps the activations. -/
theorem depth_setOperands : (machine.setOperands rest).depth = machine.depth := by
  obtain ⟨fs, outer, slot⟩ := machine
  cases fs <;> rfl

/-- Replacing operands keeps the result slot. -/
theorem slot_setOperands : (machine.setOperands rest).slot = machine.slot := by
  obtain ⟨fs, outer, slot⟩ := machine
  cases fs <;> rfl

/-- Replacing operands keeps the number of activations. -/
theorem length_frames_setOperands :
    (machine.setOperands rest).frames.length = machine.frames.length := by
  obtain ⟨fs, outer, slot⟩ := machine
  cases fs <;> rfl

/-- The arguments of a call are on top of the operands. -/
theorem take_arguments (hoperands : machine.operands = args.reverse ++ rest) :
    (machine.operands.take args.length).reverse = args := by
  have hlength : args.length = args.reverse.length := List.length_reverse.symm
  rw [hoperands, hlength, List.take_left, List.reverse_reverse]

/-- Without its arguments the stack is what lies below. -/
theorem drop_arguments (hoperands : machine.operands = args.reverse ++ rest) :
    machine.operands.drop args.length = rest := by
  have hlength : args.length = args.reverse.length := List.length_reverse.symm
  rw [hoperands, hlength, List.drop_left]

end

section

variable {p : Setting H σ} {m : Module} {count : Nat} {e : Execution H σ} {s s₀ : State H σ}
  {frame : Frame} {function : UInt32} {args rest : List UInt64} {type : FuncType}
  {store : Store H σ}

/-- Only traces and counters may change while a function is called. -/
theorem Asks.traced (hasks : Asks p m count e s frame function args type store rest)
    (traces : Array Sink) (thread : Thread) :
    Asks p m count e { s with store := { s.store with traces }, thread } frame function args type
      store rest :=
  { hasks with
    store_eq := by
      obtain ⟨_, counters, hstore⟩ := hasks.store_eq
      exact ⟨traces, counters, by rw [hstore]⟩ }

/-- The callers are the activations of the machine. -/
theorem Asks.length_callers (hasks : Asks p m count e s frame function args type store rest) :
    e.callers.length = s.machine.frames.length := by
  have hlength := hasks.stacked.length_eq
  rw [length_frames_setOperands] at hlength
  simpa using hlength

/-- A function of the embedder is called. -/
theorem Asks.beginHostCall {f : ImportedFunction H} (hrealizes : Realizes p m)
    (hasks : Asks p m count e s frame function args f.type store rest)
    (hattends : s.thread.Attends p.inst s.machine.frames.length)
    (himport : p.inst.imports[function.toNat]? = some f) :
    Proceeds p m count e s₀ ((Progress.host <$> Run.beginHostCall p.inst function f) s) := by
  have hresults := hrealizes.results_le himport
  have henough : ¬ s.machine.operands.length < f.type.params.length := by
    rw [hasks.operands_eq, List.length_append, List.length_reverse, hasks.length_args]
    omega
  simp only [Run.beginHostCall, Run.openFunction, Functor.map, EStateM.map, bind, EStateM.bind]
  by_cases hfull : s.thread.isFull = true
  · rw [if_pos hfull]
    exact .exhausted rfl
  · rw [if_neg hfull]
    obtain ⟨traces, out, htraced⟩ := Run.traced_eq p.inst.config s
      (·.opened f.moduleName function f.type)
    have hopened := hattends.opened f.moduleName function f.type out
    simp only [htraced, henough, Nat.not_lt.mpr hresults, or_self, if_false]
    refine ⟨e, .refl, frame, function, args, f, store, rest, hasks.traced traces _, himport,
      hresults, ?_, hopened⟩
    have hdepth := hopened.depth_eq
    rw [hopened.memory_eq, hdepth, hopened.maxDepth_eq, ← hasks.length_args,
      take_arguments hasks.operands_eq, Execution.hostCall, hasks.length_callers]
    rfl

/-- The function that is entered lies on top of its caller, and stands for the frame at its
beginning. -/
theorem Asks.stacked_enter {fn : Function} {code : Code} {locals : List LocalGroup}
    {result : BlockType} (hasks : Asks p m count e s frame function args fn.type store rest)
    (hlays : Lays fn.body (m.scope locals) result code) (hlinks : Links (m.scope locals) p.inst fn)
    (hresults : fn.type.results.length = result.toList.length)
    (hparams : fn.type.params.length ≤ fn.locals)
    (hadmits : s.machine.admits p.inst.config fn = true) :
    Stacked m p.inst count (s.machine.enter p.inst.config fn).outer 0
      (.start fn code args :: frame :: e.callers) (s.machine.enter p.inst.config fn).frames := by
  have hargs := hasks.length_args
  have hheight := height_setOperands hasks.operands_eq
  have hnonneg := hasks.stacked.height_nonneg s.machine.slot
  have hbelow : (s.machine.setOperands rest).height = Machine.height
      ⟨(s.machine.setOperands rest).frames, (s.machine.setOperands rest).outer, s.machine.slot⟩ :=
    rfl
  simp only [Machine.admits, Bool.and_eq_true, decide_eq_true_eq] at hadmits
  obtain ⟨⟨hstack, hnesting⟩, hdepth⟩ := hadmits
  simp only [Machine.enter, ← hargs, take_arguments hasks.operands_eq,
    drop_arguments hasks.operands_eq, Nat.sub_self, List.replicate_zero, List.nil_append]
  refine .activation ?_ ?_ hasks.stacked
  · refine represents_start hlays hlinks hresults (hargs.trans_le hparams) rfl rfl rfl rfl rfl ?_ ?_
    · simp only
      omega
    · simp only
      omega
  · refine ⟨hheight.symm, labelCount_setOperands.symm, depth_setOperands.symm, ?_, ?_, hdepth⟩
    · simp only
      omega
    · simpa using hnesting

/-- A function of the instance is called. -/
theorem Asks.enterFunction {fn : Function} (hrealizes : Realizes p m)
    (hasks : Asks p m count e s frame function args fn.type store rest)
    (hattends : s.thread.Attends p.inst s.machine.frames.length)
    (himport : p.inst.imports[function.toNat]? = none)
    (hfunction : p.inst.functions[function.toNat - p.inst.imports.size]? = some fn) :
    Proceeds p m count e s₀
      (((fun _ => Progress.more) <$> Run.enterFunction p.inst fn) s) := by
  obtain ⟨code, locals, result, hcode, hlays, hlinks, hresults, hparams⟩ :=
    hrealizes.function hfunction
  simp only [Run.enterFunction, Functor.map, EStateM.map, bind, EStateM.bind, estate_get]
  by_cases hadmits : s.machine.admits p.inst.config fn = true
  · simp only [hadmits, not_true_eq_false, if_false, EStateM.bind, Run.openFunction]
    by_cases hfull : s.thread.isFull = true
    · rw [if_pos hfull]
      exact .exhausted rfl
    · rw [if_neg hfull]
      obtain ⟨traces, out, htraced⟩ := Run.traced_eq p.inst.config s
        (·.opened p.inst.name fn.index fn.type)
      obtain ⟨_, counters, hstore⟩ := hasks.store_eq
      simp only [htraced, estate_modify]
      have hstep : Step p e
          { e with store, callers := frame :: e.callers, frame := .start fn code args } :=
        .enter hasks.next_eq himport hfunction hcode
      refine ⟨_, .tail (.single hstep) (.observe traces counters), ?_⟩
      refine ⟨hasks.stacked_enter hlays hlinks hresults hparams hadmits, ?_, ?_, ?_⟩
      · rw [hasks.slot_eq, Machine.enter, slot_setOperands]
      · rw [hstore]
      · have hopened := hattends.opened p.inst.name fn.index fn.type out
        simpa [Machine.enter, length_frames_setOperands] using hopened
  · simp only [hadmits]
    exact .exhausted rfl

/-- What calling a function comes to. -/
theorem Asks.call (hrealizes : Realizes p m)
    (hasks : Asks p m count e s frame function args type store rest)
    (hattends : s.thread.Attends p.inst s.machine.frames.length) :
    Proceeds p m count e s₀ (Run.call p.inst function s) := by
  have hsignature := hasks.signature_eq
  unfold Run.call
  unfold Instance.signature? at hsignature
  cases himport : p.inst.imports[function.toNat]? with
  | some f =>
    simp only [himport, Option.some.injEq] at hsignature
    subst hsignature
    exact hasks.beginHostCall hrealizes hattends himport
  | none =>
    simp only [himport, Option.map_eq_some_iff] at hsignature
    obtain ⟨fn, hfunction, rfl⟩ := hsignature
    simp only [hfunction]
    exact hasks.enterFunction hrealizes hattends himport hfunction

end

/-! ## Steps -/

/-- An activation that keeps its function and room is seated as before. -/
theorem Seated.of_keeps {config : Config} {f f' : Activation} {below : Machine}
    (hseated : Seated config f below) (hkeeps : Keeps f f') : Seated config f' below := by
  obtain ⟨hfunction, hbase, -, hlabels, hcallers⟩ := hkeeps
  constructor
  · rw [hbase, hseated.base_eq]
  · rw [hlabels, hseated.labelsBelow_eq]
  · rw [hcallers, hseated.callers_eq]
  · rw [hbase, hfunction]
    exact hseated.stack_le
  · rw [hlabels, hfunction]
    exact hseated.nesting_le
  · rw [hcallers]
    exact hseated.callers_lt

/-- An activation goes on with the operands that it waits for. -/
theorem Represents.resume {m : Module} {inst : Instance H} {frame : Frame} {f : Activation}
    {pending : Nat} (hrep : Represents m inst pending frame f) {results : List UInt64}
    (hlength : results.length = pending) :
    Represents m inst 0 { frame with operands := results ++ frame.operands }
      { f with operands := results ++ f.operands } := by
  obtain ⟨c, height, last, count, below, hstands⟩ := hrep
  refine ⟨c, height, last, count, below, { hstands with placed := ?_, operands_eq := ?_ }⟩
  · have hplaced := hstands.placed
    rwa [← hlength, ← List.length_append, ← Nat.zero_add (results ++ frame.operands).length]
      at hplaced
  · simp only [hstands.operands_eq, List.append_assoc]

/-- A machine goes on with the operands that its innermost activation waits for. -/
theorem Stacked.resume {m : Module} {inst : Instance H} {count pending : Nat} {frame : Frame}
    {frames : List Frame} {machine : Machine}
    (hstacked : Stacked m inst count machine.outer pending (frame :: frames) machine.frames)
    (results : List UInt64) (hlength : results.length = pending) :
    Stacked m inst count (machine.setOperands (results ++ machine.operands)).outer 0
      ({ frame with operands := results ++ frame.operands } :: frames)
      (machine.setOperands (results ++ machine.operands)).frames := by
  obtain ⟨fs, outer, slot⟩ := machine
  cases hstacked with
  | outermost hcode hblocks hoperands hcount =>
    refine .outermost hcode hblocks (by rw [hoperands]; rfl) ?_
    simp only [Machine.setOperands, Machine.operands, List.length_append] at hcount ⊢
    omega
  | activation hrep hseated hrest =>
    refine .activation (hrep.resume hlength) (hseated.of_keeps ?_) hrest
    exact ⟨rfl, rfl, rfl, rfl, rfl⟩

section

variable {p : Setting H σ} {m : Module} {count : Nat} {e : Execution H σ} {s : State H σ}

/-- A frame goes on with another instruction. -/
theorem Mirrors.go {frame frame' : Frame} {frames : List Frame} {f f' : Activation}
    {callers : List Activation} {outer : List UInt64} {thread : Thread} {store store₁ : Store H σ}
    (slot : UInt64) (counters : Counters)
    (hseated : Seated p.inst.config f { frames := callers, outer })
    (hrest : Stacked m p.inst count outer f.function.type.results.length frames callers)
    (hattends : thread.Attends p.inst (callers.length + 1))
    (hnext : frame.next p.inst store = some (.go frame', store₁)) (hkeeps : Keeps f f')
    (hrep : Represents m p.inst 0 frame' f') :
    ∃ e', Steps p ⟨store, frame, frames, slot⟩ e' ∧
      Mirrors p m count e' ⟨{ store₁ with counters }, thread, ⟨f' :: callers, outer, slot⟩⟩ := by
  have hstep : Step p ⟨store, frame, frames, slot⟩ ⟨store₁, frame', frames, slot⟩ := .go hnext
  refine ⟨_, .tail (.single hstep) (.observe store₁.traces counters), ?_⟩
  refine ⟨.activation hrep (hseated.of_keeps hkeeps) ?_, rfl, rfl, hattends⟩
  rw [hkeeps.function_eq]
  exact hrest

/-- A step more is a step more of the execution. -/
theorem Proceeds.head {e₁ : Execution H σ} {r : EStateM.Result Stop (State H σ) (Progress H)}
    (hstep : Step p e e₁) (hproceeds : Proceeds p m count e₁ s r) : Proceeds p m count e s r := by
  cases r with
  | ok next s' =>
    obtain ⟨e', hsteps, hreaches⟩ := hproceeds
    exact ⟨e', .head hstep hsteps, hreaches⟩
  | error stop s' =>
    cases hproceeds with
    | exhausted hstop => exact .exhausted hstop
    | mismatch hstop hframe hends => exact .mismatch hstop hframe hends
    | fails hsteps hfails => exact .fails (.head hstep hsteps) hfails
    | unsupported hstop hstop' hlacks => exact .unsupported hstop hstop' hlacks

/-- A function is left. -/
theorem Mirrors.leave {frame : Frame} {frames : List Frame} {n : Nat} {thread : Thread}
    {store store₁ : Store H σ} {results : List UInt64} (machine : Machine) (counters : Counters)
    (hrest : Stacked m p.inst count machine.outer n frames machine.frames)
    (hattends : thread.Attends p.inst (machine.frames.length + 1))
    (hnext : frame.next p.inst store = some (.leave results, store₁))
    (hlength : results.length = n) :
    ∃ e', Steps p ⟨store, frame, frames, machine.slot⟩ e' ∧
      Mirrors p m count e' (Run.traced p.inst.config
        ⟨{ store₁ with counters }, thread, machine.setOperands (results ++ machine.operands)⟩
        Thread.leave) := by
  obtain ⟨traces, out, htraced⟩ := Run.traced_eq p.inst.config
    ⟨{ store₁ with counters }, thread, machine.setOperands (results ++ machine.operands)⟩
    Thread.leave
  rw [htraced]
  cases frames with
  | nil => cases hrest
  | cons caller callers =>
    have hstep : Step p ⟨store, frame, caller :: callers, machine.slot⟩
        ⟨store₁, { caller with operands := results ++ caller.operands }, callers, machine.slot⟩ :=
      .leave hnext rfl
    refine ⟨_, .tail (.single hstep) (.observe traces counters), ?_⟩
    refine ⟨hrest.resume results hlength, ?_, rfl, ?_⟩
    · rw [slot_setOperands]
    · rw [length_frames_setOperands]
      exact hattends.leave out

/-- What running one instruction comes to. -/
theorem Mirrors.advance (hrealizes : Realizes p m) (hmirrors : Mirrors p m count e s) :
    Proceeds p m count e s (Run.advance p.inst s) := by
  obtain ⟨_, thread, ⟨fs, outer, _⟩⟩ := s
  obtain ⟨store, frame, frames, slot⟩ := e
  obtain ⟨hstacked, rfl, rfl, hattends⟩ := hmirrors
  cases hstacked with
  | outermost hcode hblocks hoperands hcount =>
    refine ⟨_, .refl, ?_, rfl⟩
    exact ⟨.outermost hcode hblocks hoperands hcount, rfl, rfl, hattends⟩
  | @activation _ _ _ f fs hrep hseated hrest =>
    -- Tracing comes before the instruction and may fail on its own; the semantics takes it as a
    -- step that only observes.
    obtain ⟨i, hat, -⟩ := hrep.step store
    obtain ⟨traces, out, htraced⟩ := Run.traced_eq p.inst.config
      ⟨store, thread, ⟨f :: fs, outer, slot⟩⟩ (fun t => t.instruction f.ip i f.operands.length)
    have hattends' := hattends.instruction f.ip i f.operands.length out
    obtain ⟨_, hat', hfollows⟩ := hrep.step { store with traces }
    obtain rfl := Option.some.inj (hat.symm.trans hat')
    have hobserve : Step p ⟨store, frame, frames, slot⟩
        ⟨{ store with traces }, frame, frames, slot⟩ :=
      .observe traces store.counters
    cases hstep : Activation.step p.inst { f with ip := f.ip + 1 } i { store with traces } with
    | error stop store' =>
      rw [hstep] at hfollows
      rw [Run.advance_of_error hat htraced hstep]
      cases stop with
      | trap t =>
        obtain ⟨rfl, hnext | ⟨rfl, hends⟩⟩ := hfollows
        · exact .fails (.single hobserve) (.trap hnext)
        · exact .mismatch rfl rfl hends
      | host => exact hfollows.elim
      | outOfRange => exact .unsupported (by simp) (by simp) ⟨traces, hfollows⟩
      | crash => exact .unsupported (by simp) (by simp) ⟨traces, hfollows⟩
    | ok next store' =>
      rw [hstep] at hfollows
      rw [Run.advance_of_ok hat htraced hstep]
      obtain ⟨deed, store₁, counters, hnext, rfl, hanswers⟩ := hfollows
      cases hanswers with
      | go hkeeps hrep' =>
        obtain ⟨e', hsteps, hmirrors⟩ :=
          Mirrors.go slot counters hseated hrest hattends' hnext hkeeps hrep'
        exact ⟨e', .head hobserve hsteps, hmirrors⟩
      | leave hlength =>
        obtain ⟨e', hsteps, hmirrors⟩ :=
          Mirrors.leave ⟨fs, outer, slot⟩ counters hrest hattends' hnext hlength
        exact ⟨e', .head hobserve hsteps, hmirrors⟩
      -- The caller stays seated without the arguments, which bounds the height that the callee
      -- starts from.
      | @call frame' f' function type args rest hsignature hargs hkeeps hheight hoperands hrep' =>
        have hasks : Asks p m count ⟨{ store with traces }, frame, frames, slot⟩
            ⟨{ store₁ with counters }, (thread.instruction f.ip i f.operands.length out).1,
              ⟨f' :: fs, outer, slot⟩⟩ frame' function args type store₁ rest := by
          refine ⟨hnext, hsignature, hargs, hoperands, ?_, ?_, rfl, store₁.traces, counters, rfl⟩
          · have hsize := hrep'.size_eq
            have hlength := hrep.length_le
            have hstack := (hseated.of_keeps hkeeps).stack_le
            simp only [hkeeps.function_eq] at hsize hstack
            simp only [Machine.height, Activation.height]
            omega
          · refine .activation hrep' ((hseated.of_keeps hkeeps).of_keeps ?_) ?_
            · exact ⟨rfl, rfl, rfl, rfl, rfl⟩
            · simp only [hkeeps.function_eq]
              exact hrest
        exact Proceeds.head hobserve (hasks.call hrealizes hattends')

/-- There is room for the result that a machine waits for. -/
theorem Stacked.push_eq {frames : List Frame} {machine : Machine} {v : UInt64}
    (hstacked : Stacked m p.inst count machine.outer 1 frames machine.frames)
    (hcount : (count : Int) ≤ p.inst.config.maxOperandStack) :
    machine.push p.inst.config v = .ok (machine.setOperands (v :: machine.operands)) := by
  obtain ⟨fs, outer, slot⟩ := machine
  cases hstacked with
  | outermost _ _ _ hlength =>
    have hroom : (outer.length : Int) < p.inst.config.maxOperandStack := by
      simp only at hlength
      omega
    simp only [Machine.push, hroom, if_true]
    rfl
  | activation hrep =>
    have hlength := hrep.length_le
    have hroom := hrep.room_ge
    simp only [Machine.push, Activation.push_eq (Nat.lt_of_lt_of_le hlength hroom)]
    rfl

/-- What performing a function of the embedder comes to. -/
theorem Calls.perform {c : HostCall H} (hcalls : Calls p m count e c s)
    (hcount : (count : Int) ≤ p.inst.config.maxOperandStack) :
    match Run.performHostCall p.host p.invoker p.inst c s with
    | .ok _ s' => ∃ e', Steps p e e' ∧ Mirrors p m count e' s'
    | .error stop s' => Fails p e stop s'.store := by
  obtain ⟨frame, function, args, f, store, rest, hasks, himport, hresults, rfl, hattends⟩ := hcalls
  obtain ⟨_, thread, machine⟩ := s
  obtain ⟨traces, counters, rfl⟩ := hasks.store_eq
  simp only [Run.performHostCall]
  cases hcall : p.host.call p.invoker (e.hostCall p f args) { store with traces, counters } with
  | error fault store' => exact .host hasks.next_eq himport hcall
  | ok written store' =>
    obtain ⟨traces', out, htraced⟩ :=
      Run.traced_eq p.inst.config ⟨store', thread, machine⟩ Thread.leave
    have hstep := Step.host hasks.next_eq himport hcall
    have hsteps : Steps p e _ := .tail (.single hstep) (.observe traces' store'.counters)
    have hdrop : machine.operands.drop f.type.params.length = rest := by
      rw [← hasks.length_args]
      exact drop_arguments hasks.operands_eq
    simp only [htraced, Machine.finishHostCall, Execution.hostCall, hdrop]
    have hstacked := hasks.stacked
    have hslot := hasks.slot_eq
    have hleft := hattends.leave out
    simp only at hstacked hslot hleft
    -- A function of the embedder has one result at most: without one the caller goes on as it is,
    -- with one the slot is pushed on top of it.
    cases htypes : f.type.results with
    | nil =>
      refine ⟨_, hsteps, ?_⟩
      simp only [Execution.answered, htypes]
      rw [htypes] at hstacked
      refine ⟨hstacked, ?_, rfl, ?_⟩
      · rw [hslot, slot_setOperands]
      · rw [length_frames_setOperands]
        exact hleft
    | cons t more =>
      rw [htypes, List.length_cons] at hstacked hresults
      obtain rfl : more = [] := List.eq_nil_of_length_eq_zero (by omega)
      have hslot' : (machine.setOperands rest).slot = e.slot := by rw [hslot, slot_setOperands]
      let machine₁ : Machine := { machine.setOperands rest with slot := written.getD e.slot }
      have hstacked₁ : Stacked m p.inst count machine₁.outer 1 (frame :: e.callers)
          machine₁.frames := hstacked
      have hresumed := hstacked₁.resume [Value.word t (written.getD e.slot)] rfl
      have hpush : { machine.setOperands rest with slot := written.getD e.slot }.push p.inst.config
          (Value.word t (written.getD e.slot)) = _ := hstacked₁.push_eq hcount
      simp only [hslot', hpush]
      refine ⟨_, hsteps, ?_⟩
      simp only [Execution.answered, htypes]
      refine ⟨hresumed, ?_, rfl, ?_⟩
      · rw [slot_setOperands]
      · rw [length_frames_setOperands, length_frames_setOperands]
        exact hleft

/-! ## Runs -/

/-- How a run of a machine that stands for an execution ends: as the execution does, unless a stack
is full, a loop with a result has ended, or something is missing. -/
def Concludes (p : Setting H σ) (m : Module) (count : Nat) (e : Execution H σ) :
    EStateM.Result Stop (State H σ) Unit → Prop
  | .ok _ s => ∃ e', Steps p e e' ∧ Mirrors p m count e' s ∧ s.machine.frames = []
  | .error stop s => (∃ e', Steps p e e' ∧ Fails p e' stop s.store) ∨
      stop = .trap .stackExhausted ∨ stop = .trap .heightMismatch ∨
      (∀ t, stop ≠ .trap t) ∧ ∀ t, stop ≠ .host t

/-- An execution that comes to what concludes concludes. -/
theorem Concludes.after {e' : Execution H σ} {r : EStateM.Result Stop (State H σ) Unit}
    (hconcludes : Concludes p m count e' r) (hsteps : Steps p e e') : Concludes p m count e r := by
  cases r with
  | ok _ s =>
    obtain ⟨e'', hsteps', hmirrors, hframes⟩ := hconcludes
    exact ⟨e'', hsteps.trans hsteps', hmirrors, hframes⟩
  | error stop s =>
    rcases hconcludes with ⟨e'', hsteps', hfails⟩ | hrest
    · exact .inl ⟨e'', hsteps.trans hsteps', hfails⟩
    · exact .inr hrest

/-- An execution that stops has concluded. -/
theorem Stops.concludes {stop : Stop} {s' : State H σ} (hstops : Stops p m e s stop s'.store) :
    Concludes p m count e (.error stop s') := by
  cases hstops with
  | exhausted hstop => exact .inr (.inl hstop)
  | mismatch hstop => exact .inr (.inr (.inl hstop))
  | fails hsteps hfails => exact .inl ⟨_, hsteps, hfails⟩
  | unsupported hstop hstop' => exact .inr (.inr (.inr ⟨hstop, hstop'⟩))

/-- A machine that stands for an execution ends as the execution does. -/
theorem Reaches.run (hrealizes : Realizes p m)
    (hcount : (count : Int) ≤ p.inst.config.maxOperandStack) (fuel : Nat) {next : Progress H}
    (hreaches : Reaches p m count e s next) :
    Concludes p m count e (Run.runFrom p.host p.invoker p.inst fuel next s) := by
  induction fuel generalizing e s next with
  | zero =>
    cases next with
    | done =>
      obtain ⟨hmirrors, hframes⟩ := hreaches
      exact ⟨e, .refl, hmirrors, hframes⟩
    | more => exact .inr (.inr (.inr ⟨by simp, by simp⟩))
    | host c => exact .inr (.inr (.inr ⟨by simp, by simp⟩))
  -- One step of the loop is one step of the machine or one call of the embedder; the execution
  -- takes none or several steps for it, which are put in front of the rest.
  | succ fuel ih =>
    cases next with
    | done =>
      obtain ⟨hmirrors, hframes⟩ := hreaches
      exact ⟨e, .refl, hmirrors, hframes⟩
    | more =>
      have hadvance := Mirrors.advance hrealizes hreaches
      simp only [Run.runFrom, bind, EStateM.bind]
      cases hresult : Run.advance p.inst s with
      | ok next' s' =>
        rw [hresult] at hadvance
        obtain ⟨e', hsteps, hreaches'⟩ := hadvance
        exact (ih hreaches').after hsteps
      | error stop s' =>
        rw [hresult] at hadvance
        exact hadvance.concludes
    | host c =>
      have hperform := Calls.perform hreaches hcount
      simp only [Run.runFrom, bind, EStateM.bind]
      cases hresult : Run.performHostCall p.host p.invoker p.inst c s with
      | ok _ s' =>
        rw [hresult] at hperform
        obtain ⟨e', hsteps, hmirrors⟩ := hperform
        have hreaches' : Reaches p m count e' s' .more := hmirrors
        exact (ih hreaches').after hsteps
      | error stop s' =>
        rw [hresult] at hperform
        exact .inl ⟨e, .refl, hperform⟩

/-- The machine at the beginning of an invocation is about to call the function. -/
theorem asks_invoke {function : UInt32} {type : FuncType} {args : List UInt64} (store : Store H σ)
    (thread : Thread) (slot : UInt64) (hsignature : p.inst.signature? function = some type)
    (hargs : args.length = type.params.length)
    (hroom : ¬ p.inst.config.maxOperandStack < args.length) :
    Asks p m type.results.length (.invoke store slot function args)
      ⟨store, thread, { outer := args.reverse, slot }⟩
      { arity := 0, locals := #[], code := .done } function args type store [] where
  next_eq := by
    have henough : ¬ args.reverse.length < type.params.length := by simp [hargs]
    have htake : (args.reverse.take type.params.length).reverse = args := by
      rw [← hargs, ← List.length_reverse, List.take_length, List.reverse_reverse]
    have hdrop : args.reverse.drop type.params.length = [] := by
      rw [← hargs, ← List.length_reverse, List.drop_length]
    simp only [Execution.invoke, Frame.next, Instr.next, Frame.call, hsignature, bind, Option.bind,
      henough, if_false, htake, hdrop]
    rfl
  signature_eq := hsignature
  length_args := hargs
  operands_eq := (List.append_nil _).symm
  height_le := by simpa [Machine.height] using hroom
  stacked := .outermost rfl rfl rfl rfl
  slot_eq := rfl
  store_eq := ⟨store.traces, store.counters, rfl⟩

/-- A new thread attends to no function. -/
theorem attends_newThread (inst : Instance H) : inst.newThread.Attends inst 0 := ⟨rfl, rfl, rfl⟩

/-- Calling a function on a new machine ends as the invocation of its code does. -/
theorem Realizes.runFunction (hrealizes : Realizes p m) {function : UInt32} {type : FuncType}
    {args : List UInt64} (hsignature : p.inst.signature? function = some type)
    (hargs : args.length = type.params.length)
    (hcount : (type.results.length : Int) ≤ p.inst.config.maxOperandStack) (fuel : Nat)
    (store : Store H σ) (slot : UInt64) :
    Concludes p m type.results.length (.invoke store slot function args)
      (p.inst.runFunction p.host p.invoker fuel function args
        ⟨store, p.inst.newThread, { slot }⟩) := by
  unfold Instance.runFunction
  by_cases hroom : p.inst.config.maxOperandStack < args.length
  · simp only [hroom, if_true, bind, EStateM.bind, estate_throw]
    exact .inr (.inl rfl)
  · have hasks := asks_invoke (m := m) store p.inst.newThread slot hsignature hargs hroom
    have hcall : Proceeds p m type.results.length (.invoke store slot function args)
        ⟨store, p.inst.newThread, { slot }⟩ (Run.call p.inst function
          ⟨store, p.inst.newThread, { outer := args.reverse, slot }⟩) :=
      hasks.call hrealizes (attends_newThread p.inst)
    simp only [hroom, if_false, bind, EStateM.bind, estate_modify]
    cases hresult : Run.call p.inst function
        ⟨store, p.inst.newThread, { outer := args.reverse, slot }⟩ with
    | ok next s =>
      rw [hresult] at hcall
      obtain ⟨e', hsteps, hreaches⟩ := hcall
      exact (hreaches.run hrealizes hcount fuel).after hsteps
    | error stop s =>
      rw [hresult] at hcall
      exact hcall.concludes

/-- Every state that a call goes through stands for one of the execution of its code. -/
theorem Realizes.visits (hrealizes : Realizes p m) {function : UInt32} {type : FuncType}
    {args : List UInt64} (hsignature : p.inst.signature? function = some type)
    (hargs : args.length = type.params.length)
    (hcount : (type.results.length : Int) ≤ p.inst.config.maxOperandStack) {store : Store H σ}
    {slot : UInt64} {next : Progress H}
    (hvisits : p.inst.Visits p.host p.invoker function args store slot next s) :
    ∃ e, Steps p (.invoke store slot function args) e ∧
    Reaches p m type.results.length e s next := by
  induction hvisits with
  | start hroom hcall =>
    have hasks := asks_invoke (m := m) store p.inst.newThread slot hsignature hargs hroom
    have hproceeds : Proceeds p m type.results.length (.invoke store slot function args)
        ⟨store, p.inst.newThread, { slot }⟩ (Run.call p.inst function
          ⟨store, p.inst.newThread, { outer := args.reverse, slot }⟩) :=
      hasks.call hrealizes (attends_newThread p.inst)
    rwa [hcall] at hproceeds
  | advance _ hadvance ih =>
    obtain ⟨e, hsteps, hmirrors⟩ := ih
    have hproceeds := Mirrors.advance hrealizes hmirrors
    rw [hadvance] at hproceeds
    obtain ⟨e', hsteps', hreaches⟩ := hproceeds
    exact ⟨e', hsteps.trans hsteps', hreaches⟩
  | perform _ hperform ih =>
    obtain ⟨e, hsteps, hcalls⟩ := ih
    have hresult := Calls.perform hcalls hcount
    rw [hperform] at hresult
    obtain ⟨e', hsteps', hmirrors⟩ := hresult
    exact ⟨e', hsteps.trans hsteps', hmirrors⟩

end

end Structured

end IntWasm
