import IntWasm.Proofs.Engine.Staying
import IntWasm.Proofs.Trace.Reading

/-!
# What calls tell their trace

Whatever runs between two stores, the trace at a place only grows by entries that threads have told.
The entries can be read back, if names and the texts of traps are not too long: an entry of a
function has a type of its module, and an instruction is one of a checked body. A call that comes to
its end tells an end last. None of this depends on what the machine does with its operands, so it
holds for every instance with legible code, and functions of the embedder may act in the meantime as
long as they keep to it, too. Main statement: `Instance.call_tells`.
-/

namespace IntWasm

variable {H σ : Type}

/-! ## Entries that threads tell -/

/-- Between two stores threads have told entries to the trace at a place, one after another, and
nothing else has changed it. -/
inductive Store.Hears (place : Nat) (s : Store H σ) : List TraceEntry → Store H σ → Prop
  | nothing : Hears place s [] s
  | other {es t t'} (hears : Hears place s es t) (hkept : t'.traces[place]? = t.traces[place]?) :
    Hears place s es t'
  | told {es e} {st : State H σ} {config : Config} {act depth} (hears : Hears place s es st.store)
      (htrace : config.trace = some place) (hspeaks : st.thread.Speaks = true)
      (htells : Thread.Tells act depth e) :
    Hears place s (es ++ [e]) (Run.traced config st act).store

/-- Two lists are appended one after the other. -/
theorem Array.append_list_append {α : Type} (kept : Array α) (as bs : List α) :
    kept ++ (as ++ bs) = kept ++ as ++ bs := Array.toList_inj.mp (by simp)

/-- A thread that writes to a trace without bounds adds its entry. -/
theorem Run.traced_tells {place : Nat} {config : Config} (htrace : config.trace = some place)
    {st : State H σ} (hspeaks : st.thread.Speaks = true) {act : Thread → Sink → Thread × Sink}
    {depth : Int → Int} {e : TraceEntry} (htells : Thread.Tells act depth e)
    (hfault : e.fault = none) {kept : Array UInt8}
    (hkept : st.store.traces[place]? = some { kept }) :
    ∃ traces, Run.traced config st act =
        { st with
          store := { st.store with traces }
          thread := { st.thread with depth := depth st.thread.depth } } ∧
      traces[place]? = some { kept := kept ++ e.bytes } := by
  have hlt := (Array.getElem?_eq_some_iff.mp hkept).1
  have hroom : ({ kept } : Sink).room = none := rfl
  have hemit := Thread.emit_unbounded (t := { st.thread with depth := depth st.thread.depth })
    hspeaks hfault hroom
  refine ⟨st.store.traces.setIfInBounds place { kept := kept ++ e.bytes }, ?_,
    Array.getElem?_setIfInBounds_self_of_lt hlt⟩
  rw [Run.traced_some htrace, htells, hkept, Option.getD_some, hemit]

namespace Store.Hears

variable {place : Nat} {s t u : Store H σ} {es more : List TraceEntry}

/-- What is heard in two steps is heard one after the other. -/
theorem trans (hst : s.Hears place es t) (htu : t.Hears place more u) :
    s.Hears place (es ++ more) u := by
  induction htu with
  | nothing => rwa [List.append_nil]
  | other _ hkept ih => exact ih.other hkept
  | told _ htrace hspeaks htells ih =>
    rw [← List.append_assoc]
    exact ih.told htrace hspeaks htells

/-- The bytes of the entries are in the trace, one after another. -/
theorem kept_eq (hears : s.Hears place es t) (hfaults : ∀ e ∈ es, e.fault = none)
    {kept : Array UInt8} (hkept : s.traces[place]? = some { kept }) :
    t.traces[place]? = some { kept := kept ++ TraceEntry.allBytes es } := by
  induction hears with
  | nothing =>
    have hnone : kept ++ TraceEntry.allBytes [] = kept :=
      Array.toList_inj.mp (by simp [TraceEntry.allBytes])
    rwa [hnone]
  | other _ hsame ih =>
    rw [hsame]
    exact ih hfaults
  | @told es e st config act depth _ htrace hspeaks htells ih =>
    have hbefore := ih fun e he => hfaults e (List.mem_append_left _ he)
    have hfault : e.fault = none := hfaults e (List.mem_append_right _ List.mem_cons_self)
    obtain ⟨traces, htraced, hat⟩ := Run.traced_tells htrace hspeaks htells hfault hbefore
    have hone : TraceEntry.allBytes [e] = e.bytes := List.append_nil _
    rw [htraced, TraceEntry.allBytes_append, hone, Array.append_list_append]
    exact hat

end Store.Hears

/-! ## Entries that can be read back -/

/-- A trap whose text has a size of 32 bits. -/
def Trap.Terse (t : Trap) : Prop := (Text.utf8 t.text).length < 2 ^ 32

/-- A stop that is reported with a text whose size has 32 bits. -/
def Stop.Terse : Stop → Prop
  | .trap t => t.Terse
  | .host e => e.trap.Terse
  | .outOfRange | .crash _ => True

/-- An entry that can be read back if its text is not too long, and a text whose size has 32
bits. -/
def TraceEntry.Sound (e : TraceEntry) : Prop := e.Legible ∧ e.text.length < 2 ^ 32

/-- A function whose type and instructions can be read back. -/
structure Function.Legible (fn : Function) : Prop where
  type : fn.type.InFormat
  instructions : ∀ {i : Nat} {instruction}, fn.body.instructions[i]? = some instruction →
    instruction.Legible

/-- An instance whose functions can be read back, with names whose sizes have 32 bits. -/
structure Instance.Legible (inst : Instance H) : Prop where
  name : (Text.utf8 inst.name).length < 2 ^ 32
  imports : ∀ {i : Nat} {f}, inst.imports[i]? = some f →
    (Text.utf8 f.moduleName).length < 2 ^ 32 ∧ f.type.InFormat
  functions : ∀ {i : Nat} {fn}, inst.functions[i]? = some fn → fn.Legible

/-- The texts of the engine's own traps are short. -/
theorem Trap.terse_of_engine {t : Trap}
    (ht : t ∈ [stackExhausted, heightMismatch] ++ ofCode) : t.Terse := by
  have hshort : ∀ t ∈ [stackExhausted, heightMismatch] ++ ofCode,
      (Text.utf8 t.text).length < 2 ^ 32 := by decide +kernel
  exact hshort t ht

/-- A stop of the code has a brief text. -/
theorem Stop.OfCode.terse {stop : Stop} (hstop : stop.OfCode) : stop.Terse := by
  cases stop with
  | trap t =>
    rcases hstop with ht | rfl
    · exact Trap.terse_of_engine (List.mem_append_right _ ht)
    · exact Trap.terse_of_engine (by simp)
  | host e => exact hstop.elim
  | outOfRange | crash => exact trivial

/-- A store with a trace without bounds at a place. The instances that write to it can be read
back. -/
structure Store.Clear (place : Nat) (s : Store H σ) : Prop where
  unbounded : ∃ kept, s.traces[place]? = some { kept }
  instances : ∀ {address : Nat} {inst}, s.instances[address]? = some inst →
    inst.config.trace = some place → inst.Legible

/-- What is told between two stores can be read back, and so can what is told later. -/
def Store.Reports (place : Nat) (s t : Store H σ) : Prop :=
  s.Clear place → t.Clear place ∧ ∃ es, s.Hears place es t ∧ ∀ e ∈ es, e.Sound

namespace Store.Reports

variable {place : Nat} {s t u : Store H σ}

/-- Doing nothing reports nothing. -/
theorem refl (s : Store H σ) : s.Reports place s := fun hclear => ⟨hclear, [], .nothing, nofun⟩

/-- What is reported in two steps is reported. -/
theorem trans (hst : s.Reports place t) (htu : t.Reports place u) : s.Reports place u := by
  intro hclear
  obtain ⟨hclear', es, hes, hsound⟩ := hst hclear
  obtain ⟨hclear'', more, hmore, hsound'⟩ := htu hclear'
  refine ⟨hclear'', es ++ more, hes.trans hmore, fun e he => ?_⟩
  rcases List.mem_append.mp he with he | he
  · exact hsound e he
  · exact hsound' e he

/-- Nothing is told where the trace stays as it is. New instances can be read back. -/
theorem of_kept (htrace : t.traces[place]? = s.traces[place]?)
    (hinstances : ∀ {address : Nat} {inst}, t.instances[address]? = some inst →
      inst.config.trace = some place → s.Clear place → inst.Legible) : s.Reports place t := by
  intro hclear
  obtain ⟨kept, hkept⟩ := hclear.unbounded
  exact ⟨⟨⟨kept, htrace.trans hkept⟩, fun hat hto => hinstances hat hto hclear⟩, [],
    Store.Hears.nothing.other htrace, nofun⟩

/-- Nothing is told where neither traces nor instances change. -/
theorem of_eq (htraces : t.traces = s.traces) (hinstances : t.instances = s.instances) :
    s.Reports place t :=
  of_kept (by rw [htraces]) fun hat hto hclear => hclear.instances (hinstances ▸ hat) hto

end Store.Reports

/-- What a single instruction does to the store is nothing to a trace. -/
theorem permits_reports (place : Nat) (inst : Instance H) :
    inst.Permits (Store.Reports (H := H) (σ := σ) place) := by
  refine ⟨.refl, fun _ _ _ => .trans, fun {s s'} hworks => ?_⟩
  cases hworks with
  | global | bytes | count => exact .of_eq rfl rfl
  | grow pages =>
    simp only [Store.growMemory]
    split <;> exact .of_eq rfl rfl

/-! ## States -/

section

variable {place : Nat} {inst : Instance H} {s₀ : Store H σ} {es : List TraceEntry} {s : State H σ}

/-- What has been told since a store can be read back. If the instance writes to the trace, its
thread goes on to do so, and the functions that the machine runs can be read back. -/
structure Recounting (place : Nat) (inst : Instance H) (s₀ : Store H σ) (es : List TraceEntry)
    (s : State H σ) : Prop where
  clear : s.store.Clear place
  hears : s₀.Hears place es s.store
  sound : ∀ e ∈ es, e.Sound
  speaks : inst.config.trace = some place → s.thread.Speaks = true
  legible : inst.config.trace = some place → ∀ fn ∈ s.machine.frames.map (·.function), fn.Legible

/-- All that has been told so far can be read back. -/
def Told (place : Nat) (inst : Instance H) (s₀ : Store H σ) (s : State H σ) : Prop :=
  ∃ es, Recounting place inst s₀ es s

/-- All that has been told can be read back, and so can the trap that ends the run. -/
def Broken (place : Nat) (inst : Instance H) (s₀ : Store H σ) (stop : Stop) (s : State H σ) :
    Prop :=
  stop.Terse ∧ Told place inst s₀ s

namespace Recounting

/-- An entry is told, if the instance writes to the trace. -/
theorem tell (htelling : Recounting place inst s₀ es s) {act : Thread → Sink → Thread × Sink}
    {depth : Int → Int} {e : TraceEntry} (htells : Thread.Tells act depth e)
    (hsound : inst.config.trace = some place → e.Sound) :
    ∃ store thread more, Run.traced inst.config s act = ⟨store, thread, s.machine⟩ ∧
      Recounting place inst s₀ (es ++ more) ⟨store, thread, s.machine⟩ ∧
      (inst.config.trace = some place → more = [e]) := by
  by_cases htrace : inst.config.trace = some place
  · obtain ⟨kept, hkept⟩ := htelling.clear.unbounded
    have hspeaks := htelling.speaks htrace
    have hfault := (hsound htrace).1.fault_eq
    have htold := htelling.hears.told htrace hspeaks htells
    obtain ⟨traces, htraced, hat⟩ := Run.traced_tells htrace hspeaks htells hfault hkept
    rw [htraced] at htold
    refine ⟨_, _, [e], htraced, ⟨⟨⟨_, hat⟩, htelling.clear.instances⟩, htold, fun e' he' => ?_,
      htelling.speaks, htelling.legible⟩, fun _ => rfl⟩
    rcases List.mem_append.mp he' with he' | he'
    · exact htelling.sound e' he'
    · obtain rfl := List.mem_singleton.mp he'
      exact hsound htrace
  · have hkeeps : (Run.traced inst.config s act).machine = s.machine ∧
        (Run.traced inst.config s act).store.traces[place]? = s.store.traces[place]? ∧
        (Run.traced inst.config s act).store.instances = s.store.instances := by
      cases hconfig : inst.config.trace with
      | none =>
        rw [Run.traced_none hconfig]
        exact ⟨rfl, rfl, rfl⟩
      | some other =>
        have hne : other ≠ place := fun heq => htrace (by rw [hconfig, heq])
        rw [Run.traced_some hconfig]
        exact ⟨rfl, Array.getElem?_setIfInBounds_ne hne, rfl⟩
    obtain ⟨hmachine, hat, hinstances⟩ := hkeeps
    obtain ⟨kept, hkept⟩ := htelling.clear.unbounded
    refine ⟨_, _, [], by rw [← hmachine], ?_, fun h => absurd h htrace⟩
    rw [List.append_nil]
    exact ⟨⟨⟨kept, hat.trans hkept⟩, fun h => htelling.clear.instances (hinstances ▸ h)⟩,
      htelling.hears.other hat, htelling.sound, fun h => absurd h htrace, fun h => absurd h htrace⟩

/-- Another machine that runs legible functions. -/
theorem withMachine (htelling : Recounting place inst s₀ es s) {machine : Machine}
    (hlegible : inst.config.trace = some place →
      ∀ fn ∈ machine.frames.map (·.function), fn.Legible) :
    Recounting place inst s₀ es { s with machine } :=
  { htelling with legible := hlegible }

/-- Another machine that runs the same functions. -/
theorem withFunctions (htelling : Recounting place inst s₀ es s) {machine : Machine}
    (hsame : machine.frames.map (·.function) = s.machine.frames.map (·.function)) :
    Recounting place inst s₀ es { s with machine } :=
  htelling.withMachine fun htrace => hsame ▸ htelling.legible htrace

/-- Another store, in which more has been told. -/
theorem report (htelling : Recounting place inst s₀ es s) {t : Store H σ}
    (hreports : s.store.Reports place t) :
    Told place inst s₀ { s with store := t } := by
  obtain ⟨hclear, more, hmore, hsound⟩ := hreports htelling.clear
  refine ⟨es ++ more, hclear, htelling.hears.trans hmore, fun e he => ?_, htelling.speaks,
    htelling.legible⟩
  rcases List.mem_append.mp he with he | he
  · exact htelling.sound e he
  · exact hsound e he

end Recounting

/-! ## Steps -/

variable (hlegible : inst.config.trace = some place → inst.Legible)

/-- A function is opened. -/
theorem Told.opened (htold : Told place inst s₀ s) (name : String) (function : UInt32)
    (type : FuncType)
    (hopens : inst.config.trace = some place → (Text.utf8 name).length < 2 ^ 32 ∧ type.InFormat) :
    Leads (Run.openFunction inst name function type) s
      (fun _ s' => s'.machine = s.machine ∧ Told place inst s₀ s') (Broken place inst s₀) := by
  unfold Leads Run.openFunction
  by_cases hfull : s.thread.isFull = true
  · rw [if_pos hfull]
    exact ⟨Trap.terse_of_engine (by simp), htold⟩
  · rw [if_neg hfull]
    obtain ⟨es, htelling⟩ := htold
    obtain ⟨store, thread, more, htraced, htelling', -⟩ := htelling.tell
      (Thread.tells_opened name function type) fun htrace => ⟨(hopens htrace).2, (hopens htrace).1⟩
    rw [htraced]
    exact ⟨rfl, _, htelling'⟩

include hlegible in
/-- A function is called. -/
theorem Told.call (htold : Told place inst s₀ s) (function : UInt32) :
    Leads (Run.call inst function) s (fun _ => Told place inst s₀) (Broken place inst s₀) := by
  unfold Run.call
  -- Imports tell the name of their module, functions of the instance its own; both names have to be
  -- short enough to be read back.
  cases himport : inst.imports[function.toNat]? with
  | some f =>
    have hopened := htold.opened f.moduleName function f.type
      fun htrace => (hlegible htrace).imports himport
    refine Leads.bind (hopened.bind fun _ s' htold' => ?_) fun c s' htold' =>
      (htold' : Told place inst s₀ s')
    simp only [Leads]
    by_cases hlacks : s'.machine.operands.length < f.type.params.length ∨ 1 < f.type.results.length
    · rw [if_pos hlacks]
      exact ⟨trivial, htold'.2⟩
    · rw [if_neg hlacks]
      exact htold'.2
  | none =>
    cases hfunction : inst.functions[function.toNat - inst.imports.size]? with
    | none => exact ⟨trivial, htold⟩
    | some fn =>
      have hfn (htrace : inst.config.trace = some place) : fn.Legible :=
        (hlegible htrace).functions hfunction
      have hopened := htold.opened inst.name fn.index fn.type
        fun htrace => ⟨(hlegible htrace).name, (hfn htrace).type⟩
      suffices hentered : Leads (Run.enterFunction inst fn) s (fun _ => Told place inst s₀)
          (Broken place inst s₀) from hentered.bind fun _ _ htold => htold
      refine Leads.after (estate_get s) ?_
      by_cases hadmits : s.machine.admits inst.config fn = true
      · simp only [hadmits, not_true_eq_false, if_false]
        refine hopened.bind fun _ s' htold' => ?_
        obtain ⟨-, es, htelling⟩ := htold'
        refine ⟨es, htelling.withMachine fun htrace fn' hfn' => ?_⟩
        rcases List.mem_cons.mp hfn' with rfl | hfn'
        · exact hfn htrace
        · rw [Machine.functions_setOperands] at hfn'
          exact htelling.legible htrace fn' hfn'
      · simp only [hadmits]
        exact ⟨Trap.terse_of_engine (by simp), htold⟩

include hlegible in
/-- What the innermost activation asks for is carried out. -/
theorem Told.follow (htold : Told place inst s₀ s) {f : Activation} {callers : List Activation}
    (hframes : s.machine.frames = f :: callers) {next : Next} (hstays : next.StaysIn f.function) :
    Leads (Run.follow inst next) s (fun _ => Told place inst s₀) (Broken place inst s₀) := by
  obtain ⟨es, htelling⟩ := htold
  have hresumed (g : Activation) (hg : g.function = f.function) :
      Told place inst s₀ { s with machine := s.machine.resume g } := by
    refine ⟨es, htelling.withFunctions ?_⟩
    rw [Machine.resume, hframes, List.map_cons, hg]
    rfl
  cases next with
  | go g => exact hresumed g hstays
  | leave results =>
    have hreturned : Recounting place inst s₀ es { s with machine := s.machine.leave results } := by
      refine htelling.withMachine fun htrace fn hfn => htelling.legible htrace fn ?_
      rw [Machine.functions_leave, List.map_tail] at hfn
      exact List.mem_of_mem_tail hfn
    obtain ⟨store, thread, more, htraced, htelling', -⟩ := hreturned.tell Thread.tells_leave
      fun _ => ⟨trivial, Nat.two_pow_pos 32⟩
    have hleft : Told place inst s₀ (Run.traced inst.config
        { s with machine := s.machine.leave results } Thread.leave) := by
      rw [htraced]
      exact ⟨_, htelling'⟩
    exact hleft
  | call g function =>
    exact Leads.after (estate_modify _ s) ((hresumed g hstays).call hlegible function)

include hlegible in
/-- One instruction of the innermost activation runs. -/
theorem Told.advance (htold : Told place inst s₀ s) :
    Leads (Run.advance inst) s (fun _ => Told place inst s₀) (Broken place inst s₀) := by
  obtain ⟨store, thread, ⟨frames, outer, slot⟩⟩ := s
  obtain ⟨es, htelling⟩ := htold
  unfold Leads
  cases frames with
  | nil => exact ⟨es, htelling⟩
  | cons f callers =>
    have hfn (htrace : inst.config.trace = some place) : f.function.Legible :=
      htelling.legible htrace _ List.mem_cons_self
    cases hat : f.function.body.instructions[f.ip]? with
    | none =>
      rw [Run.advance_of_none hat]
      exact ⟨trivial, es, htelling⟩
    | some i =>
      obtain ⟨store₁, thread₁, more, htraced, htelling₁, -⟩ := htelling.tell
        (Thread.tells_instruction f.ip i f.operands.length)
        fun htrace => ⟨(hfn htrace).instructions hat, Nat.two_pow_pos 32⟩
      have hkept := Activation.step_moves (permits_reports place inst)
        { f with ip := f.ip + 1 } i store₁
      have hfunction : ({ f with ip := f.ip + 1 } : Activation).function = f.function := rfl
      have hstays := Activation.step_stays inst hfunction i store₁
      cases hstep : Activation.step inst { f with ip := f.ip + 1 } i store₁ with
      | error stop store₂ =>
        rw [hstep] at hkept
        rw [Run.advance_of_error hat htraced hstep]
        obtain ⟨es₂, htelling₂⟩ := htelling₁.report hkept
        exact ⟨(hstays.of_error hstep).terse, es₂, htelling₂.withFunctions rfl⟩
      | ok next store₂ =>
        rw [hstep] at hkept
        rw [Run.advance_of_ok hat htraced hstep]
        exact (htelling₁.report hkept).follow hlegible rfl (hstays.of_ok hstep)

/-! ## Calls -/

variable {host : Host H σ} {invoker : Invoker H σ}

/-- Functions of the embedder that fail with a trap whose text has a size of 32 bits. -/
def Host.Terse (host : Host H σ) (invoker : Invoker H σ) : Prop :=
  ∀ c s failure t, host.call invoker c s = .error failure t → failure.fault.toTrapError.trap.Terse

/-- A host call that cannot end has no room for its result. -/
theorem Machine.finishHostCall_error {machine : Machine} {config : Config} {type : FuncType}
    {written : Option UInt64} {stop : Stop}
    (herror : machine.finishHostCall config type written = .error stop) : stop = .outOfRange := by
  have hpush {machine : Machine} {v : UInt64} (herror : machine.push config v = .error stop) :
      stop = .outOfRange := by
    unfold push at herror
    split at herror
    · split at herror
      · cases herror
      · exact (Except.error.inj herror).symm
    · unfold Activation.push at herror
      split at herror
      · cases herror
      · exact (Except.error.inj herror).symm
  unfold finishHostCall at herror
  split at herror
  · cases herror
  · exact hpush herror

variable (hhost : ∀ c, Moves (Store.Reports place) (host.call invoker c))
  (hterse : host.Terse invoker)

include hhost hterse in
/-- A function of the embedder is performed. -/
theorem Told.perform (htold : Told place inst s₀ s) (c : HostCall H) :
    Leads (Run.performHostCall host invoker inst c) s (fun _ => Told place inst s₀)
      (Broken place inst s₀) := by
  obtain ⟨store, thread, machine⟩ := s
  obtain ⟨es, htelling⟩ := htold
  have hreports := hhost c store
  simp only [Leads, Run.performHostCall]
  cases hcall : host.call invoker c store with
  | error failure store' =>
    rw [hcall] at hreports
    obtain ⟨es', htelling'⟩ : Told place inst s₀ ⟨store', thread, machine⟩ :=
      htelling.report hreports
    exact ⟨hterse c store failure store' hcall, es',
      htelling'.withFunctions (machine.functions_keepWritten c.type failure.written)⟩
  | ok written store' =>
    rw [hcall] at hreports
    obtain ⟨es', htelling'⟩ : Told place inst s₀ ⟨store', thread, machine⟩ :=
      htelling.report hreports
    obtain ⟨store₁, thread₁, more, htraced, hleft, -⟩ := htelling'.tell Thread.tells_leave
      fun _ => ⟨trivial, Nat.two_pow_pos 32⟩
    simp only [htraced]
    cases hfinish : machine.finishHostCall inst.config c.type written with
    | error stop =>
      obtain rfl := Machine.finishHostCall_error hfinish
      exact ⟨trivial, _, hleft.withFunctions (machine.functions_keepWritten c.type written)⟩
    | ok machine' => exact ⟨_, hleft.withFunctions (Machine.functions_finishHostCall hfinish)⟩

include hlegible hhost hterse in
/-- The induction is on the steps that are granted. -/
theorem Told.runFrom (htold : Told place inst s₀ s) (fuel : Nat) (next : Progress H) :
    Leads (Run.runFrom host invoker inst fuel next) s (fun _ => Told place inst s₀)
      (Broken place inst s₀) := by
  induction fuel generalizing next s with
  | zero =>
    cases next with
    | done => exact htold
    | more | host => exact ⟨trivial, htold⟩
  | succ fuel ih =>
    cases next with
    | done => exact htold
    | more => exact (htold.advance hlegible).bind fun next _ htold' => ih htold' next
    | host c => exact (htold.perform hhost hterse c).bind fun _ _ htold' => ih htold' .more

/-- Nothing is told before a function is called. -/
theorem Told.begun {t : Store H σ} (hclear : t.Clear place) (outer : List UInt64) (slot : UInt64) :
    Told place inst t ⟨t, inst.newThread, { outer, slot }⟩ := by
  refine ⟨[], hclear, .nothing, nofun, fun htrace => ?_, fun _ => nofun⟩
  simp [Instance.newThread, Thread.new, Thread.Speaks, htrace]

include hlegible hhost hterse in
/-- In every state that a call goes through, all that has been told can be read back. -/
theorem Told.visits {t : Store H σ} (hclear : t.Clear place) {function : UInt32}
    {args : List UInt64} {slot : UInt64} {next : Progress H}
    (hvisits : inst.Visits host invoker function args t slot next s) : Told place inst t s := by
  induction hvisits with
  | start _ hcall =>
    exact ((Told.begun hclear args.reverse slot).call hlegible function).of_ok hcall
  | advance _ hadvance ih =>
    exact (ih.advance hlegible).of_ok hadvance
  | @perform c _ _ _ hperform ih =>
    exact (ih.perform hhost hterse c).of_ok hperform

include hlegible hhost hterse in
/-- A run tells what it does until it ends or breaks off. -/
theorem Told.runFunction (htold : Told place inst s₀ s) (fuel : Nat) (function : UInt32)
    (args : List UInt64) :
    Leads (inst.runFunction host invoker fuel function args) s (fun _ => Told place inst s₀)
      (Broken place inst s₀) := by
  obtain ⟨es, htelling⟩ := htold
  have hbegun : Told place inst s₀ { s with machine.outer := args.reverse } :=
    ⟨es, htelling.withFunctions rfl⟩
  unfold Instance.runFunction
  by_cases hmany : inst.config.maxOperandStack < args.length
  · rw [if_pos hmany]
    exact ⟨Trap.terse_of_engine (by simp), es, htelling⟩
  · rw [if_neg hmany]
    refine Leads.after (estate_modify _ s) ?_
    exact (hbegun.call hlegible function).bind fun next _ htold' =>
      htold'.runFrom hlegible hhost hterse fuel next

end

/-- A call that began in a store and has ended in another one has told what can be read back. If it
has come to its end and the instance writes to the trace, an end is the last that was told, and a
trap is told before that. -/
structure Concludes (place : Nat) (inst : Instance H) (s : Store H σ)
    (outcome : Except InvokeError (List UInt64)) (es : List TraceEntry) (t : Store H σ) : Prop where
  clear : t.Clear place
  hears : s.Hears place es t
  sound : ∀ e ∈ es, e.Sound
  returned : ∀ words, outcome = .ok words → inst.config.trace = some place →
    es.getLast? = some .finish
  trapped : ∀ e, outcome = .error (.trapped e) → inst.config.trace = some place →
    ∃ before, es = before ++ [.trap (Text.utf8 e.trap.text) e.ip, .finish]

section

variable {place : Nat} {inst : Instance H} {host : Host H σ} {invoker : Invoker H σ}
  (hlegible : inst.config.trace = some place → inst.Legible)
  (hhost : ∀ c, Moves (Store.Reports place) (host.call invoker c)) (hterse : host.Terse invoker)

/-- The trap that is reported is the one that has stopped the machine. -/
theorem Instance.terse_of_trapOf {stop : Stop} {spot : Option (Int × Int)} {e : TrapError}
    (hstop : stop.Terse) (htrap : Instance.trapOf stop spot = .ok e) : e.trap.Terse := by
  have hlocated (e : TrapError) : (e.located spot).trap = e.trap := by
    unfold TrapError.located
    split
    · split <;> rfl
    · rfl
  unfold Instance.trapOf at htrap
  cases stop with
  | trap | host =>
    obtain rfl := Except.ok.inj htrap
    rw [hlocated]
    exact hstop
  | outOfRange =>
    obtain rfl := Except.ok.inj htrap
    rw [hlocated]
    exact Trap.terse_of_engine (by simp [Trap.ofCode])
  | crash => cases htrap

include hlegible hhost hterse in
/-- What a call of a function of an instance tells. -/
theorem Instance.callOn_tells (fuel : Nat) (function : UInt32) (args : List UInt64) (slot : UInt64)
    {s : Store H σ} (hclear : s.Clear place) :
    ∃ es, Concludes place inst s (inst.callOn host invoker fuel function args slot s).1.outcome es
      (inst.callOn host invoker fuel function args slot s).2 := by
  have hbegun : Told place inst s ⟨s, inst.newThread, { slot }⟩ := .begun hclear [] slot
  have hrun := hbegun.runFunction hlegible hhost hterse fuel function args
  unfold Leads at hrun
  unfold Instance.callOn
  cases hresult : inst.runFunction host invoker fuel function args
      ⟨s, inst.newThread, { slot }⟩ with
  | ok _ st =>
    rw [hresult] at hrun
    obtain ⟨es, htelling⟩ := hrun
    obtain ⟨store, thread, more, htraced, hended, hmore⟩ := htelling.tell Thread.tells_close
      fun _ => ⟨trivial, Nat.two_pow_pos 32⟩
    simp only [htraced]
    refine ⟨_, hended.clear, hended.hears, hended.sound, fun _ _ htrace => ?_, nofun⟩
    rw [hmore htrace, List.getLast?_concat]
  | error stop st =>
    rw [hresult] at hrun
    obtain ⟨hstop, es, htelling⟩ := hrun
    cases htrap : Instance.trapOf stop st.machine.place? with
    | error c =>
      simp only [htrap]
      exact ⟨es, htelling.clear, htelling.hears, htelling.sound, nofun, nofun⟩
    -- A trap is told, then the end of the call; the counter that is bumped in between tells
    -- nothing.
    | ok e =>
      obtain ⟨store, thread, more, htraced, htrapped, hmore⟩ := htelling.tell
        (Thread.tells_trapped e.trap e.ip) fun _ => ⟨trivial, Instance.terse_of_trapOf hstop htrap⟩
      obtain ⟨store', thread', more', htraced', hended, hmore'⟩ := htrapped.tell Thread.tells_close
        fun _ => ⟨trivial, Nat.two_pow_pos 32⟩
      simp only at htraced'
      simp only [htrap, htraced, htraced']
      have hcounted : (store'.count inst.config (Counters.trap e.trap.text)).traces =
          store'.traces ∧
          (store'.count inst.config (Counters.trap e.trap.text)).instances = store'.instances := by
        unfold Store.count
        split <;> exact ⟨rfl, rfl⟩
      refine ⟨es ++ more ++ more', ⟨?_, ?_⟩, hended.hears.other (by rw [hcounted.1]), hended.sound,
        nofun, fun e' he' htrace => ⟨es, ?_⟩⟩
      · rw [hcounted.1]
        exact hended.clear.unbounded
      · rw [hcounted.2]
        exact hended.clear.instances
      · obtain rfl := InvokeError.trapped.inj (Except.error.inj he')
        rw [hmore htrace, hmore' htrace, List.append_assoc]
        rfl

include hlegible hhost hterse in
/-- A call tells entries that conclude. -/
theorem Instance.call_tells (fuel : Nat) (function : UInt32) (args : List UInt64) {s : Store H σ}
    (hclear : s.Clear place) :
    ∃ es, Concludes place inst s (inst.call host invoker fuel function args s).1.outcome es
      (inst.call host invoker fuel function args s).2 := by
  unfold Instance.call
  cases inst.idle with
  | some slot => exact Instance.callOn_tells hlegible hhost hterse fuel function args slot hclear
  | none =>
    by_cases hfits : inst.config.stacksFit = true
    · simp only [hfits, if_true]
      exact Instance.callOn_tells hlegible hhost hterse fuel function args 0 hclear
    · simp only [hfits]
      exact ⟨[], hclear, .nothing, nofun, nofun, nofun⟩

end

end IntWasm
