import IntWasm.Proofs.Engine.Tracing
import IntWasm.Proofs.Trace.Legibility

/-!
# Traces can be read back

An embedder leaves a trace to the threads that write to it, and otherwise does what it likes, as do
its functions. Whenever a call that is traced has come to its end, all that was written to the trace
so far is read back entry by entry, as long as all texts in it are short enough for the reader.
Names of modules and texts of traps can be longer than that; the writer takes them, and then the
whole trace is refused. Main statement: `traces_are_read_back`.
-/

namespace IntWasm

variable {H σ : Type}

/-! ## What changes of a store tell -/

/-- Counting writes no trace. -/
@[simp] theorem Store.traces_count (s : Store H σ) (c : Config) (f : Counters → Counters) :
    (s.count c f).traces = s.traces := by
  unfold count
  split <;> rfl

/-- Giving a memory back writes no trace. -/
@[simp] theorem Engine.traces_release (inst : Instance H) (s : Store H σ) :
    (release inst s).traces = s.traces := by
  unfold release
  split
  · rfl
  · split <;> rfl

/-- What is told between two stores can be read back, and so can what is told later. If something
else is true, an end is told last. -/
def Store.Tells (place : Nat) (ends : Prop) (s t : Store H σ) : Prop :=
  s.Clear place → t.Clear place ∧
    ∃ es, s.Hears place es t ∧ (∀ e ∈ es, e.Sound) ∧ (ends → es.getLast? = some .finish)

namespace Store.Tells

variable {place : Nat} {ends ends' : Prop} {s t u : Store H σ}

/-- What tells a trace to an end reports it. -/
theorem reports (hst : s.Tells place ends t) : s.Reports place t := by
  intro hclear
  obtain ⟨hclear', es, hes, hsound, -⟩ := hst hclear
  exact ⟨hclear', es, hes, hsound⟩

/-- A trace may be told to end under a stronger condition. -/
theorem mono (hst : s.Tells place ends t) (hends : ends' → ends) : s.Tells place ends' t := by
  intro hclear
  obtain ⟨hclear', es, hes, hsound, hlast⟩ := hst hclear
  exact ⟨hclear', es, hes, hsound, fun h => hlast (hends h)⟩

/-- Nothing is told last. -/
theorem of_reports (hst : s.Reports place t) (hends : ¬ ends) : s.Tells place ends t := by
  intro hclear
  obtain ⟨hclear', es, hes, hsound⟩ := hst hclear
  exact ⟨hclear', es, hes, hsound, fun h => absurd h hends⟩

/-- What was reported may be followed by what is told. -/
theorem after (hst : s.Reports place t) (htu : t.Tells place ends u) : s.Tells place ends u := by
  intro hclear
  obtain ⟨hclear', es, hes, hsound⟩ := hst hclear
  obtain ⟨hclear'', more, hmore, hsound', hlast⟩ := htu hclear'
  refine ⟨hclear'', es ++ more, hes.trans hmore, fun e he => ?_, fun hends => ?_⟩
  · rcases List.mem_append.mp he with he | he
    · exact hsound e he
    · exact hsound' e he
  · rw [List.getLast?_append, hlast hends, Option.some_or]

/-- Something else happens that leaves the trace as it is. -/
theorem kept (hst : s.Tells place ends t) (htu : t.Reports place u)
    (hsame : u.traces[place]? = t.traces[place]?) : s.Tells place ends u := by
  intro hclear
  obtain ⟨hclear', es, hes, hsound, hlast⟩ := hst hclear
  exact ⟨(htu hclear').1, es, hes.other hsame, hsound, hlast⟩

end Store.Tells

namespace Store.Reports

variable {place : Nat} {s : Store H σ}

/-- Counting reports nothing. -/
theorem count (s : Store H σ) (config : Config) (f : Counters → Counters) :
    s.Reports place (s.count config f) := by
  unfold Store.count
  split <;> exact .of_eq rfl rfl

/-- An instance is changed, but not its code. -/
theorem modifyInstance (s : Store H σ) (address : Nat) {f : Instance H → Instance H}
    (hconfig : ∀ inst, (f inst).config = inst.config)
    (hlegible : ∀ inst : Instance H, inst.Legible → (f inst).Legible) :
    s.Reports place (s.modifyInstance address f) := by
  refine of_kept rfl fun {other inst} hat hto hclear => ?_
  simp only [Store.modifyInstance, Array.getElem?_modify] at hat
  split at hat
  · obtain ⟨before, hbefore, rfl⟩ := Option.map_eq_some_iff.mp hat
    exact hlegible before (hclear.instances hbefore (hconfig before ▸ hto))
  · exact hclear.instances hat hto

/-- A waiting machine reports nothing. -/
theorem modifyIdle (s : Store H σ) (address : Nat) (slot : Option UInt64) :
    s.Reports place (s.modifyInstance address ({ · with idle := slot })) :=
  modifyInstance s address (fun _ => rfl) fun _ h => ⟨h.name, h.imports, h.functions⟩

/-- Giving a memory back reports nothing. -/
theorem release (inst : Instance H) (s : Store H σ) : s.Reports place (Engine.release inst s) := by
  unfold Engine.release
  split
  · exact .refl s
  · split <;> exact .of_eq rfl rfl

/-- The start of an invocation reports nothing. -/
theorem begun (inst : Instance H) (address : Nat) (s : Store H σ) :
    s.Reports place (Engine.begun inst address s) :=
  (count s inst.config _).trans (modifyIdle _ address none)

/-- An instance is added that can be read back. -/
theorem addInstance (s : Store H σ) {inst : Instance H} (hlegible : inst.Legible) :
    s.Reports place (s.addInstance inst).2 := by
  refine of_kept rfl fun {address other} hat hto hclear => ?_
  simp only [Store.addInstance, Array.getElem?_push] at hat
  split at hat
  · obtain rfl := Option.some.inj hat
    exact hlegible
  · exact hclear.instances hat hto

/-- Placing an allocator reports nothing. -/
theorem placeAllocator (config : Config) (s : Store H σ) :
    s.Reports place (Engine.placeAllocator config s).2 := by
  unfold Engine.placeAllocator
  split <;> exact .of_eq rfl rfl

/-- An errand that leaves a trace as it is tells nothing. -/
theorem errand {e : Errand H σ} (hkept : (e.run s).traces[place]? = s.traces[place]?) :
    s.Reports place (e.run s) := by
  refine of_kept hkept fun {address inst} hat hto hclear => ?_
  cases e with
  | newAllocator | freeMemory | writeMemory | newGlobal | setGlobal | note =>
    exact hclear.instances hat hto
  | newMemory limits allocator cap =>
    simp only [Errand.run, Store.newMemory] at hat
    split at hat <;> exact hclear.instances hat hto
  | growMemory address pages =>
    simp only [Errand.run, Store.growMemory] at hat
    split at hat <;> exact hclear.instances hat hto
  | close closed =>
    have hreleased (inst : Instance H) :
        s.Reports place ((Engine.release inst s).modifyInstance closed
        ({ · with memory := none, idle := none, closed := true })) :=
      (release inst s).trans (modifyInstance _ closed (fun _ => rfl)
        fun _ h => ⟨h.name, h.imports, h.functions⟩)
    simp only [Errand.run, Engine.close] at hat
    split at hat
    · exact hclear.instances hat hto
    · split at hat
      · exact hclear.instances hat hto
      · exact (hreleased _ hclear).1.instances hat hto

end Store.Reports

/-! ## Calls of the engine -/

/-- A call has come to its end, with results or with a trap. -/
def CallEnded {α : Type} : Except InvokeError α → Prop
  | .ok _ | .error (.trapped _) => True
  | .error (.refused _) | .error (.crashed _) => False

section

variable {place : Nat} (fuel : Nat) {host : Host H σ} {invoker : Invoker H σ}
  (hhost : ∀ c, Moves (Store.Reports place) (host.call invoker c)) (hterse : host.Terse invoker)

include hhost hterse in
/-- A call of a function of an instance that can be read back. -/
theorem Instance.call_reports {inst : Instance H}
    (hlegible : inst.config.trace = some place → inst.Legible) (function : UInt32)
    (args : List UInt64) (s : Store H σ) :
    let result := inst.call host invoker fuel function args s
    s.Tells place (inst.config.trace = some place ∧ CallEnded result.1.outcome) result.2 := by
  intro result hclear
  obtain ⟨es, htold⟩ := Instance.call_tells hlegible hhost hterse fuel function args hclear
  refine ⟨htold.clear, es, htold.hears, htold.sound, ?_⟩
  rintro ⟨htrace, hended⟩
  cases houtcome : result.1.outcome with
  | ok words => exact htold.returned words houtcome htrace
  | error e =>
    cases e with
    | trapped e =>
      obtain ⟨before, rfl⟩ := htold.trapped e houtcome htrace
      rw [List.getLast?_append]
      rfl
    | refused | crashed =>
      rw [houtcome] at hended
      exact hended.elim

end

/-- A call is refused or breaks down before it begins, or is not made. -/
theorem Instance.prepare_error {inst : Instance H} {name : String} {args : List Value}
    {e : InvokeError} (herror : inst.prepare name args = .error e) (t : TrapError) :
    e ≠ .trapped t := by
  rintro rfl
  simp only [prepare, bind, Except.bind, throw, throwThe, MonadExceptOf.throw, pure,
    Except.pure] at herror
  split at herror
  · cases herror
  · have hmap {α : Type} {x : Except Refusal α} {e : InvokeError}
        (h : x.mapError .refused = .error e) : ∃ refusal, e = .refused refusal := by
      cases x with
      | error refusal => exact ⟨refusal, (Except.error.inj h).symm⟩
      | ok a => cases h
    split at herror
    · rename_i hrequire
      obtain ⟨_, rfl⟩ := hmap hrequire
      cases herror
    · split at herror
      · cases herror
      · split at herror
        · cases herror
        · split at herror
          · rename_i hargs
            obtain ⟨_, rfl⟩ := hmap hargs
            cases herror
          · cases herror

section

variable {place fuel nesting : Nat} {host : Host H σ}
  (hhost : ∀ c, Moves (Store.Reports place) (host.call (Engine.invoke host fuel nesting) c))
  (hterse : host.Terse (Engine.invoke host fuel nesting))

include hhost hterse

/-- An invocation tells what can be read back, and an end last, if it comes to its own end. -/
theorem Engine.invoke_tells (address : Nat) (name : String) (args : List Value) (s : Store H σ) :
    s.Tells place
      ((∃ inst, s.instances[address]? = some inst ∧ inst.config.trace = some place) ∧
        match invoke host fuel (nesting + 1) address name args s with
        | .ok _ _ => True
        | .error e _ => ∃ t, e = .trapped t)
      (finalState (invoke host fuel (nesting + 1) address name args s)) := by
  intro hclear
  simp only [invoke]
  cases hat : s.instances[address]? with
  | none =>
    refine Store.Tells.of_reports (.refl s) ?_ hclear
    rintro ⟨⟨inst, ⟨⟩, -⟩, -⟩
  | some inst =>
    simp only
    cases hprepare : inst.prepare name args with
    | error e =>
      refine Store.Tells.of_reports (.refl s) ?_ hclear
      rintro ⟨-, t, rfl⟩
      exact Instance.prepare_error hprepare t rfl
    | ok prepared =>
      obtain ⟨function, type, words⟩ := prepared
      have hcall := Instance.call_reports fuel hhost hterse
        (fun htrace => hclear.instances hat htrace) function words (begun inst address s)
      unfold begun at hcall
      simp only at hcall ⊢
      -- What the call did to the traces is all that matters of it.
      generalize inst.call host (invoke host fuel nesting) fuel function words _ = result at hcall ⊢
      obtain ⟨⟨outcome, slot⟩, t⟩ := result
      have hput {u : Store H σ} (hreports : t.Reports place u) (htraces : u.traces = t.traces) :=
        (hcall.kept hreports (by rw [htraces])).after (.begun inst address s)
      cases outcome with
      | ok words =>
        have hends {ended : Prop} :
            (∃ inst', some inst = some inst' ∧ inst'.config.trace = some place) ∧
            ended → inst.config.trace = some place ∧ True := by
          rintro ⟨⟨_, ⟨⟩, htrace⟩, -⟩
          exact ⟨htrace, trivial⟩
        cases slot with
        | none => exact (hput (.refl t) rfl).mono hends hclear
        | some slot => exact (hput (.modifyIdle t address _) rfl).mono hends hclear
      | error e =>
        have hends : (∃ inst', some inst = some inst' ∧ inst'.config.trace = some place) ∧
            (∃ trap, e = .trapped trap) →
            inst.config.trace = some place ∧
            CallEnded (.error e : Except InvokeError (List UInt64)) := by
          rintro ⟨⟨_, ⟨⟩, htrace⟩, trap, rfl⟩
          exact ⟨htrace, trivial⟩
        cases slot with
        | none => exact (hput (.refl t) rfl).mono hends hclear
        | some slot => exact (hput (.modifyIdle t address _) rfl).mono hends hclear

end

/-- A start function is called at the end of building an instance, and the call comes to its end. -/
def Link.StartEnds (host : Host H σ) (invoker : Invoker H σ) (fuel : Nat) (m : Module)
    (resolver : Option (Resolver H σ)) (allocator : Nat) (begun : Linking H σ) : Prop :=
  ∃ l function, assemble m resolver allocator begun = .ok () l ∧ m.start = some function ∧
    CallEnded (l.inst.call host invoker fuel function [] l.store).1.outcome

section

variable {place fuel : Nat} {host : Host H σ} {invoker : Invoker H σ}
  (hhost : ∀ c, Moves (Store.Reports place) (host.call invoker c)) (hterse : host.Terse invoker)
  {m : Module}

include hhost hterse in
/-- Building an instance tells what can be read back, and an end last, if the start function comes
to its end. -/
theorem Link.build_tells (hvalid : m.Valid) (resolver : Option (Resolver H σ)) (allocator : Nat)
    (s : Store H σ) (c : Config) {ends : Prop}
    (hends : ends → c.trace = some place ∧
      StartEnds host invoker fuel m resolver allocator ⟨s, { config := c }⟩) :
    Leads (build host invoker fuel m resolver allocator) ⟨s, { config := c }⟩
      (fun _ l' => s.Tells place ends l'.store ∧ l'.inst.Legible)
      fun _ l' => s.Tells place ends l'.store := by
  have hassembled := assemble_readable hvalid resolver allocator s c
  rw [build_eq_assemble]
  unfold Leads at hassembled ⊢
  simp only [Bind.bind, EStateM.bind]
  cases hresult : assemble m resolver allocator ⟨s, { config := c }⟩ with
  | error e l =>
    rw [hresult] at hassembled
    refine Store.Tells.of_reports (.of_eq hassembled.traces hassembled.instances) fun h => ?_
    -- A module that was not assembled has no start function that comes to its end.
    obtain ⟨-, l', function, hok, -⟩ := hends h
    cases hresult.symm.trans hok
  | ok _ l =>
    rw [hresult] at hassembled
    have hreports : s.Reports place l.store := .of_eq hassembled.traces hassembled.instances
    unfold runStart
    cases hstart : m.start with
    | none =>
      refine ⟨.of_reports hreports fun h => ?_, hassembled.legible⟩
      obtain ⟨-, l', function, -, hfunction, -⟩ := hends h
      cases hstart.symm.trans hfunction
    | some function =>
      have hcall := (Instance.call_reports fuel hhost hterse (fun _ => hassembled.legible) function
        [] l.store).after hreports
      -- The start function of `ends` is the one that runs here, on the same instance.
      have hlast : ends → l.inst.config.trace = some place ∧
          CallEnded (l.inst.call host invoker fuel function [] l.store).1.outcome := by
        intro h
        obtain ⟨htrace, l', function', hok, hfunction, hended⟩ := hends h
        obtain ⟨-, rfl⟩ := EStateM.Result.ok.inj (hresult.symm.trans hok)
        obtain rfl := Option.some.inj (hstart.symm.trans hfunction)
        exact ⟨hassembled.config ▸ htrace, hended⟩
      have htold := hcall.mono hlast
      simp only [start]
      split <;> rename_i houtcome
      · split at houtcome <;> cases houtcome
        exact ⟨htold, hassembled.legible.name, hassembled.legible.imports,
          hassembled.legible.functions⟩
      · split at houtcome <;> cases houtcome <;> exact htold

end

section

variable {place fuel nesting : Nat} {host : Host H σ}
  (hhost : ∀ c, Moves (Store.Reports place) (host.call (Engine.invoke host fuel nesting) c))
  (hterse : host.Terse (Engine.invoke host fuel nesting))

/-- An instantiation calls a start function, and the call comes to its end. -/
def Engine.StartEnds (host : Host H σ) (fuel nesting : Nat) (m : Module)
    (resolver : Option (Resolver H σ)) (config : Config) (s : Store H σ) : Prop :=
  ∃ c, config.check = .ok c ∧ Link.StartEnds host (invoke host fuel nesting) fuel m resolver
    (placeAllocator c s).1 ⟨(placeAllocator c s).2, { config := c }⟩

include hhost hterse in
/-- An instantiation tells what can be read back, and an end last, if the start function comes to
its end. -/
theorem Engine.instantiate_tells {m : Module} (hvalid : m.Valid) (resolver : Option (Resolver H σ))
    (config : Config) (s : Store H σ) :
    s.Tells place (config.trace = some place ∧ StartEnds host fuel nesting m resolver config s)
      (finalState (instantiate host fuel nesting m resolver config s)) := by
  unfold instantiate
  cases hcheck : config.check with
  | error fault =>
    refine Store.Tells.of_reports (.refl s) ?_
    rintro ⟨-, c, hok, -⟩
    cases hcheck.symm.trans hok
  | ok c =>
    obtain ⟨-, choice, hconfig, -⟩ := Config.check_eq_ok hcheck
    have hends : config.trace = some place ∧ StartEnds host fuel nesting m resolver config s →
        c.trace = some place ∧ Link.StartEnds host (invoke host fuel nesting) fuel m resolver
          (placeAllocator c s).1 ⟨(placeAllocator c s).2, { config := c }⟩ := by
      rintro ⟨htrace, c', hok, hstart⟩
      obtain rfl := Except.ok.inj (hcheck.symm.trans hok)
      exact ⟨by rw [hconfig]; exact htrace, hstart⟩
    refine Store.Tells.after (.placeAllocator c s) ?_
    have hbuilt := Link.build_tells hhost hterse hvalid resolver (placeAllocator c s).1
      (placeAllocator c s).2 c hends
    unfold Leads at hbuilt
    simp only
    generalize Link.build host (invoke host fuel nesting) fuel m resolver (placeAllocator c s).1 _ =
      result at hbuilt ⊢
    cases result with
    | ok _ l =>
      obtain ⟨htold, hlegible⟩ := hbuilt
      have hadded : l.store.Reports place ((l.store.addInstance l.inst).2.count c
          (Counters.instantiation "ok")) := (Store.Reports.addInstance _ hlegible).trans
          (.count _ c _)
      exact htold.kept hadded (by simp [finalState, Store.addInstance])
    | error e l =>
      have hreleased : l.store.Reports place ((release l.inst l.store).count c
          (Counters.instantiation e.label)) := (Store.Reports.release _ _).trans (.count _ c _)
      have hkept := hbuilt.kept hreleased (by simp)
      cases e <;> first | exact hkept | exact hbuilt

end

/-! ## Actions of an embedder -/

/-- An action that does not write to the trace at a place but through threads. -/
def Action.Discreet (place : Nat) (s : Store H σ) : Action H σ → Prop
  | errand e => (e.run s).traces[place]? = s.traces[place]?
  | instantiate .. | invoke .. => True

/-- One discreet action takes a store to another one. -/
def ActsDiscreetly (host : Host H σ) (fuel nesting place : Nat) (s s' : Store H σ) : Prop :=
  ∃ a : Action H σ, a.Discreet place s ∧ a.Admissible nesting s ∧ a.run host fuel nesting s = s'

/-- Functions of an embedder that do nothing but discreet actions, and whose traps have texts with
sizes of 32 bits. -/
structure Host.Discreet (host : Host H σ) (fuel place : Nat) : Prop where
  acts : ∀ nesting c s, Relation.ReflTransGen (ActsDiscreetly host fuel nesting place) s
    (finalState (host.call (Engine.invoke host fuel nesting) c s))
  terse : ∀ nesting, host.Terse (Engine.invoke host fuel nesting)

/-- An action makes a call that is written to the trace at a place, and the call comes to its
end. -/
def Action.Ends (host : Host H σ) (fuel nesting place : Nat) (s : Store H σ) : Action H σ → Prop
  | errand _ => False
  | instantiate inner m resolver config =>
    config.trace = some place ∧ Engine.StartEnds host fuel inner m resolver config s
  | invoke address name args =>
    (∃ inst, s.instances[address]? = some inst ∧ inst.config.trace = some place) ∧
      match Engine.invoke host fuel nesting address name args s with
      | .ok _ _ => True
      | .error e _ => ∃ t, e = .trapped t

/-- What a discreet embedder does can be read back. The induction is on the nesting of invocations:
a function of the embedder starts only invocations of less nesting. -/
theorem Host.Discreet.tells {host : Host H σ} {fuel place : Nat}
    (hdiscreet : host.Discreet fuel place) (nesting : Nat) :
    (∀ c, Moves (Store.Reports place) (host.call (Engine.invoke host fuel nesting) c)) ∧
      ∀ (a : Action H σ) (s : Store H σ), a.Discreet place s → a.Admissible nesting s →
        s.Tells place (a.Ends host fuel nesting place s) (a.run host fuel nesting s) := by
  induction nesting using Nat.strong_induction_on with
  | _ nesting ih =>
    have haction (a : Action H σ) (s : Store H σ) (ha : a.Discreet place s)
        (hadmissible : a.Admissible nesting s) :
        s.Tells place (a.Ends host fuel nesting place s) (a.run host fuel nesting s) := by
      cases a with
      | errand e => exact .of_reports (.errand ha) id
      | instantiate inner m resolver config =>
        obtain ⟨hlt, ⟨bytes, ending, hload⟩, -⟩ := hadmissible
        exact Engine.instantiate_tells (ih inner hlt).1 (hdiscreet.terse inner)
          (Module.valid_of_load hload) resolver config s
      | invoke address name args =>
        cases nesting with
        | zero =>
          refine .of_reports (.refl s) ?_
          rintro ⟨-, t, ⟨⟩⟩
        | succ nesting =>
          exact Engine.invoke_tells (ih nesting (Nat.lt_succ_self _)).1 (hdiscreet.terse nesting)
            address name args s
    refine ⟨fun c s => ?_, haction⟩
    have hsteps := hdiscreet.acts nesting c s
    generalize finalState (host.call (Engine.invoke host fuel nesting) c s) = t at hsteps
    induction hsteps with
    | refl => exact .refl s
    | tail _ hlast ih =>
      obtain ⟨a, ha, hadmissible, rfl⟩ := hlast
      exact ih.trans (haction a _ ha hadmissible).reports

/-- A store that there is at some moment while an embedder does discreet actions, one after another,
the last of which may not have come to its end. -/
inductive Store.Reaches (host : Host H σ) (fuel place : Nat) : Store H σ → Store H σ → Prop
  | here {s} : Reaches host fuel place s s
  | act {nesting s t u} (hact : ActsDiscreetly host fuel nesting place s t)
      (hrest : Reaches host fuel place t u) : Reaches host fuel place s u
  /-- In the middle of an invocation, where a function of the embedder may be acting. -/
  | invoke {nesting s u address name args} {inst : Instance H} {function type words slot next}
      {state : State H σ} (hat : s.instances[address]? = some inst)
      (hprepare : inst.prepare name args = .ok (function, type, words))
      (hvisits : inst.Visits host (Engine.invoke host fuel nesting) function words
        (Engine.begun inst address s) slot next state)
      (hrest : Reaches host fuel place state.store u) : Reaches host fuel place s u
  /-- In the middle of the start function of an instance. -/
  | start {nesting s u resolver function slot next} {m : Module} {config c : Config}
      {l : Linking H σ} {state : State H σ} (hloaded : m.Loaded) (hcheck : config.check = .ok c)
      (hassemble : Link.assemble m resolver (Engine.placeAllocator c s).1
        ⟨(Engine.placeAllocator c s).2, { config := c }⟩ = .ok () l)
      (hvisits : l.inst.Visits host (Engine.invoke host fuel nesting) function [] l.store
        slot next state)
      (hrest : Reaches host fuel place state.store u) : Reaches host fuel place s u

/-- At every moment, what was told so far can be read back. -/
theorem Store.Reaches.reports {host : Host H σ} {fuel place : Nat}
    (hdiscreet : host.Discreet fuel place) {s u : Store H σ}
    (hreaches : s.Reaches host fuel place u) : s.Reports place u := by
  -- In the middle of a run the traces hold what the run has told so far; before and after it the
  -- steps of the embedder report for themselves.
  have hvisited {inst : Instance H} {t : Store H σ} {state : State H σ} {nesting : Nat}
      {function : UInt32} {words : List UInt64} {slot : UInt64} {next : Progress H}
      (hlegible : t.Clear place → inst.config.trace = some place → inst.Legible)
      (hvisits : inst.Visits host (Engine.invoke host fuel nesting) function words t
        slot next state) :
      t.Reports place state.store := by
    intro hclear
    obtain ⟨es, htelling⟩ := Told.visits (hlegible hclear) (hdiscreet.tells nesting).1
      (hdiscreet.terse nesting) hclear hvisits
    exact ⟨htelling.clear, es, htelling.hears, htelling.sound⟩
  induction hreaches with
  | here => exact .refl _
  | @act nesting s t u hact _ ih =>
    obtain ⟨a, ha, hadmissible, rfl⟩ := hact
    exact ((hdiscreet.tells nesting).2 a s ha hadmissible).reports.trans ih
  | @invoke nesting s u address name args inst function type words slot next state hat _
      hvisits _ ih =>
    have hbegun : s.Reports place (Engine.begun inst address s) := .begun inst address s
    intro hclear
    refine ((hbegun.trans (hvisited (fun _ htrace => ?_) hvisits)).trans ih) hclear
    exact hclear.instances hat htrace
  | @start nesting s u resolver function slot next m config c l state hloaded _ hassemble
      hvisits _ ih =>
    obtain ⟨bytes, ending, hload⟩ := hloaded
    have hassembled := (Link.assemble_readable (Module.valid_of_load hload) resolver
      (Engine.placeAllocator c s).1 (Engine.placeAllocator c s).2 c).of_ok hassemble
    have hlinked : (Engine.placeAllocator c s).2.Reports place l.store :=
      .of_eq hassembled.traces hassembled.instances
    exact (((Store.Reports.placeAllocator c s).trans hlinked).trans
      (hvisited (fun _ _ => hassembled.legible) hvisits)).trans ih

/-! ## Reading a trace -/

/-- Entries that were told one after another, up to an end, are read back if their texts are short
enough, and refused otherwise. -/
theorem TraceEntry.decode_told {es : List TraceEntry} (hsound : ∀ e ∈ es, e.Sound)
    (hlast : es.getLast? = some finish) :
    ((∀ e ∈ es, e.text.length ≤ maxText) →
        ∃ read, decode { rest := allBytes es } = .ok read ∧ read.map mark = es.map mark) ∧
      ((∃ e ∈ es, maxText < e.text.length) → ∃ fault, decode { rest := allBytes es } =
          .error fault) := by
  constructor
  · intro hbrief
    have hdecode := decode_eq fun e he => (hsound e he).1.readable (hbrief e he)
    rw [if_pos hlast] at hdecode
    refine ⟨_, hdecode, ?_⟩
    simp only [List.map_map, Function.comp_def, mark_reread]
  · rintro ⟨e, he, hlong⟩
    cases hfirst : es.find? fun e => decide (maxText < e.text.length) with
    | none => exact absurd (decide_eq_true hlong) (List.find?_eq_none.mp hfirst e he)
    | some first =>
      obtain ⟨hfound, before, rest, rfl, hbefore⟩ := List.find?_eq_some_iff_append.mp hfirst
      have hbrief : ∀ e ∈ before, e.Brief := fun e he => by simpa [Brief] using hbefore e he
      have hbytes : allBytes (before ++ first :: rest) = allBytes before ++
          (first.bytes ++ allBytes rest) := by
        rw [allBytes_append]
        rfl
      rw [hbytes]
      exact decode_long (fun e he => (hsound e (by simp [he])).1.readable (hbrief e he))
        (Nat.not_le.mpr (of_decide_eq_true hfound)) (hsound first (by simp)).2 _

/-- Traces can be read back. Take a store with an empty trace that no instance writes to yet, and an
embedder that leaves the trace to threads. At whatever moment a call begins that is traced, if it
comes to its end, then from there on, as long as nothing more is told, the trace holds all entries
that were told since, and all of them are read back, one for one and of the same kinds. The only
condition is that no text among them has more than 65536 bytes; a trace with a longer text is
refused as a whole. -/
theorem traces_are_read_back {host : Host H σ} {fuel place : Nat}
    (hdiscreet : host.Discreet fuel place) {s s₁ : Store H σ}
    (hnone : ∀ (address : Nat) (inst : Instance H), s.instances[address]? = some inst →
      inst.config.trace ≠ some place)
    (hempty : s.traces[place]? = some { kept := #[] }) (hreaches : s.Reaches host fuel place s₁)
    {nesting : Nat} {a : Action H σ} (hadmissible : a.Admissible nesting s₁)
    (hends : a.Ends host fuel nesting place s₁) {t : Store H σ}
    (hkept : t.traces[place]? = (a.run host fuel nesting s₁).traces[place]?) :
    ∃ es bytes, s.Hears place es t ∧ es.getLast? = some .finish ∧
      t.traces[place]? = some { kept := bytes } ∧
      ((∀ e ∈ es, e.text.length ≤ TraceEntry.maxText) →
        ∃ read, TraceEntry.decode { rest := bytes.toList } = .ok read ∧
          read.map TraceEntry.mark = es.map TraceEntry.mark) ∧
      ((∃ e ∈ es, TraceEntry.maxText < e.text.length) →
        ∃ fault, TraceEntry.decode { rest := bytes.toList } = .error fault) := by
  have hclear : s.Clear place := ⟨⟨_, hempty⟩, fun hat htrace => absurd htrace (hnone _ _ hat)⟩
  have hact : a.Discreet place s₁ := by
    cases a with
    | errand e => exact hends.elim
    | instantiate | invoke => exact trivial
  have htells := ((hdiscreet.tells nesting).2 a s₁ hact hadmissible).after
    (hreaches.reports hdiscreet)
  obtain ⟨-, es, hhears, hsound, hlast⟩ := htells hclear
  have hlast := hlast hends
  have htrace : t.traces[place]? =
      some { kept := (#[] : Array UInt8) ++ TraceEntry.allBytes es } := by
    rw [hkept]
    exact hhears.kept_eq (fun e he => (hsound e he).1.fault_eq) hempty
  have hbytes : ((#[] : Array UInt8) ++ TraceEntry.allBytes es).toList =
      TraceEntry.allBytes es := by
    simp
  refine ⟨es, _, hhears.other hkept, hlast, htrace, ?_⟩
  rw [hbytes]
  exact TraceEntry.decode_told hsound hlast

/-- The host of this case writes no traces. -/
theorem writingHost_discreet (fuel place : Nat) : writingHost.Discreet fuel place :=
  ⟨fun _ _ _ => .refl, fun _ _ _ _ _ hfault => by cases hfault⟩

/-- A function that asks the embedder is invoked with a trace. It is entered, calls, enters the
function of the embedder, leaves that, ends and leaves, and the trace ends; all that is read
back. -/
theorem traces_are_read_back_asking :
    ∃ (m : Module) (s t : Store Bool Unit) (es read : List TraceEntry) (bytes : Array UInt8),
      m.Loaded ∧
      Engine.instantiate writingHost 100 1 m (some questions.resolver) { trace := some 0 }
        tracedStore = .ok 0 s ∧
      Engine.invoke writingHost 100 1 0 "b" [] s = .ok [⟨.i32, 0⟩] t ∧
      tracedStore.Hears 0 es t ∧ t.traces[0]? = some { kept := bytes } ∧
      TraceEntry.decode { rest := bytes.toList } = .ok read ∧
      read.map TraceEntry.mark = es.map TraceEntry.mark ∧
      es.map TraceEntry.mark = [1, 3, 1, 2, 3, 2, 4] := by
  obtain ⟨m, s, t, out, read, hload, hinstance, htraced, -, hinvoke, hout, hread, hfound⟩ :=
    exists_asking
  have hdiscreet := writingHost_discreet 100 0
  have hact : ActsDiscreetly writingHost 100 2 0 tracedStore s := by
    refine ⟨.instantiate 1 m (some questions.resolver) { trace := some 0 }, trivial,
      ⟨Nat.one_lt_two, ⟨_, _, hload⟩, trivial⟩, ?_⟩
    simp only [Action.run, hinstance, finalState]
  have hends : (Action.invoke 0 "b" []).Ends writingHost 100 1 0 s := by
    refine ⟨htraced, ?_⟩
    rw [hinvoke]
    trivial
  have hadmissible : (Action.invoke 0 "b" []).Admissible 1 s := trivial
  have hkept : t.traces[0]? = ((Action.invoke 0 "b" []).run writingHost 100 1 s).traces[0]? := by
    simp only [Action.run, hinvoke, finalState]
  obtain ⟨es, bytes, hhears, -, htrace, hshort, hlong⟩ := traces_are_read_back hdiscreet
    (fun address inst hat => by simp [tracedStore] at hat) rfl (.act hact .here) hadmissible hends
    hkept
  obtain rfl := Option.some.inj (hout.symm.trans htrace)
  have hbrief : ∀ e ∈ es, e.text.length ≤ TraceEntry.maxText := by
    intro e he
    by_contra hmore
    obtain ⟨fault, hfault⟩ := hlong ⟨e, he, Nat.not_le.mp hmore⟩
    rw [hread] at hfault
    cases hfault
  obtain ⟨read', hdecode, hmarks⟩ := hshort hbrief
  obtain rfl := Except.ok.inj (hread.symm.trans hdecode)
  exact ⟨m, s, t, es, read, bytes, ⟨_, _, hload⟩, hinstance, hinvoke, hhears, htrace, hdecode,
    hmarks, hmarks ▸ hfound⟩

end IntWasm
