import IntWasm.Proofs.Engine.Limits
import IntWasm.Proofs.Trace.Nesting

/-!
# Traces of invocations

The trace of an invocation of a loaded module tells what the machine does. Calls and returns are
well nested and no deeper than functions may be open, every instruction is the one that the
innermost function is at, and the end of the trace tells how the invocation has ended. Main
statement: `invoke_traces_faithfully`.
-/

namespace IntWasm

open Structured

variable {H σ : Type}

/-! ## Calls -/

/-- An instruction stays in its function. -/
theorem Structured.Mirrors.stays {p : Setting H σ} {m : Module} {count : Nat} {e : Execution H σ}
    {s : State H σ} (hmirrors : Mirrors p m count e s) {f : Activation} {fs : List Activation}
    (hframes : s.machine.frames = f :: fs) {i : Instruction}
    (hat : f.function.body.instructions[f.ip]? = some i) {store store' : Store H σ} {next : Next}
    (hstep : Activation.step p.inst { f with ip := f.ip + 1 } i store = .ok next store') :
    next.StaysIn f.function := by
  have hstacked := hmirrors.stacked
  rw [hframes] at hstacked
  obtain ⟨_, hat', hfollows⟩ := hstacked.represents.1.step store
  obtain rfl := Option.some.inj (hat.symm.trans hat')
  rw [hstep] at hfollows
  obtain ⟨deed, store₁, counters, -, -, hanswers⟩ := hfollows
  cases hanswers with
  | go hkeeps => exact hkeeps.function_eq
  | leave => exact trivial
  | call _ _ hkeeps => exact hkeeps.function_eq

/-- An instruction that is about to run is supported, or the machine breaks down. -/
theorem Run.advance_unsupported {inst : Instance H} {s : State H σ} {f : Activation}
    {fs : List Activation} (hframes : s.machine.frames = f :: fs) {i : Instruction}
    (hat : f.function.body.instructions[f.ip]? = some i) (hop : i.op? = none) :
    ∃ s', Run.advance inst s = .error (.crash (.opcode i.opText)) s' := by
  obtain ⟨store, thread, ⟨frames, outer, slot⟩⟩ := s
  obtain rfl : frames = f :: fs := hframes
  have hcrashes (t : Store H σ) : Activation.step inst { f with ip := f.ip + 1 } i t =
      .error (.crash (.opcode i.opText)) t := by
    rw [Activation.step, hop]
    rfl
  exact ⟨_, Run.advance_of_error hat rfl (hcrashes _)⟩

/-- A call of a function of a valid module is ready to be recorded, if the store has what the module
relies on and functions of the embedder leave it there. -/
theorem Instance.Implements.ready {m : Module} (hvalid : m.Valid) {r : Recording H σ}
    (himpl : r.inst.Implements m) (hpositive : r.inst.config.Positive)
    (htrace : r.inst.config.trace = some r.place)
    (hbefore : r.store.traces[r.place]? = some { kept := r.before })
    (hretains : ∀ c, Moves (Retains m r.inst) (r.host.call r.invoker c))
    (happends : ∀ c, Moves (Store.Appends r.place) (r.host.call r.invoker c)) {type : FuncType}
    (htype : m.functionType? r.function = some type) (hargs : r.args.length = type.params.length)
    (hsupports : Supports m r.inst r.store) : r.Ready where
  trace_eq := htrace
  before_eq := hbefore
  positive := hpositive
  index_eq := himpl.index_eq hvalid.length_eq
  stays := by
    intro s f fs i traces next store hvisits hframes hat hstep
    obtain ⟨codes, hrealizes⟩ := exists_realizes hvalid himpl r.host r.invoker
    obtain ⟨e, -, hmirrors⟩ :=
      hrealizes.visits ((himpl.signature?_eq hvalid r.function).trans htype)
      hargs (length_results_le hvalid hpositive htype) hvisits
    exact Mirrors.stays hmirrors hframes hat hstep
  supported := by
    intro s f fs i hvisits hframes hat
    have hsafe := himpl.runsSafely hvalid hpositive hretains htype hargs hsupports r.slot
    rw [Option.isSome_iff_ne_none]
    intro hop
    obtain ⟨s', herror⟩ := Run.advance_unsupported hframes hat hop
    exact hsafe.advance hvisits herror
  appends := happends

/-! ## Invocations -/

/-- Functions of the embedder only add to the trace at a place, whatever they do. -/
def Host.Appends (host : Host H σ) (fuel place : Nat) : Prop :=
  ∀ depth c, Moves (Store.Appends place) (host.call (Engine.invoke host fuel depth) c)

/-- What is recorded of an invocation of the instance at a place, which calls a function with
words. -/
def Engine.recording (host : Host H σ) (fuel depth address : Nat) (inst : Instance H)
    (function : UInt32) (words : List UInt64) (s : Store H σ) (place : Nat) (before : Array UInt8) :
    Recording H σ :=
  { inst, host, invoker := invoke host fuel depth, function, args := words
    store := begun inst address s, slot := inst.idle.getD 0, place, before }

/-- Counting an invocation and taking the machine away leaves traces alone. -/
theorem Engine.traces_begun (inst : Instance H) (address : Nat) (s : Store H σ) :
    (begun inst address s).traces = s.traces := by
  unfold begun Store.count
  split <;> rfl

/-- The trace of an invocation ends as the one of the call does. -/
theorem Recording.Ready.invoke {host : Host H σ} {fuel depth address place : Nat}
    {inst : Instance H} {function : UInt32} {words : List UInt64} {s : Store H σ}
    {before : Array UInt8}
    (hready : (Engine.recording host fuel depth address inst function words s place before).Ready)
    (hplace : s.instances[address]? = some inst) {name : String} {args : List Value}
    {type : FuncType} (hprepare : inst.prepare name args = .ok (function, type, words)) :
    (∀ values t, Engine.invoke host fuel (depth + 1) address name args s = .ok values t →
      ∃ ended, (Engine.recording host fuel depth address inst function words s place before).Closed
        t (.ok ended)) ∧
    ∀ e t, Engine.invoke host fuel (depth + 1) address name args s = .error e t →
      (Engine.recording host fuel depth address inst function words s place before).Closed t
        (.error e) := by
  generalize hr : Engine.recording host fuel depth address inst function words s place
    before = r at *
  have hclosed : r.Closed
      (inst.call host (Engine.invoke host fuel depth) fuel function words
        (Engine.begun inst address s)).2
      (inst.call host (Engine.invoke host fuel depth) fuel function words
        (Engine.begun inst address s)).1.outcome := by
    have hcallOn := hready.callOn fuel
    subst hr
    unfold Instance.call
    cases hidle : inst.idle with
    | some slot => simpa [Engine.recording, hidle] using hcallOn
    | none =>
      by_cases hfits : inst.config.stacksFit = true
      · simpa [Engine.recording, hidle, hfits] using hcallOn
      · simp only [hfits]
        exact .crashed _
  -- Only the machine is put back after the call.
  unfold Engine.begun at hclosed
  simp only [Engine.invoke, hplace, hprepare]
  generalize inst.call host (Engine.invoke host fuel depth) fuel function words _ =
    result at hclosed ⊢
  obtain ⟨⟨outcome, slot⟩, store⟩ := result
  cases outcome with
  | ok ended =>
    refine ⟨fun values t hok => ⟨ended, hclosed.of_traces ?_⟩, fun e t herror => (by cases herror)⟩
    obtain ⟨-, rfl⟩ := EStateM.Result.ok.inj hok
    cases slot <;> rfl
  | error e =>
    refine ⟨fun values t hok => (by cases hok), fun e' t herror => ?_⟩
    obtain ⟨rfl, rfl⟩ := EStateM.Result.error.inj herror
    refine hclosed.of_traces ?_
    cases slot <;> rfl

/-- Traces are faithful. Take an instance of a loaded module with a trace, which functions of the
embedder only add to, and a store that the embedder has got to without closing the instance. While
an exported function is invoked, the trace holds at every moment what was there before, followed by
notes that tell what the machine has done, and the thread counts as many open functions as the notes
do. When the invocation has given its results, all functions were left again, and a single end is
added. When it has trapped, a single trap and a single end are added. -/
theorem invoke_traces_faithfully {host : Host H σ} {fuel nesting : Nat} {m : Module}
    (hloaded : m.Loaded) {resolver : Option (Resolver H σ)} {config : Config} {s₀ s₁ s : Store H σ}
    {place : Nat} (hgrounded : ∀ r, resolver = some r → r.Grounded s₀.memories.size)
    (hinstance : Engine.instantiate host fuel nesting m resolver config s₀ = .ok place s₁)
    (hacts : host.Acts fuel (· ≠ .errand (.close place))) (hleads : s₁.LeadsTo host fuel place s)
    {trace : Nat} (htrace : config.trace = some trace) (happends : host.Appends fuel trace)
    {before : Array UInt8} (hbefore : s.traces[trace]? = some { kept := before }) :
    ∃ inst, s.instances[place]? = some inst ∧ ∀ depth name args function type words,
      inst.prepare name args = .ok (function, type, words) → ∃ r,
        r = Engine.recording host fuel depth place inst function words s trace before ∧
        (∀ next t, r.Visits next t → ∃ notes, r.Faithful notes ∧ r.Holds notes t.store ∧
          t.thread.depth = Note.depth notes) ∧
        (∀ values t, Engine.invoke host fuel (depth + 1) place name args s = .ok values t →
          ∃ notes, r.Faithful notes ∧ Note.depth notes = 0 ∧ r.Holds (notes ++ [.own .finish]) t) ∧
        ∀ e t, Engine.invoke host fuel (depth + 1) place name args s = .error (.trapped e) t →
          ∃ notes, r.Faithful notes ∧
            r.Holds (notes ++ [.own (.trap (Text.utf8 e.trap.text) e.ip), .own .finish]) t := by
  obtain ⟨bytes, ending, hload⟩ := hloaded
  have hvalid := Module.valid_of_load hload
  have hhost (depth : Nat) := (hacts.moves (Action.allowed_keeps host fuel place) depth).1
  obtain ⟨inst, hplace, hcheck, -, -, hserves⟩ :=
    Engine.exists_serves hvalid hgrounded hinstance hacts hleads
  refine ⟨inst, hplace, fun depth name args function type words hprepare => ⟨_, rfl, ?_⟩⟩
  obtain ⟨hsignature, hlength⟩ := Instance.of_prepare hprepare
  have hretains (c : HostCall H) : Moves (Retains m inst)
      (host.call (Engine.invoke host fuel depth) c) := fun s hsupports =>
    hsupports.mono (hhost depth c s).toExtends
  have hready : (Engine.recording host fuel depth place inst function words s trace
      before).Ready := by
    obtain ⟨-, choice, hconfig, -⟩ := Config.check_eq_ok hcheck
    refine hserves.implements.ready hvalid (Config.positive_of_check hcheck) ?_ ?_ hretains
      (happends depth)
      ((hserves.implements.signature?_eq hvalid function).symm.trans hsignature) hlength
      (hserves.supports.mono (Engine.begun_keeps hplace).toExtends)
    · rw [Engine.recording, hconfig]
      exact htrace
    · simpa only [Engine.recording, Engine.traces_begun] using hbefore
  obtain ⟨hreturned, hstopped⟩ := hready.invoke hplace hprepare
  refine ⟨fun next t hvisits => ?_, fun values t hinvoke => ?_, fun e t hinvoke => ?_⟩
  · obtain ⟨notes, hstands⟩ := hready.visits hvisits
    exact ⟨notes, hstands.ends.1.faithful, hstands.ends.1.holds, hstands.ends.2⟩
  · obtain ⟨ended, hclosed⟩ := hreturned values t hinvoke
    cases hclosed with
    | returned hfaithful hdepth hholds => exact ⟨_, hfaithful, hdepth, hholds⟩
  · cases hstopped _ t hinvoke with
    | trapped hfaithful hholds => exact ⟨_, hfaithful, hholds⟩

/-- The host of this case appends to traces only. -/
theorem writingHost_appends (fuel place : Nat) : writingHost.Appends fuel place := by
  intro depth c s kept hkept
  have hsame : kept ++ ([] : List UInt8) = kept := by simp
  exact ⟨[], hsame.symm ▸ hkept⟩

/-- The function `b` is invoked with a trace, which is empty before and can be read back when it has
ended. -/
theorem exists_asking :
    ∃ (m : Module) (s t : Store Bool Unit) (out : Sink) (read : List TraceEntry),
    Module.load asking .eof = .ok m ∧
    Engine.instantiate writingHost 100 1 m (some questions.resolver) { trace := some 0 }
      tracedStore = .ok 0 s ∧
    (∃ inst, s.instances[0]? = some inst ∧ inst.config.trace = some 0) ∧
    s.traces[0]? = some { kept := #[] } ∧
    Engine.invoke writingHost 100 1 0 "b" [] s = .ok [⟨.i32, 0⟩] t ∧
    t.traces[0]? = some out ∧ TraceEntry.decode { rest := out.kept.toList } = .ok read ∧
    read.map TraceEntry.mark = [1, 3, 1, 2, 3, 2, 4] := by
  have hruns : ((Module.load asking .eof).toOption.any fun m =>
      (succeeded (Engine.instantiate writingHost 100 1 m (some questions.resolver)
        { trace := some 0 } tracedStore)).any fun made =>
          (succeeded (Engine.invoke writingHost 100 1 0 "b" [] made.2)).any fun left =>
            decide (made.1 = 0 ∧ made.2.traces[0]? = some { kept := #[] } ∧ left.1 = [⟨.i32, 0⟩]) &&
            (made.2.instances[0]?.any fun (inst : Instance Bool) => inst.config.trace = some 0) &&
            left.2.traces[0]?.any fun out =>
              (TraceEntry.decode { rest := out.kept.toList }).toOption.any fun read =>
                read.map TraceEntry.mark = [1, 3, 1, 2, 3, 2, 4]) = true := by decide +kernel
  simp only [Option.any_eq_true, Bool.and_eq_true, decide_eq_true_eq, succeeded_eq_some,
    except_toOption_eq_some] at hruns
  obtain ⟨m, hload, ⟨_, s⟩, hinstance, ⟨_, t⟩, hinvoke, ⟨⟨rfl, hempty, rfl⟩, htraced⟩, out, hout,
    read, hread, hmarks⟩ := hruns
  exact ⟨m, s, t, out, read, hload, hinstance, htraced, hempty, hinvoke, hout, hread, hmarks⟩

/-- A module that asks the embedder, and the notes of its call. -/
theorem invoke_traces_faithfully_asking :
    ∃ (m : Module) (s t : Store Bool Unit) (r : Recording Bool Unit) (notes : List Note), m.Loaded ∧
      Engine.instantiate writingHost 100 1 m (some questions.resolver) { trace := some 0 }
        tracedStore = .ok 0 s ∧
      writingHost.Acts 100 (· ≠ .errand (.close 0)) ∧ writingHost.Appends 100 0 ∧
      s.traces[0]? = some { kept := #[] } ∧
      Engine.invoke writingHost 100 1 0 "b" [] s = .ok [⟨.i32, 0⟩] t ∧
      r.place = 0 ∧ r.Faithful notes ∧ Note.depth notes = 0 ∧
          r.Holds (notes ++ [.own .finish]) t := by
  obtain ⟨m, s, t, -, -, hload, hinstance, -, hempty, hinvoke, -⟩ := exists_asking
  have hacts : writingHost.Acts 100 (· ≠ .errand (.close 0)) := answeringHost_acts 100 _
  obtain ⟨inst, hplace, hfaithful⟩ := invoke_traces_faithfully ⟨_, _, hload⟩
    (by rintro _ ⟨⟩; exact Bindings.resolver_grounded (by simp [questions])) hinstance
    hacts .refl rfl
    (writingHost_appends 100 0) hempty
  cases hprepare : inst.prepare "b" [] with
  | error e =>
    simp only [Engine.invoke, hplace, hprepare] at hinvoke
    cases hinvoke
  | ok prepared =>
    obtain ⟨function, type, words⟩ := prepared
    obtain ⟨r, hr, -, hreturned, -⟩ := hfaithful 0 "b" [] function type words hprepare
    obtain ⟨notes, hnotes, hdepth, hholds⟩ := hreturned _ _ hinvoke
    exact ⟨m, s, t, r, notes, ⟨_, _, hload⟩, hinstance, hacts, writingHost_appends 100 0, hempty,
      hinvoke, by rw [hr]; rfl, hnotes, hdepth, hholds⟩

end IntWasm
