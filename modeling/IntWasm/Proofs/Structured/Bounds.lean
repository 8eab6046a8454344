import IntWasm.Proofs.Config
import IntWasm.Proofs.Engine.Extension
import IntWasm.Proofs.Module.Functions

/-!
# Machines stay within their bounds

What a machine holds fits on its stacks in every state that a call goes through, and everything that
an instruction looks up is there, as long as the store has what the code relies on. So a machine
stops only with a trap that code raises, because a function of the embedder fails, or because the
steps that were granted are used up. Main statement: `Instance.Implements.runsSafely`.
-/

namespace IntWasm

/-- A stop on purpose: a trap that code raises, or a function of the embedder that has failed. -/
def Stop.Raised : Stop → Prop
  | .trap _ | .host _ => True
  | .outOfRange | .crash _ => False

variable {H σ : Type}

/-- What a call does to the store holds in all states that it goes through. -/
theorem Instance.Visits.moves {inst : Instance H} {host : Host H σ} {invoker : Invoker H σ}
    {function : UInt32} {args : List UInt64} {store : Store H σ} {slot : UInt64}
    {R : Store H σ → Store H σ → Prop} (hallows : inst.Allows R)
    (hhost : ∀ c, Moves R (host.call invoker c)) {next : Progress H} {s : State H σ}
    (hvisits : inst.Visits host invoker function args store slot next s) : R store s.store := by
  induction hvisits with
  | start _ hcall =>
    have hmoves := Run.call_moves hallows function
      ⟨store, inst.newThread, { outer := args.reverse, slot }⟩
    rwa [hcall] at hmoves
  | @advance s _ _ _ hadvance ih =>
    have hmoves := Run.advance_moves hallows s
    rw [hadvance] at hmoves
    exact hallows.trans ih hmoves
  | @perform c s _ _ hperform ih =>
    have hmoves := Run.performHostCall_moves hallows hhost c s
    rw [hperform] at hmoves
    exact hallows.trans ih hmoves

namespace Structured

/-! ## States -/

section

variable {p : Setting H σ} {m : Module} {count : Nat} {e : Execution H σ} {s : State H σ}

/-- The labels and the activations of a machine that stands for frames fit on its stacks. -/
theorem Stacked.labels_and_depth_le {inst : Instance H} {pending : Nat} {outer : List UInt64}
    {frames : List Frame} {fs : List Activation}
    (hstacked : Stacked m inst count outer pending frames fs) (hpositive : inst.config.Positive)
    (slot : UInt64) :
    (Machine.labelCount ⟨fs, outer, slot⟩ : Int) ≤ inst.config.maxControlDepth ∧
      (Machine.depth ⟨fs, outer, slot⟩ : Int) ≤ inst.config.maxCallDepth := by
  have hcontrol := hpositive.controlDepth
  have hcalls := hpositive.callDepth
  cases hstacked with
  | outermost =>
    simp only [Machine.labelCount, Machine.depth]
    omega
  | activation hrep hseated =>
    have hlabels := hrep.labels_le
    have hnesting := hseated.nesting_le
    have hcallers := hseated.callers_lt
    simp only [Machine.labelCount, Machine.depth]
    omega

/-- A machine that stands for frames fits on its stacks. -/
theorem Stacked.fits {inst : Instance H} {frames : List Frame} {machine : Machine}
    (hstacked : Stacked m inst count machine.outer 0 frames machine.frames)
    (hcount : (count : Int) ≤ inst.config.maxOperandStack) (hpositive : inst.config.Positive) :
    Fits inst.config machine := by
  obtain ⟨hlabels, hdepth⟩ := hstacked.labels_and_depth_le hpositive machine.slot
  refine ⟨hstacked.height_nonneg machine.slot, ?_, hlabels, hdepth⟩
  obtain ⟨fs, outer, slot⟩ := machine
  cases hstacked with
  | outermost _ _ _ hlength =>
    simp only [Machine.height] at hlength ⊢
    omega
  | activation hrep hseated =>
    have hsize := hrep.size_eq
    have hlength := hrep.length_le
    have hstack := hseated.stack_le
    simp only [Machine.height, Activation.height]
    omega

/-- A machine that is about to call a function of the embedder fits on its stacks, for the arguments
are on them. -/
theorem Asks.fits {frame : Frame} {function : UInt32} {args : List UInt64} {type : FuncType}
    {store : Store H σ} {rest : List UInt64}
    (hasks : Asks p m count e s frame function args type store rest)
    (hpositive : p.inst.config.Positive) : Fits p.inst.config s.machine := by
  have hheight := height_setOperands hasks.operands_eq
  have hnonneg := hasks.stacked.height_nonneg (s.machine.setOperands rest).slot
  obtain ⟨hlabels, hdepth⟩ :=
    hasks.stacked.labels_and_depth_le hpositive (s.machine.setOperands rest).slot
  refine ⟨?_, hasks.height_le, labelCount_setOperands ▸ hlabels, depth_setOperands ▸ hdepth⟩
  have hbelow : 0 ≤ (s.machine.setOperands rest).height := hnonneg
  omega

/-- A machine that stands for an execution fits on its stacks. -/
theorem Reaches.fits {next : Progress H} (hreaches : Reaches p m count e s next)
    (hcount : (count : Int) ≤ p.inst.config.maxOperandStack) (hpositive : p.inst.config.Positive) :
    Fits p.inst.config s.machine := by
  cases next with
  | done => exact hreaches.1.stacked.fits hcount hpositive
  | more => exact Mirrors.stacked hreaches |>.fits hcount hpositive
  | host c =>
    obtain ⟨frame, function, args, f, store, rest, hasks, -⟩ := hreaches
    exact hasks.fits hpositive

/-- An execution fails on purpose. -/
theorem Fails.raised {stop : Stop} {store : Store H σ} (hfails : Fails p e stop store) :
    stop.Raised := by
  cases hfails <;> exact trivial

/-- A machine that stands for an execution stops on purpose, if the store has what the code relies
on. -/
theorem Stops.raised {stop : Stop} {store : Store H σ} (hstops : Stops p m e s stop store)
    (hsupports : Supports m p.inst s.store) : stop.Raised := by
  cases hstops with
  | exhausted hstop => simp only [hstop, Stop.Raised]
  | mismatch hstop => simp only [hstop, Stop.Raised]
  | fails _ hfails => exact hfails.raised
  | unsupported _ _ hlacks =>
    obtain ⟨traces, hlacks⟩ := hlacks
    exact absurd ⟨hsupports.global, hsupports.memory, hsupports.table⟩ hlacks

end

/-! ## Calls -/

/-- The code of a module still finds in a store what it relied on in another one. -/
def Retains (m : Module) (inst : Instance H) (s s' : Store H σ) : Prop :=
  Supports m inst s → Supports m inst s'

/-- Code retains what instances need. -/
theorem allows_retains (m : Module) (inst : Instance H) :
    inst.Allows (Retains (σ := σ) m inst) where
  refl _ hsupports := hsupports
  trans _ _ _ hst htu hsupports := htu (hst hsupports)
  touches htouches hsupports :=
    hsupports.mono ((inst.allows_keeps 0).touches htouches).toExtends

end Structured

/-- A call of a function stays within the bounds of the machine: in every state that it goes through
all that is on the stacks fits on them, and from there the machine stops on purpose only. A call
that ends gives `count` results, or it was stopped on purpose or because its steps were used up. -/
structure Instance.RunsSafely (inst : Instance H) (host : Host H σ) (invoker : Invoker H σ)
    (function : UInt32) (args : List UInt64) (count : Nat) (store : Store H σ) (slot : UInt64) :
    Prop where
  fits : ∀ {next s}, inst.Visits host invoker function args store slot next s →
    Structured.Fits inst.config s.machine
  advance : ∀ {s stop s'}, inst.Visits host invoker function args store slot .more s →
    Run.advance inst s = .error stop s' → stop.Raised
  perform : ∀ {c s stop s'}, inst.Visits host invoker function args store slot (.host c) s →
    Run.performHostCall host invoker inst c s = .error stop s' → stop.Raised
  ends : ∀ fuel, match inst.runFunction host invoker fuel function args
      ⟨store, inst.newThread, { slot }⟩ with
    | .ok _ s => s.machine.operands.length = count
    | .error stop _ => stop.Raised ∨ stop = .crash .outOfFuel

namespace Structured

/-- The machines that run a valid module run structured code. -/
theorem exists_realizes {m : Module} (hvalid : m.Valid) {inst : Instance H}
    (himpl : inst.Implements m) (host : Host H σ) (invoker : Invoker H σ) :
    ∃ codes, Realizes ⟨inst, codes, host, invoker⟩ m := by
  obtain ⟨codes, hwrites⟩ := himpl.exists_codes hvalid
  exact ⟨codes, Instance.Implements.realizes himpl hvalid hwrites⟩

/-- Results of functions fit on every operand stack. -/
theorem length_results_le {m : Module} (hvalid : m.Valid) {inst : Instance H}
    (hpositive : inst.config.Positive) {function : UInt32} {type : FuncType}
    (htype : m.functionType? function = some type) :
    (type.results.length : Int) ≤ inst.config.maxOperandStack := by
  have hle := (hvalid.plain.functionType? htype).results_le
  have hstack := hpositive.operandStack
  omega

/-- The operands of a machine without activations are the results. -/
theorem Mirrors.length_operands {p : Setting H σ} {m : Module} {count : Nat} {e : Execution H σ}
    {s : State H σ} (hmirrors : Mirrors p m count e s) (hframes : s.machine.frames = []) :
    s.machine.operands.length = count := by
  have hstacked := hmirrors.stacked
  rw [hframes] at hstacked
  generalize e.frame :: e.callers = frames at hstacked
  cases hstacked with
  | outermost _ _ _ hcount => simpa [Machine.operands, hframes] using hcount

end Structured

open Structured in
/-- Calls of the functions of a valid module stay within the bounds of the machine, if the store has
what the module relies on and the functions of the embedder leave it there. -/
theorem Instance.Implements.runsSafely {m : Module} (hvalid : m.Valid) {inst : Instance H}
    (himpl : inst.Implements m) (hpositive : inst.config.Positive) {host : Host H σ}
    {invoker : Invoker H σ} (hhost : ∀ c, Moves (Retains m inst) (host.call invoker c))
    {function : UInt32} {type : FuncType} (htype : m.functionType? function = some type)
    {args : List UInt64} (hargs : args.length = type.params.length) {store : Store H σ}
    (hsupports : Supports m inst store) (slot : UInt64) :
    inst.RunsSafely host invoker function args type.results.length store slot := by
  -- Every state that a run visits mirrors an execution of the code; the bounds are read off there.
  obtain ⟨codes, hrealizes⟩ := exists_realizes hvalid himpl host invoker
  have hsignature := (himpl.signature?_eq hvalid function).trans htype
  have hcount := length_results_le hvalid hpositive htype
  have hreaches {next s} (hvisits : inst.Visits host invoker function args store slot next s) :=
    hrealizes.visits hsignature hargs hcount hvisits
  have hadvance {s stop s'} (hvisits : inst.Visits host invoker function args store slot .more s)
      (herror : Run.advance inst s = .error stop s') : stop.Raised := by
    obtain ⟨e, -, hmirrors⟩ := hreaches hvisits
    have hproceeds := Mirrors.advance hrealizes hmirrors
    rw [herror] at hproceeds
    exact Stops.raised hproceeds (hvisits.moves (allows_retains m inst) hhost hsupports)
  have hperform {c s stop s'}
      (hvisits : inst.Visits host invoker function args store slot (.host c) s)
      (herror : Run.performHostCall host invoker inst c s = .error stop s') : stop.Raised := by
    obtain ⟨e, -, hcalls⟩ := hreaches hvisits
    have hfails := Calls.perform hcalls hcount
    rw [herror] at hfails
    exact Fails.raised hfails
  refine ⟨fun hvisits => ?_, hadvance, hperform, fun fuel => ?_⟩
  · obtain ⟨e, -, hreached⟩ := hreaches hvisits
    exact hreached.fits hcount hpositive
  · have hconcludes := hrealizes.runFunction hsignature hargs hcount fuel store slot
    cases hresult : inst.runFunction host invoker fuel function args
        ⟨store, inst.newThread, { slot }⟩ with
    | ok _ s =>
      simp only [hresult] at hconcludes
      obtain ⟨e, -, hmirrors, hframes⟩ := hconcludes
      exact hmirrors.length_operands hframes
    | error stop s =>
      rcases Instance.runFunction_error hresult with
        ⟨-, hfull⟩ | ⟨hroom, hcall⟩ | hfuel | ⟨t, hvisits, herror⟩ | ⟨c, t, hvisits, herror⟩
      · exact .inl (by simp only [hfull, Stop.Raised])
      · have hasks := asks_invoke (p := ⟨inst, codes, host, invoker⟩) (m := m) store inst.newThread
          slot hsignature hargs hroom
        have hproceeds : Proceeds ⟨inst, codes, host, invoker⟩ m _ _
            ⟨store, inst.newThread, { slot }⟩ (Run.call inst function _) :=
          hasks.call hrealizes (attends_newThread inst)
        rw [hcall] at hproceeds
        exact .inl (Stops.raised hproceeds hsupports)
      · exact .inr hfuel
      · exact .inl (hadvance hvisits herror)
      · exact .inl (hperform hvisits herror)

end IntWasm
