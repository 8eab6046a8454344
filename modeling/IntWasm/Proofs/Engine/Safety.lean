import IntWasm.Proofs.Engine.Instances
import IntWasm.Proofs.Structured.Bounds

/-!
# Loaded code is safe

An instance of a loaded module keeps all that its code relies on, whatever the embedder does later,
unless it closes the instance. So every call of an exported function stays within the bounds of the
machine, and an invocation gives the results that the signature declares or stops on purpose. Only a
machine whose stacks are too large for any computer cannot be made in the first place. Main
statement: `invoke_runs_safely`.
-/

namespace IntWasm

open Structured

variable {H σ : Type}

/-! ## Invocations -/

namespace Instance

variable {inst : Instance H} {m : Module} {store : Store H σ}

/-- The words of arguments of the right types. -/
theorem checkArgs_eq_ok (name : String) (i : Nat) {types : List ValueType} {args : List Value}
    (htypes : args.map (·.type) = types) :
    checkArgs name i types args = .ok (args.map (·.bits)) := by
  induction args generalizing types i with
  | nil =>
    subst htypes
    rfl
  | cons v args ih =>
    subst htypes
    simp [checkArgs, ih (i + 1) rfl]

/-- What an instance exports as a function is a function of the module that it serves. -/
theorem Serves.exports (hserves : inst.Serves m store) (hvalid : m.Valid) {name : String}
    {e : Export} (hexport : inst.require name .function = .ok e) :
    e ∈ m.exports.getD [] ∧ e.name = name ∧ ∃ type, m.functionType? e.index = some type := by
  unfold require at hexport
  split at hexport
  · rename_i found hfound
    split at hexport
    · rename_i hkind
      obtain rfl := Except.ok.inj hexport
      have hmem := List.mem_reverse.mp (List.mem_of_find?_eq_some hfound)
      rw [hserves.exports_eq] at hmem
      exact ⟨hmem, by simpa using List.find?_some hfound,
        Option.isSome_iff_exists.mp (hvalid.exports found hmem hkind)⟩
    · cases hexport
  · cases hexport

/-- An invocation of an exported function with arguments of the right types calls it. -/
theorem Serves.prepare_eq_ok (hserves : inst.Serves m store) (hvalid : m.Valid)
    (hopen : inst.closed = false) {name : String} {e : Export}
    (hexport : inst.require name .function = .ok e) {type : FuncType}
    (htype : m.functionType? e.index = some type) {args : List Value}
    (hargs : args.map (·.type) = type.params) :
    inst.prepare name args = .ok (e.index, type, args.map (·.bits)) := by
  have hsignature := (hserves.implements.signature?_eq hvalid e.index).trans htype
  have hlength : args.length = type.params.length := by rw [← hargs, List.length_map]
  simp [prepare, hopen, hexport, hsignature, hlength, checkArgs_eq_ok name 0 hargs,
    Except.mapError]

end Instance

/-- A call of a function on a machine that has a given word in its result slot is stopped on
purpose, which is reported as a trap: with the place, if any, that the machine has got to. -/
def Instance.TrapsWith (inst : Instance H) (host : Host H σ) (invoker : Invoker H σ) (fuel : Nat)
    (function : UInt32) (args : List UInt64) (store : Store H σ) (slot : UInt64)
    (e : TrapError) : Prop :=
  ∃ stop s, inst.runFunction host invoker fuel function args ⟨store, inst.newThread, { slot }⟩ =
    .error stop s ∧ stop.Raised ∧ trapOf stop s.machine.place? = .ok e

section

variable {inst : Instance H} {host : Host H σ} {invoker : Invoker H σ} {function : UInt32}
  {args : List UInt64} {count : Nat} {store : Store H σ}

/-- A call that stays within the bounds of the machine ends with its results, on purpose or out of
steps. -/
theorem Instance.RunsSafely.callOn {slot : UInt64}
    (hsafe : inst.RunsSafely host invoker function args count store slot) (fuel : Nat) :
    match (inst.callOn host invoker fuel function args slot store).1.outcome with
    | .ok words => words.length = count
    | .error (.trapped e) => inst.TrapsWith host invoker fuel function args store slot e
    | .error (.crashed c) => c = .outOfFuel
    | .error (.refused _) => False := by
  have hends := hsafe.ends fuel
  unfold Instance.callOn
  cases hresult : inst.runFunction host invoker fuel function args
      ⟨store, inst.newThread, { slot }⟩ with
  | ok _ s =>
    rw [hresult] at hends
    obtain ⟨traces, out, htraced⟩ := Run.traced_eq inst.config s Thread.close
    simpa [htraced] using hends
  | error stop s =>
    rw [hresult] at hends
    cases htrap : Instance.trapOf stop s.machine.place? with
    | ok e =>
      have hraised : stop.Raised := by
        rcases hends with hraised | rfl
        · exact hraised
        · cases htrap
      simp only [htrap]
      exact ⟨stop, s, hresult, hraised, htrap⟩
    | error c =>
      simp only [htrap]
      rcases hends with hraised | rfl
      · cases stop with
        | crash => exact hraised.elim
        | trap | host | outOfRange => cases htrap
      · exact (Except.error.inj htrap).symm

/-- A call also breaks down if the stacks of the machine cannot be made. -/
theorem Instance.RunsSafely.call
    (hsafe : ∀ slot, inst.RunsSafely host invoker function args count store slot) (fuel : Nat) :
    match (inst.call host invoker fuel function args store).1.outcome with
    | .ok words => words.length = count
    | .error (.trapped e) =>
      inst.TrapsWith host invoker fuel function args store (inst.idle.getD 0) e
    | .error (.crashed c) => c = .outOfFuel ∨ c = .stackSize ∧ inst.config.stacksFit = false
    | .error (.refused _) => False := by
  have hon := (hsafe (inst.idle.getD 0)).callOn fuel
  unfold Instance.call
  cases hidle : inst.idle with
  | some slot =>
    rw [hidle] at hon
    simp only [Option.getD_some] at hon ⊢
    generalize (inst.callOn host invoker fuel function args slot store).1.outcome = outcome at hon ⊢
    cases outcome with
    | ok words => exact hon
    | error e => cases e <;> first | exact hon | exact .inl hon
  | none =>
    rw [hidle] at hon
    cases hfit : inst.config.stacksFit with
    | false => exact .inr ⟨rfl, rfl⟩
    | true =>
      simp only [Option.getD_none, if_true] at hon ⊢
      generalize (inst.callOn host invoker fuel function args 0 store).1.outcome = outcome at hon ⊢
      cases outcome with
      | ok words => exact hon
      | error e => cases e <;> first | exact hon | exact .inl hon

end

/-- The values of a result have the types that are declared. -/
theorem map_type_resultValues {types : List ValueType} {words : List UInt64}
    (hlength : words.length = types.length) :
    (resultValues types words).map (·.type) = types := by
  induction types generalizing words with
  | nil => rfl
  | cons t types ih =>
    cases words with
    | nil => cases hlength
    | cons w words =>
      have hrest := @ih words (by simpa using hlength)
      unfold resultValues at hrest ⊢
      rw [List.zipWith_cons_cons, List.map_cons, hrest]
      rfl

/-- The store in which the function of an invocation of the instance at a place is called. -/
def Engine.begun (inst : Instance H) (place : Nat) (s : Store H σ) : Store H σ :=
  (s.count inst.config Counters.invocation).modifyInstance place ({ · with idle := none })

/-- An invocation that has begun keeps its instance. -/
theorem Engine.begun_keeps {inst : Instance H} {place : Nat} {s : Store H σ}
    (hplace : s.instances[place]? = some inst) : s.Keeps place (Engine.begun inst place s) :=
  Store.Keeps.waits none hplace (by simp)
    ((inst.allows_keeps place).count s inst.config Counters.invocation)

/-- An invocation of a function of an instance at a place that stays within the bounds of the
machine, step by step. It gives values of the types of the results, or its call is stopped on
purpose and it fails with the trap that this is reported as. It only breaks down out of steps, or
before it begins, if its stacks are too large to be made. -/
structure Engine.SafeCall (host : Host H σ) (fuel depth : Nat) (inst : Instance H) (place : Nat)
    (name : String) (function : UInt32) (type : FuncType) (args : List Value) (s : Store H σ) :
    Prop where
  run : ∀ slot, inst.RunsSafely host (invoke host fuel depth) function (args.map (·.bits))
    type.results.length (begun inst place s) slot
  outcome : match invoke host fuel (depth + 1) place name args s with
    | .ok values _ => values.map (·.type) = type.results
    | .error (.trapped t) _ => inst.TrapsWith host (invoke host fuel depth) fuel function
        (args.map (·.bits)) (begun inst place s) (inst.idle.getD 0) t
    | .error (.crashed c) _ => c = .outOfFuel ∨ c = .stackSize ∧ inst.config.stacksFit = false
    | .error (.refused _) _ => False

/-- An invocation whose arguments are in order is a safe call. -/
theorem Engine.safeCall_of_prepare {host : Host H σ} {fuel depth place : Nat} {s : Store H σ}
    {inst : Instance H} (hplace : s.instances[place]? = some inst) {name : String}
    {args : List Value} {function : UInt32} {type : FuncType}
    (hprepare : inst.prepare name args = .ok (function, type, args.map (·.bits)))
    (hsafe : ∀ slot, inst.RunsSafely host (invoke host fuel depth) function (args.map (·.bits))
      type.results.length (begun inst place s) slot) :
    SafeCall host fuel depth inst place name function type args s := by
  refine ⟨hsafe, ?_⟩
  have hproper := Instance.RunsSafely.call hsafe fuel
  unfold invoke
  simp only [hplace, hprepare]
  unfold begun at hproper
  generalize inst.call host (invoke host fuel depth) fuel function _ _ = result at hproper ⊢
  obtain ⟨⟨outcome, slot⟩, store⟩ := result
  cases outcome with
  | ok words => exact map_type_resultValues hproper
  | error e => cases e <;> exact hproper

/-! ## Whatever happens in between -/

/-- What an embedder may do to an instance at a place but close it, one action after another. -/
def Store.LeadsTo (host : Host H σ) (fuel place : Nat) : Store H σ → Store H σ → Prop :=
  Relation.ReflTransGen fun s s' =>
    ∃ nesting, Acts host fuel nesting (· ≠ .errand (.close place)) s s'

/-- An instance of a loaded module still has all that its code relies on in every store that the
embedder has got to without closing it, and a machine waits for it only if one can be made. -/
theorem Engine.exists_serves {host : Host H σ} {fuel nesting place : Nat} {m : Module}
    (hvalid : m.Valid) {resolver : Option (Resolver H σ)} {config : Config} {s₀ s₁ s : Store H σ}
    (hgrounded : ∀ r, resolver = some r → r.Grounded s₀.memories.size)
    (hinstance : instantiate host fuel nesting m resolver config s₀ = .ok place s₁)
    (hacts : host.Acts fuel (· ≠ .errand (.close place))) (hleads : s₁.LeadsTo host fuel place s) :
    ∃ inst, s.instances[place]? = some inst ∧ config.check = .ok inst.config ∧
      inst.closed = false ∧ (inst.idle.isSome → inst.config.stacksFit) ∧ inst.Serves m s := by
  have hallowed := Action.allowed_keeps host fuel place
  have hkeeps : s₁.Keeps place s := hallowed.many
    (fun s s' ⟨nesting, hstep⟩ => (hacts.moves hallowed nesting).2 s s' hstep) hleads
  obtain ⟨inst, hplace, hcheck, hopen, hfits, hserves⟩ :=
    instantiate_serves hvalid (hacts.moves hallowed nesting).1 hgrounded hinstance
  obtain ⟨idle, hplace', hmachine⟩ := hkeeps.instances hplace
  exact ⟨{ inst with idle }, hplace', hcheck, hopen, fun hsome => (hmachine hsome).elim hfits id,
    (hserves.mono hkeeps.toExtends).idle idle⟩

/-- Loaded code is safe. Take an instance of a loaded module, with any accepted configuration and
any resolver that answers with what is there, and a store that the embedder has got to from there
without closing the instance. Every call of an exported function with arguments of the types of its
parameters finds everything that it looks up and puts nothing on the stacks of the machine that does
not fit, and the invocation gives results of the right types or stops on purpose. -/
theorem invoke_runs_safely {host : Host H σ} {fuel nesting : Nat} {m : Module} (hloaded : m.Loaded)
    {resolver : Option (Resolver H σ)} {config : Config} {s₀ s₁ s : Store H σ} {place : Nat}
    (hgrounded : ∀ r, resolver = some r → r.Grounded s₀.memories.size)
    (hinstance : Engine.instantiate host fuel nesting m resolver config s₀ = .ok place s₁)
    (hacts : host.Acts fuel (· ≠ .errand (.close place))) (hleads : s₁.LeadsTo host fuel place s) :
    ∃ inst, s.instances[place]? = some inst ∧ config.check = .ok inst.config ∧
      ∀ name e, inst.require name .function = .ok e →
        e ∈ m.exports.getD [] ∧ e.name = name ∧ ∃ type, m.functionType? e.index = some type ∧
        ∀ args : List Value, args.map (·.type) = type.params → ∀ depth,
          Engine.SafeCall host fuel depth inst place name e.index type args s := by
  obtain ⟨bytes, ending, hload⟩ := hloaded
  have hvalid := Module.valid_of_load hload
  have hhost (depth : Nat) := (hacts.moves (Action.allowed_keeps host fuel place) depth).1
  obtain ⟨inst, hplace, hcheck, hopen, -, hserves⟩ :=
    Engine.exists_serves hvalid hgrounded hinstance hacts hleads
  refine ⟨inst, hplace, hcheck, fun name e hexport => ?_⟩
  obtain ⟨hmem, hname, type, htype⟩ := hserves.exports hvalid hexport
  refine ⟨hmem, hname, type, htype, fun args hargs depth => ?_⟩
  have hlength : (args.map (·.bits)).length = type.params.length := by
    rw [List.length_map, ← hargs, List.length_map]
  have hretains (c : HostCall H) : Moves (Retains m inst)
      (host.call (Engine.invoke host fuel depth) c) := fun s hsupports =>
    hsupports.mono (hhost depth c s).toExtends
  have hsupports := hserves.supports.mono (Engine.begun_keeps hplace).toExtends
  exact Engine.safeCall_of_prepare hplace
    (hserves.prepare_eq_ok hvalid hopen hexport htype hargs)
    fun slot => Instance.Implements.runsSafely hvalid hserves.implements
      (Config.positive_of_check hcheck) hretains htype hlength hsupports slot

/-- The module `summing` sums up for the second time as for the first, and breaks down if its stacks
are to be larger than any can be. -/
theorem exists_summed : ∃ m s₁ s t u v, ∃ (inst : Instance Unit) (once : List Value),
    Module.load summing .eof = .ok m ∧
    m.functionType? 0 = some { params := [.i32], results := [.i32] } ∧
    Engine.instantiate growingHost 100 1 m none {} bareStore = .ok 0 s₁ ∧
    Engine.invoke growingHost 100 1 0 "sum" [⟨.i32, 2⟩] s₁ = .ok once s ∧
    Engine.invoke growingHost 100 1 0 "sum" [⟨.i32, 3⟩] s = .ok [⟨.i32, 6⟩] t ∧
    s.instances[0]? = some inst ∧
    inst.require "sum" .function = .ok ⟨"sum", .function, 0⟩ ∧
    Engine.instantiate growingHost 100 1 m none { maxCallDepth := 0x4000000000000000 } bareStore =
      .ok 0 u ∧
    Engine.invoke growingHost 100 1 0 "sum" [⟨.i32, 3⟩] u = .error (.crashed .stackSize) v := by
  have hruns : ((Module.load summing .eof).toOption.any fun m =>
      m.functionType? 0 == some { params := [.i32], results := [.i32] } &&
      ((succeeded (Engine.instantiate growingHost 100 1 m none {} bareStore)).any fun made =>
        made.1 == 0 && (succeeded (Engine.invoke growingHost 100 1 0 "sum" [⟨.i32, 2⟩] made.2)).any
        fun once =>
          (succeeded (Engine.invoke growingHost 100 1 0 "sum" [⟨.i32, 3⟩] once.2)).any fun twice =>
            twice.1 == [⟨.i32, 6⟩] && once.2.instances[0]?.any fun (inst : Instance Unit) =>
              (inst.require "sum" .function).toOption == some ⟨"sum", .function, 0⟩) &&
      (succeeded (Engine.instantiate growingHost 100 1 m none { maxCallDepth := 0x4000000000000000 }
        bareStore)).any fun made => made.1 == 0 &&
          (failed (Engine.invoke growingHost 100 1 0 "sum" [⟨.i32, 3⟩] made.2)).any fun crashed =>
            crashed.1 == .crashed .stackSize) = true := by decide +kernel
  simp only [Option.any_eq_true, Bool.and_eq_true, beq_iff_eq, succeeded_eq_some, failed_eq_some,
    except_toOption_eq_some] at hruns
  obtain ⟨m, hload, ⟨htype, ⟨_, s₁⟩, hinstance, rfl, ⟨once, s⟩, hfirst, ⟨_, t⟩, hsecond, rfl, inst,
    hfound, hexport⟩, ⟨_, u⟩, hinstance', rfl, ⟨_, v⟩, herror, rfl⟩ := hruns
  exact ⟨m, s₁, s, t, u, v, inst, once, hload, htype, hinstance, hfirst, hsecond, hfound, hexport,
    hinstance', herror⟩

/-- A sum whose every state is safe. -/
theorem invoke_runs_safely_summing :
    ∃ m s₁ s t inst, m.Loaded ∧
      Engine.instantiate growingHost 100 1 m none {} bareStore = .ok 0 s₁ ∧
      growingHost.Acts 100 (· ≠ .errand (.close 0)) ∧ s₁.LeadsTo growingHost 100 0 s ∧
      Engine.invoke growingHost 100 1 0 "sum" [⟨.i32, 3⟩] s = .ok [⟨.i32, 6⟩] t ∧
      ∀ depth, Engine.SafeCall growingHost 100 depth inst 0 "sum" 0
        { params := [.i32], results := [.i32] } [⟨.i32, 3⟩] s := by
  -- The function is invoked a second time, after the embedder has invoked it once.
  obtain ⟨m, s₁, s, t, _, _, inst, _, hload, htype, hinstance, hfirst, hsecond, hfound, hexport,
    -, -⟩ := exists_summed
  have hacts : growingHost.Acts 100 (· ≠ .errand (.close 0)) := growingHost_acts 100 (by simp)
  have hleads : s₁.LeadsTo growingHost 100 0 s :=
    .single ⟨1, .invoke 0 "sum" [⟨.i32, 2⟩], by simp, trivial, by rw [Action.run, hfirst]; rfl⟩
  obtain ⟨inst', hplace, -, hsafe⟩ := invoke_runs_safely ⟨_, _, hload⟩
    (fun r hr => by cases hr) hinstance hacts hleads
  obtain rfl := Option.some.inj (hplace.symm.trans hfound)
  obtain ⟨-, -, type, htype', hcalls⟩ := hsafe "sum" _ hexport
  obtain rfl := Option.some.inj (htype.symm.trans htype')
  exact ⟨m, s₁, s, t, inst', ⟨_, _, hload⟩, hinstance, hacts, hleads, hsecond,
    hcalls [⟨.i32, 3⟩] rfl⟩

/-- Stacks may be accepted that are larger than any can be. -/
theorem invoke_crashes_hugeCallDepth :
    ∃ m s₁ s₂, m.Loaded ∧
      Engine.instantiate growingHost 100 1 m none { maxCallDepth := 0x4000000000000000 } bareStore =
        .ok 0 s₁ ∧
      Engine.invoke growingHost 100 1 0 "sum" [⟨.i32, 3⟩] s₁ = .error (.crashed .stackSize) s₂ := by
  obtain ⟨m, _, _, _, u, v, _, _, hload, -, -, -, -, -, -, hinstance, herror⟩ := exists_summed
  exact ⟨m, u, v, ⟨_, _, hload⟩, hinstance, herror⟩

end IntWasm
