import IntWasm.Proofs.Engine.Transparency

/-!
# Larger stacks

An instance of a loaded module that gets larger stacks does the same, except that it may go on where
it has run out of a stack before. This holds as long as the larger stacks can be made at all, and
the functions of the embedder neither invoke functions nor look at the thread. Main statement:
`larger_stacks_keep_outcomes`.
-/

namespace IntWasm

variable {H σ : Type}

/-- The second run may have larger stacks, and nothing is known of traces. -/
def Leeway.roomier : Leeway := ⟨.free, True⟩

/-- Functions of the embedder whose doings depend on their arguments and on the store, but neither
on the thread nor on the settings of instances, and that do not invoke functions. -/
def Host.IgnoresThread (host : Host H σ) : Prop :=
  ∀ (v w : Invoker H σ) (c d : HostCall H), c.code = d.code → c.type = d.type → c.args = d.args →
    c.memory = d.memory → Together (Store.Alike .roomier) Eq (host.call v c) (host.call w d)

/-- A host that does not look at the thread does the same in a roomier run. -/
theorem Host.IgnoresThread.callsAlike {host : Host H σ} (hhost : host.IgnoresThread)
    (v w : Invoker H σ) : host.CallsAlike .roomier v w := fun c d hcd =>
  hhost v w c d hcd.code_eq hcd.type_eq hcd.args_eq hcd.memory_eq

/-- A configuration has larger stacks than another one, which can be made, and is the same
otherwise. -/
structure Config.Enlarges (c c' : Config) : Prop where
  eq : c' = { c with
    maxCallDepth := c'.maxCallDepth, maxOperandStack := c'.maxOperandStack
    maxControlDepth := c'.maxControlDepth }
  callDepth_le : c.maxCallDepth ≤ c'.maxCallDepth
  operandStack_le : c.maxOperandStack ≤ c'.maxOperandStack
  controlDepth_le : c.maxControlDepth ≤ c'.maxControlDepth
  stacksFit : c'.stacksFit = true

/-- A configuration with larger stacks is like the first one. -/
theorem Config.Enlarges.alike {c c' accepted : Config} (henlarges : c.Enlarges c')
    (hcheck : c.check = .ok accepted) : c.Alike .roomier c' := by
  obtain ⟨hpositive, -⟩ := check_eq_ok hcheck
  refine ⟨?_, .larger trivial ⟨hpositive.callDepth, hpositive.operandStack, hpositive.controlDepth⟩
    henlarges.callDepth_le henlarges.operandStack_le henlarges.controlDepth_le henlarges.stacksFit,
    fun hwatched => absurd rfl hwatched⟩
  rw [henlarges.eq]

/-! ## Arguments that are accepted -/

namespace Instance

/-- Arguments that were checked are as many words. -/
theorem length_of_checkArgs {name : String} {i : Nat} {types : List ValueType} {args : List Value}
    {words : List UInt64} (hlength : args.length = types.length)
    (hok : checkArgs name i types args = .ok words) : words.length = types.length := by
  induction types generalizing i args words with
  | nil =>
    obtain rfl := List.length_eq_zero_iff.mp hlength
    simp only [checkArgs] at hok
    obtain rfl := Except.ok.inj hok
    rfl
  | cons t types ih =>
    cases args with
    | nil => cases hlength
    | cons v args =>
      unfold checkArgs at hok
      split at hok
      · simp only [except_bind_eq_ok, except_pure_eq_ok] at hok
        obtain ⟨rest, hrest, rfl⟩ := hok
        simpa using ih (by simpa using hlength) hrest
      · cases hok

/-- An invocation that is prepared has as many arguments as its function has parameters, and their
words. -/
theorem exists_words_of_prepare {inst : Instance H} {name : String} {args : List Value}
    {function : UInt32} {type : FuncType} {words : List UInt64}
    (hok : inst.prepare name args = .ok (function, type, words)) :
    inst.signature? function = some type ∧ args.length = type.params.length ∧
      checkArgs name 0 type.params args = .ok words := by
  unfold prepare at hok
  by_cases hclosed : inst.closed = true
  · simp [hclosed] at hok
  simp only [if_neg hclosed, except_bind_eq_ok, except_mapError_eq_ok] at hok
  obtain ⟨e, -, hok⟩ := hok
  cases hsignature : inst.signature? e.index with
  | none => simp [hsignature] at hok
  | some found =>
    simp only [hsignature] at hok
    by_cases hcount : args.length ≠ found.params.length
    · simp [hcount] at hok
    simp only [if_neg hcount, except_bind_eq_ok, except_mapError_eq_ok, except_pure_eq_ok,
      Prod.mk.injEq] at hok
    obtain ⟨checked, hchecked, rfl, rfl, rfl⟩ := hok
    exact ⟨hsignature, not_not.mp hcount, hchecked⟩

/-- An invocation that is prepared has as many words as its function has parameters. -/
theorem of_prepare {inst : Instance H} {name : String} {args : List Value} {function : UInt32}
    {type : FuncType} {words : List UInt64}
    (hok : inst.prepare name args = .ok (function, type, words)) :
    inst.signature? function = some type ∧ words.length = type.params.length := by
  obtain ⟨hsignature, hlength, hchecked⟩ := exists_words_of_prepare hok
  exact ⟨hsignature, length_of_checkArgs hlength hchecked⟩

end Instance

/-! ## Invocations -/

/-- An invocation traps because a stack is too small. -/
def Engine.RunsOutOfStack (host : Host H σ) (fuel nesting address : Nat) (name : String)
    (args : List Value) (s : Store H σ) : Prop :=
  ∃ e s', invoke host fuel nesting address name args s = .error (.trapped e) s' ∧
    e.trap = .stackExhausted

/-- A call that stays within the bounds of the machine stops where larger stacks may let it go on
only because a stack is too small. -/
theorem Instance.Exhausts.trap_eq {inst : Instance H} {host : Host H σ} {v : Invoker H σ}
    {fuel : Nat} {function : UInt32} {args : List UInt64} {s : Store H σ} {e : TrapError}
    {count : Nat} (hexhausts : inst.Exhausts .roomier host v fuel function args s e)
    (hsafe : ∀ slot, inst.RunsSafely host v function args count s slot) :
    e.trap = .stackExhausted := by
  obtain ⟨stop, u, herror, ⟨-, hstop⟩, htrap⟩ := hexhausts
  have hends := (hsafe (inst.idle.getD 0)).ends fuel
  rw [herror] at hends
  rcases hstop with hstop | hstop
  · simp [hstop, Stop.Raised] at hends
  · simp only [trapOf, hstop, Except.ok.injEq] at htrap
    rw [← htrap]
    unfold TrapError.located
    split <;> rfl

open Structured in
/-- Larger stacks keep outcomes. Take a loaded module that is instantiated in a store, and a
configuration with larger stacks, as long as these can be made. With it, the module is instantiated
just as well, and the instance sees the same. From then on, take any two stores that differ in
settings only, the first one got to without closing the instance. Every invocation of the instance
that does not run out of a stack in the first store ends alike in the second one, with the same
results or the same trap, and leaves the same memories and globals. -/
theorem larger_stacks_keep_outcomes {host : Host H σ} (hhost : host.IgnoresThread)
    {fuel nesting : Nat} {m : Module} (hloaded : m.Loaded) {resolver : Option (Resolver H σ)}
    {config config' : Config} (henlarges : config.Enlarges config') {s₀ s₁ : Store H σ}
    {place : Nat} (hgrounded : ∀ r, resolver = some r → r.Grounded s₀.memories.size)
    (hblind : ∀ r, resolver = some r → r.Blind .roomier)
    (hacts : host.Acts fuel (· ≠ .errand (.close place)))
    (hinstance : Engine.instantiate host fuel nesting m resolver config s₀ = .ok place s₁) :
    ∃ t₁, Engine.instantiate host fuel nesting m resolver config' s₀ = .ok place t₁ ∧
      s₁.Alike .roomier t₁ ∧
      ∀ s t, s₁.LeadsTo host fuel place s → s.Alike .roomier t → ∀ depth name args,
        ¬ Engine.RunsOutOfStack host fuel depth place name args s →
        EndsAlike (fun s t => s.memories = t.memories ∧ s.globals = t.globals ∧ s.Alike .roomier t)
          Eq (Engine.invoke host fuel depth place name args s)
          (Engine.invoke host fuel depth place name args t) := by
  obtain ⟨bytes, ending, hload⟩ := hloaded
  have hvalid := Module.valid_of_load hload
  have hstill (depth : Nat) := (hacts.moves (Action.allowed_keeps host fuel place) depth).1
  obtain ⟨inst₁, -, hcheck, -⟩ := Engine.exists_serves hvalid hgrounded hinstance hacts .refl
  have hinstantiated :=
    Engine.instantiate_alike (hhost.callsAlike (Engine.invoke host fuel nesting) _)
    (hhost.callsAlike _ _) hblind m (henlarges.alike hcheck) s₀ s₀ (s₀.alike_refl trivial)
  rw [hinstance] at hinstantiated
  rcases hinstantiated.cases with ⟨_, _, _, t₁, ⟨⟩, ht₁, rfl, halike⟩ |
    ⟨_, _, _, ⟨⟩, -⟩ | ⟨_, _, ⟨⟩, -⟩
  refine ⟨t₁, ht₁, halike, fun s t hleads hst depth name args hstays => ?_⟩
  obtain ⟨inst, hplace, hcheck, -, -, hserves⟩ :=
    Engine.exists_serves hvalid hgrounded hinstance hacts hleads
  have hends : EndsAlike (Store.Alike .roomier) Eq
      (Engine.invoke host fuel depth place name args s)
      (Engine.invoke host fuel depth place name args t) := by
    cases depth with
    | zero => exact together_throw _ s t hst
    | succ depth =>
      rcases Engine.invoke_alike (hhost.callsAlike (Engine.invoke host fuel depth) _)
        (hhost.callsAlike _ _) place name args hst with
        hends | ⟨inst', function, type, words, e, s', hplace', hprepare, hexhausts, hinvoke⟩
      · exact hends
      -- The instance is as it should be, so it has stopped because a stack was too small.
      obtain rfl := Option.some.inj (hplace.symm.trans hplace')
      obtain ⟨hsignature, hlength⟩ := Instance.of_prepare hprepare
      have hretains (c : HostCall H) : Moves (Retains m inst)
          (host.call (Engine.invoke host fuel depth) c) := fun s hsupports =>
        hsupports.mono (hstill depth c s).toExtends
      have hsafe (slot : UInt64) := Instance.Implements.runsSafely hvalid hserves.implements
        (Config.positive_of_check hcheck) hretains
        ((hserves.implements.signature?_eq hvalid function).symm.trans hsignature) hlength
        (hserves.supports.mono (Engine.begun_keeps hplace).toExtends) slot
      exact absurd ⟨e, s', hinvoke, hexhausts.trap_eq hsafe⟩ hstays
  rcases hends.cases with ⟨values, _, s', t', hs, ht, rfl, hst'⟩ | ⟨e, s', t', hs, ht, hst'⟩
  · rw [hs, ht]
    exact ⟨rfl, hst'.memories_eq, hst'.globals_eq, hst'⟩
  · rw [hs, ht]
    exact ⟨rfl, hst'.memories_eq, hst'.globals_eq, hst'⟩

/-- The host of this case does not look at the thread. -/
theorem growingHost_ignoresThread : growingHost.IgnoresThread := by
  intro v w c d _ _ _ _ s t hst
  rcases (Store.growMemory_alike 0 1 s t hst).cases with ⟨_, _, s', t', hs, ht, -, hst'⟩ |
    ⟨_, s', t', hs, ht, hst'⟩
  · simp only [growingHost, hs, ht]
    exact ⟨rfl, hst'⟩
  · simp only [growingHost, hs, ht]
    exact ⟨rfl, hst'⟩

/-- How a module is instantiated with a configuration in an empty store, and its function `sum`
invoked. -/
def sumWith (config : Config) (m : Module) : List Response :=
  (Request.answerAll growingHost 100 1 [.instantiate m none config, .invoke 0 "sum" [⟨.i32, 3⟩]]
    bareStore).1

/-- The store in which the function is invoked. -/
def storeWith (config : Config) (m : Module) : Store Unit Unit :=
  (Request.answer growingHost 100 1 bareStore (.instantiate m none config)).2

/-- Two responses are an instantiation and an invocation. -/
theorem of_sumWith {config : Config} {m : Module} {response : Response}
    (hsum : sumWith config m = [.instantiated 0, response]) :
    Engine.instantiate growingHost 100 1 m none config bareStore = .ok 0 (storeWith config m) ∧
      (Request.answer growingHost 100 1 (storeWith config m) (.invoke 0 "sum" [⟨.i32, 3⟩])).1 =
        response := by
  simp only [sumWith, Request.answerAll, List.cons.injEq, and_true] at hsum
  exact ⟨Request.instantiate_of_answer hsum.1, hsum.2⟩

/-- The sum is found with little room for calls too, unless so much is asked for that there is
none. -/
theorem exists_summing : ∃ m, Module.load summing .eof = .ok m ∧
    sumWith { maxCallDepth := 1 } m = [.instantiated 0, .returned [⟨.i32, 6⟩]] ∧
    sumWith {} m = [.instantiated 0, .returned [⟨.i32, 6⟩]] ∧
    sumWith { maxCallDepth := 0x4000000000000000 } m =
      [.instantiated 0, .stopped (.crashed .stackSize)] := by
  have hsums : ((Module.load summing .eof).toOption.any fun m =>
      sumWith { maxCallDepth := 1 } m = [.instantiated 0, .returned [⟨.i32, 6⟩]] ∧
      sumWith {} m = [.instantiated 0, .returned [⟨.i32, 6⟩]] ∧
      sumWith { maxCallDepth := 0x4000000000000000 } m =
        [.instantiated 0, .stopped (.crashed .stackSize)]) = true := by decide +kernel
  simpa only [Option.any_eq_true, decide_eq_true_eq, except_toOption_eq_some] using hsums

/-- A sum that is the same with larger stacks. -/
theorem larger_stacks_keep_outcomes_summing :
    ∃ m s₁ t₁ s t, m.Loaded ∧ Config.Enlarges { maxCallDepth := 1 } { maxOperandStack := 100000 } ∧
      growingHost.IgnoresThread ∧
      Engine.instantiate growingHost 100 1 m none { maxCallDepth := 1 } bareStore = .ok 0 s₁ ∧
      Engine.instantiate growingHost 100 1 m none { maxOperandStack := 100000 } bareStore =
        .ok 0 t₁ ∧
      Engine.invoke growingHost 100 1 0 "sum" [⟨.i32, 3⟩] s₁ = .ok [⟨.i32, 6⟩] s ∧
      Engine.invoke growingHost 100 1 0 "sum" [⟨.i32, 3⟩] t₁ = .ok [⟨.i32, 6⟩] t ∧
      s.memories = t.memories ∧ s.globals = t.globals := by
  obtain ⟨m, hload, hsum, -, -⟩ := exists_summing
  obtain ⟨hinstance, hanswer⟩ := of_sumWith hsum
  have hinvoke := Request.invoke_of_answer hanswer
  have henlarges : Config.Enlarges { maxCallDepth := 1 } { maxOperandStack := 100000 } :=
    ⟨rfl, by decide, by decide, by decide, by decide⟩
  have hacts : growingHost.Acts 100 (· ≠ .errand (.close 0)) := growingHost_acts 100 (by simp)
  obtain ⟨t₁, ht₁, halike, hends⟩ :=
    larger_stacks_keep_outcomes growingHost_ignoresThread ⟨_, _, hload⟩
    henlarges (fun r hr => by cases hr) (fun r hr => by cases hr) hacts hinstance
  have hended := hends _ t₁ .refl halike 1 "sum" [⟨.i32, 3⟩] (by
    rintro ⟨e, s', herror, -⟩
    rw [hinvoke] at herror
    cases herror)
  rw [hinvoke] at hended
  rcases hended.cases with ⟨_, _, s, t, ⟨⟩, ht, rfl, hmemories, hglobals, -⟩ | ⟨_, _, _, ⟨⟩, -⟩
  exact ⟨m, _, t₁, _, t, ⟨_, _, hload⟩, henlarges, growingHost_ignoresThread, hinstance, ht₁,
    hinvoke, ht, hmemories, hglobals⟩

/-- Stacks that are accepted but cannot be made do change an outcome. -/
theorem larger_stacks_crash_hugeCallDepth :
    ∃ m s₁ t₁ s t, m.Loaded ∧
      Engine.instantiate growingHost 100 1 m none {} bareStore = .ok 0 s₁ ∧
      Engine.instantiate growingHost 100 1 m none { maxCallDepth := 0x4000000000000000 } bareStore =
        .ok 0 t₁ ∧
      Engine.invoke growingHost 100 1 0 "sum" [⟨.i32, 3⟩] s₁ = .ok [⟨.i32, 6⟩] s ∧
      Engine.invoke growingHost 100 1 0 "sum" [⟨.i32, 3⟩] t₁ = .error (.crashed .stackSize) t := by
  obtain ⟨m, hload, -, hsum, hcrash⟩ := exists_summing
  obtain ⟨hinstance, hanswer⟩ := of_sumWith hsum
  obtain ⟨hinstance', hanswer'⟩ := of_sumWith hcrash
  exact ⟨m, _, _, _, _, ⟨_, _, hload⟩, hinstance, hinstance', Request.invoke_of_answer hanswer,
    Request.invoke_of_answer_stopped hanswer'⟩

end IntWasm
