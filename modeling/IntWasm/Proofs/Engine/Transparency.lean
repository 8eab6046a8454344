import IntWasm.Proofs.Engine.Histories
import IntWasm.Proofs.Engine.Settings

/-!
# Tracing is transparent

What an embedder asks for is answered in the same way whether traces are written or not, and whether
the trace can be written to its end or not, as long as the functions of the embedder do not look at
traces. Memories and globals are the same afterwards. An output that has room for `k` bytes only
keeps the first `k` bytes of the trace. Main statement: `tracing_is_transparent`.
-/

namespace IntWasm

variable {H σ : Type}

/-! ## Invocations and instantiations -/

/-- Two runs may differ in their traces only, of which something is known. -/
def Watch.leeway (w : Watch) : Leeway := ⟨w, False⟩

/-- Functions of the embedder that do not look at traces. Whatever is known of the traces of two
stores that are the same otherwise, a function does the same in both, if the ways to invoke
functions that it is given do. -/
def Host.IgnoresTraces (host : Host H σ) : Prop :=
  ∀ (w : Watch) (v u : Invoker H σ),
    (∀ address name args, Together (Store.Alike w.leeway) Eq (v address name args)
      (u address name args)) →
    host.CallsAlike w.leeway v u

/-- A resolver that does not look at traces. -/
def Resolver.IgnoresTraces (r : Resolver H σ) : Prop := ∀ w : Watch, r.Blind w.leeway

section

variable {host : Host H σ} (hhost : host.IgnoresTraces) (fuel nesting : Nat) (w : Watch)

include hhost

/-- Invocations do not depend on traces. -/
theorem Engine.invoke_ignores_traces (address : Nat) (name : String) (args : List Value) :
    Together (Store.Alike w.leeway) Eq (invoke host fuel nesting address name args)
      (invoke host fuel nesting address name args) := by
  induction nesting generalizing w address name args with
  | zero => exact together_throw _
  | succ nesting ih =>
    intro s t hst
    rcases invoke_alike (hhost w _ _ (ih w)) (hhost w.filled _ _ (ih w.filled)) address
        name args hst with
      hends | ⟨_, _, _, _, _, _, -, -, ⟨_, _, -, hexcused, -⟩, -⟩
    · exact hends
    · exact hexcused.1.elim

/-- Instantiations do not depend on traces. -/
theorem Engine.instantiate_ignores_traces {resolver : Option (Resolver H σ)}
    (hresolver : ∀ r, resolver = some r → r.IgnoresTraces) (m : Module) {c c' : Config}
    (hconfig : c.Alike w.leeway c') :
    Together (Store.Alike w.leeway) Eq (instantiate host fuel nesting m resolver c)
      (instantiate host fuel nesting m resolver c') := fun s t hst =>
  (instantiate_alike (hhost w _ _ (invoke_ignores_traces hhost fuel nesting w))
    (hhost w.filled _ _ (invoke_ignores_traces hhost fuel nesting w.filled))
    (fun r hr => hresolver r hr w) m hconfig s t hst).never fun _ _ _ hexcused => hexcused.1

end

/-! ## Requests -/

/-- What an embedder asks for. -/
inductive Request (H σ : Type) where
  | instantiate (m : Module) (resolver : Option (Resolver H σ)) (config : Config)
  | invoke (address : Nat) (name : String) (args : List Value)

/-- How it is answered. -/
inductive Response where
  /-- With the place of an instance. -/
  | instantiated (address : Nat)
  | notInstantiated (e : InstantiateError)
  /-- With the results of a function. -/
  | returned (values : List Value)
  | stopped (e : InvokeError)
  deriving DecidableEq

namespace Request

/-- The same request with another configuration. -/
def configured (change : Config → Config) : Request H σ → Request H σ
  | instantiate m resolver config => instantiate m resolver (change config)
  | invoke address name args => invoke address name args

/-- The same request without a trace. -/
def untraced : Request H σ → Request H σ := configured ({ · with trace := none })

/-- A request whose definitions of imports do not depend on traces. -/
def IgnoresTraces : Request H σ → Prop
  | instantiate _ resolver _ => ∀ r, resolver = some r → r.IgnoresTraces
  | invoke _ _ _ => True

/-- Answers a request. -/
def answer (host : Host H σ) (fuel nesting : Nat) (s : Store H σ) :
    Request H σ → Response × Store H σ
  | instantiate m resolver config =>
    match Engine.instantiate host fuel nesting m resolver config s with
    | .ok address s => (.instantiated address, s)
    | .error e s => (.notInstantiated e, s)
  | invoke address name args =>
    match Engine.invoke host fuel nesting address name args s with
    | .ok values s => (.returned values, s)
    | .error e s => (.stopped e, s)

/-- Answers requests one after another. -/
def answerAll (host : Host H σ) (fuel nesting : Nat) :
    List (Request H σ) → Store H σ → List Response × Store H σ
  | [], s => ([], s)
  | request :: requests, s =>
    let (response, s) := request.answer host fuel nesting s
    let (responses, s) := answerAll host fuel nesting requests s
    (response :: responses, s)

section

variable {host : Host H σ} {fuel nesting : Nat} {s : Store H σ}

/-- An answer with an address is an instantiation that has succeeded. -/
theorem instantiate_of_answer {m : Module} {resolver : Option (Resolver H σ)} {config : Config}
    {address : Nat} (hanswer : (answer host fuel nesting s (.instantiate m resolver config)).1 =
      .instantiated address) :
    Engine.instantiate host fuel nesting m resolver config s =
      .ok address (answer host fuel nesting s (.instantiate m resolver config)).2 := by
  simp only [answer] at hanswer ⊢
  cases hresult : Engine.instantiate host fuel nesting m resolver config s with
  | ok a s' =>
    simp only [hresult, Response.instantiated.injEq] at hanswer
    simp only [hanswer]
  | error e s' => simp [hresult] at hanswer

/-- An answer with values is an invocation that has returned them. -/
theorem invoke_of_answer {address : Nat} {name : String} {args values : List Value}
    (hanswer : (answer host fuel nesting s (.invoke address name args)).1 = .returned values) :
    Engine.invoke host fuel nesting address name args s =
      .ok values (answer host fuel nesting s (.invoke address name args)).2 := by
  simp only [answer] at hanswer ⊢
  cases hresult : Engine.invoke host fuel nesting address name args s with
  | ok v s' =>
    simp only [hresult, Response.returned.injEq] at hanswer
    simp only [hanswer]
  | error e s' => simp [hresult] at hanswer

/-- An answer with an error is an invocation that has ended with it. -/
theorem invoke_of_answer_stopped {address : Nat} {name : String} {args : List Value}
    {e : InvokeError}
    (hanswer : (answer host fuel nesting s (.invoke address name args)).1 = .stopped e) :
    Engine.invoke host fuel nesting address name args s =
      .error e (answer host fuel nesting s (.invoke address name args)).2 := by
  simp only [answer] at hanswer ⊢
  cases hresult : Engine.invoke host fuel nesting address name args s with
  | ok v s' => simp [hresult] at hanswer
  | error e' s' =>
    simp only [hresult, Response.stopped.injEq] at hanswer
    simp only [hanswer]

end

section

variable {host : Host H σ} (hhost : host.IgnoresTraces) (fuel nesting : Nat) {w : Watch}
  {change : Config → Config} (hchange : ∀ c : Config, (change c).Alike w.leeway c)

include hhost hchange

/-- Two requests that differ in the trace only are answered alike. -/
theorem answer_alike {request : Request H σ} (hrequest : request.IgnoresTraces) {s t : Store H σ}
    (hst : s.Alike w.leeway t) :
    ((request.configured change).answer host fuel nesting s).1 =
      (request.answer host fuel nesting t).1 ∧
      ((request.configured change).answer host fuel nesting s).2.Alike w.leeway
        (request.answer host fuel nesting t).2 := by
  cases request with
  | instantiate m resolver config =>
    simp only [configured, answer]
    rcases (Engine.instantiate_ignores_traces hhost fuel nesting w hrequest m (hchange config) s t
      hst).cases with ⟨address, _, s', t', hs, ht, rfl, hst'⟩ | ⟨e, s', t', hs, ht, hst'⟩
    · simp only [hs, ht, true_and]
      exact hst'
    · simp only [hs, ht, true_and]
      exact hst'
  | invoke address name args =>
    simp only [configured, answer]
    rcases (Engine.invoke_ignores_traces hhost fuel nesting w address name args s t hst).cases with
      ⟨values, _, s', t', hs, ht, rfl, hst'⟩ | ⟨e, s', t', hs, ht, hst'⟩
    · simp only [hs, ht, true_and]
      exact hst'
    · simp only [hs, ht, true_and]
      exact hst'

/-- So are many, one after another. -/
theorem answerAll_alike {requests : List (Request H σ)}
    (hrequests : ∀ request ∈ requests, request.IgnoresTraces) {s t : Store H σ}
    (hst : s.Alike w.leeway t) :
    (answerAll host fuel nesting (requests.map (configured change)) s).1 =
        (answerAll host fuel nesting requests t).1 ∧
      (answerAll host fuel nesting (requests.map (configured change)) s).2.Alike w.leeway
        (answerAll host fuel nesting requests t).2 := by
  induction requests generalizing s t with
  | nil => exact ⟨rfl, hst⟩
  | cons request requests ih =>
    obtain ⟨hresponse, hst⟩ := answer_alike hhost fuel nesting hchange
      (hrequests request (by simp)) hst
    obtain ⟨hresponses, hst⟩ := ih (fun r hr => hrequests r (by simp [hr])) hst
    simp only [List.map_cons, answerAll]
    exact ⟨by rw [hresponse, hresponses], hst⟩

end

end Request

/-! ## Stores with other traces -/

/-- A configuration without its trace is like itself. -/
theorem Config.alike_untraced (c : Config) :
    Config.Alike (Watch.leeway .free) { c with trace := none } c :=
  ⟨rfl, .same rfl rfl rfl, fun hwatched => absurd rfl hwatched⟩

namespace Store

/-- A store without traces. -/
def untraced (s : Store H σ) : Store H σ :=
  { s with
    instances := s.instances.map fun inst =>
      { inst with config := { inst.config with trace := none } }
    traces := #[] }

/-- A store with another output at the place of a trace. -/
def tracingTo (s : Store H σ) (place : Nat) (out : Sink) : Store H σ :=
  { s with traces := s.traces.setIfInBounds place out }

/-- A store whose instances write no traces is like one whose instances do. -/
theorem untraced_alike (s : Store H σ) (place : Nat) (out : Sink) :
    s.untraced.Alike (Watch.leeway .free) (s.tracingTo place out) where
  memories_eq := rfl
  allocators_eq := rfl
  globals_eq := rfl
  counters_eq := rfl
  host_eq := rfl
  size_eq := by simp [untraced, tracingTo]
  instances i hs ht := by
    simp only [untraced, tracingTo, Array.getElem_map]
    exact ⟨rfl, Config.alike_untraced _⟩
  traces := trivial

/-- Stores that trace to sinks of different sizes are alike. -/
theorem tracingTo_alike (s : Store H σ) {place : Nat} (hplace : place < s.traces.size) (k : Nat) :
    (s.tracingTo place { room := some k }).Alike (Watch.leeway (.cut k place))
      (s.tracingTo place {}) where
  memories_eq := rfl
  allocators_eq := rfl
  globals_eq := rfl
  counters_eq := rfl
  host_eq := rfl
  size_eq := rfl
  instances _ _ _ := ⟨rfl, Config.alike_refl _ _⟩
  traces :=
    ⟨{ room := some k }, {}, Array.getElem?_setIfInBounds_self_of_lt hplace,
      Array.getElem?_setIfInBounds_self_of_lt hplace, rfl, by simp, by simp⟩

end Store

/-- Tracing is transparent. Take any store with a trace at a place, and any requests. They are
answered in the same way, first, without any trace, second, with an output at that place that has
room for `k` bytes, and third, with an output there that has room for all that is written. All
memories and globals are the same in the end, and the second output has kept the first `k` bytes of
what the third one has kept. -/
theorem tracing_is_transparent {host : Host H σ} (hhost : host.IgnoresTraces) (fuel nesting : Nat)
    {requests : List (Request H σ)} (hrequests : ∀ request ∈ requests, request.IgnoresTraces)
    (s : Store H σ) {place : Nat} (hplace : place < s.traces.size) (k : Nat) :
    ∃ (responses : List Response) (quiet limited full : Store H σ) (out out' : Sink),
      Request.answerAll host fuel nesting (requests.map .untraced) s.untraced = (responses, quiet) ∧
      Request.answerAll host fuel nesting requests (s.tracingTo place { room := some k }) =
        (responses, limited) ∧
      Request.answerAll host fuel nesting requests (s.tracingTo place {}) = (responses, full) ∧
      quiet.memories = full.memories ∧ limited.memories = full.memories ∧
      quiet.globals = full.globals ∧ limited.globals = full.globals ∧
      limited.traces[place]? = some out ∧ full.traces[place]? = some out' ∧
      out.kept.toList = out'.kept.toList.take k := by
  have hquiet := Request.answerAll_alike hhost fuel nesting Config.alike_untraced hrequests
    (s.untraced_alike place {})
  have hlimited := Request.answerAll_alike hhost fuel nesting (Config.alike_refl _) hrequests
    (s.tracingTo_alike hplace k)
  have hsame : requests.map (Request.configured fun c => c) = requests := by
    refine (List.map_congr_left fun request _ => ?_).trans (List.map_id requests)
    cases request <;> rfl
  rw [hsame] at hlimited
  obtain ⟨out, out', hout, hout', hcut⟩ := hlimited.2.traces
  exact ⟨_, (Request.answerAll host fuel nesting (requests.map .untraced) s.untraced).2,
    (Request.answerAll host fuel nesting requests (s.tracingTo place { room := some k })).2,
    (Request.answerAll host fuel nesting requests (s.tracingTo place {})).2, out, out',
    Prod.ext hquiet.1 rfl, Prod.ext hlimited.1 rfl, rfl,
    hquiet.2.memories_eq, hlimited.2.memories_eq, hquiet.2.globals_eq, hlimited.2.globals_eq, hout,
    hout', hcut.kept_eq⟩

/-- An embedder whose function `a` asks the function `b` of the first instance, and whose function
`b` answers on its own. -/
def reenteringHost : Host Bool Unit where
  call invoker c s :=
    if c.code then
      match invoker 0 "b" [] s with
      | .ok values s => .ok (values.head?.map (·.bits)) s
      | .error e s => .error { fault := e.toHostFault } s
    else .ok (some 7) s

/-- The host of this case does not look at traces. -/
theorem reenteringHost_ignoresTraces : reenteringHost.IgnoresTraces := by
  intro w v u hagree c d hcd s t hst
  simp only [reenteringHost, ← hcd.code_eq]
  cases c.code with
  | false => exact ⟨rfl, hst⟩
  | true =>
    simp only [if_true]
    rcases (hagree 0 "b" [] s t hst).cases with ⟨values, _, s', t', hs, ht, rfl, hst'⟩ |
      ⟨e, s', t', hs, ht, hst'⟩
    · simp only [hs, ht]
      exact ⟨rfl, hst'⟩
    · simp only [hs, ht]
      exact ⟨rfl, hst'⟩

/-- The resolver of bindings does not look at traces. -/
theorem Bindings.resolver_ignoresTraces (b : Bindings H) :
    (b.resolver : Resolver H σ).IgnoresTraces :=
  fun w => b.resolver_blind w.leeway

/-- The module with the functions that ask is instantiated with a trace, and its function `a` is
invoked. -/
def askingRequests : List (Request Bool Unit) :=
  ((Module.load asking .eof).toOption.map fun m =>
    [.instantiate m (some questions.resolver) { trace := some 0 }, .invoke 0 "a" []]).getD []

/-- A store with a trace. -/
def tracedStore : Store Bool Unit := { traces := #[default], host := () }

/-- Requests that are answered alike without a trace, with one that is cut off and with a whole one.
-/
theorem tracing_is_transparent_asking :
    ∃ (quiet limited full : Store Bool Unit) (out out' : Sink),
      reenteringHost.IgnoresTraces ∧ (∀ request ∈ askingRequests, request.IgnoresTraces) ∧
      Request.answerAll reenteringHost 100 2 (askingRequests.map .untraced) tracedStore.untraced =
        ([.instantiated 0, .returned [⟨.i32, 7⟩]], quiet) ∧
      Request.answerAll reenteringHost 100 2 askingRequests
          (tracedStore.tracingTo 0 { room := some 20 }) =
        ([.instantiated 0, .returned [⟨.i32, 7⟩]], limited) ∧
      Request.answerAll reenteringHost 100 2 askingRequests (tracedStore.tracingTo 0 {}) =
        ([.instantiated 0, .returned [⟨.i32, 7⟩]], full) ∧
      limited.traces[0]? = some out ∧ full.traces[0]? = some out' ∧ out'.kept.size = 54 ∧
      out.kept.toList = out'.kept.toList.take 20 := by
  have hrequests : ∀ request ∈ askingRequests, request.IgnoresTraces := by
    unfold askingRequests
    cases (Module.load asking .eof).toOption with
    | none => simp
    | some m =>
      simp only [Option.map_some, Option.getD_some, List.forall_mem_cons]
      refine ⟨?_, trivial, by simp⟩
      rintro _ ⟨⟩
      exact Bindings.resolver_ignoresTraces questions
  have hends : (Request.answerAll reenteringHost 100 2 askingRequests
        (tracedStore.tracingTo 0 {})).1 =
        [.instantiated 0, .returned [⟨.i32, 7⟩]] ∧
      (Request.answerAll reenteringHost 100 2 askingRequests
        (tracedStore.tracingTo 0 {})).2.traces[0]?.map (·.kept.size) = some 54 := by decide +kernel
  obtain ⟨responses, quiet, limited, full, out, out', hquiet, hlimited, hfull, -, -, -, -, hout,
      hout', hcut⟩ :=
    tracing_is_transparent reenteringHost_ignoresTraces 100 2 hrequests tracedStore
      (show 0 < tracedStore.traces.size by decide) 20
  rw [hfull] at hends
  obtain ⟨rfl, hsize⟩ := hends
  rw [hout', Option.map_some, Option.some.injEq] at hsize
  exact ⟨quiet, limited, full, out, out', reenteringHost_ignoresTraces, hrequests, hquiet, hlimited,
    hfull, hout, hout', hsize, hcut⟩

end IntWasm
