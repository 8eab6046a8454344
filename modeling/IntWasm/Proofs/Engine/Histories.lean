import IntWasm.Proofs.Engine.Safety
import IntWasm.Proofs.Engine.Twins

/-!
# Histories of instances

The machine of an instance is used again by the next invocation. Its stacks are empty by then,
whatever came before, and all that a function finds on them it has put there itself. The word in the
result slot stays. A function of the embedder that succeeds and leaves its declared result unwritten
gives this word to the code that called it, so an earlier invocation can be told from none. If
functions of the embedder write the results that they declare, nothing can be told. Main statement:
`invoke_forgets_history`.
-/

namespace IntWasm

variable {H σ : Type}

/-- Two instances of a module have the same code, if the same functions were imported, the tables
hold the same functions, and the same of their globals are one. -/
theorem Instance.Serves.twin {m : Module} {a b : Instance H} {s t : Store H σ} (ha : a.Serves m s)
    (hb : b.Serves m t) (hopen : a.closed = b.closed) (hconfig : a.config = b.config)
    (himports : a.imports = b.imports) (htable : a.table = b.table)
    (hglobals : ∀ i j : Nat, a.globals[i]? = a.globals[j]? ↔ b.globals[i]? = b.globals[j]?)
    (p q : Nat) (own : σ → σ → Prop) : Pair.Twin ⟨a, p, b, q, own⟩ where
  types_eq := ha.implements.types_eq.trans hb.implements.types_eq.symm
  imports_eq := himports
  functions_eq := Array.toList_inj.mp
    (Except.ok.inj (ha.implements.functions_eq.symm.trans hb.implements.functions_eq))
  table_eq := htable
  exports_eq := ha.exports_eq.trans hb.exports_eq.symm
  closed_eq := hopen
  operandStack_eq := congrArg (·.maxOperandStack) hconfig
  controlDepth_eq := congrArg (·.maxControlDepth) hconfig
  callDepth_eq := congrArg (·.maxCallDepth) hconfig
  globals_iff := hglobals

/-- Invocations leave nothing behind that later ones could tell. Take two instances of a loaded
module, each in a store that the embedder has got to from its instantiation on without closing it.
Both import the same functions and see the same: the same table, the same globals and the same
memory. The functions of the embedder treat both alike, and they write every result that they
declare, or the machines of both instances that wait hold the same word. Then every invocation of
both ends alike, with the same results or the same trap, and leaves both seeing the same. -/
theorem invoke_forgets_history {host : Host H σ} {fuel nesting nesting' : Nat} {m : Module}
    (hloaded : m.Loaded) {resolver resolver' : Option (Resolver H σ)} {config : Config}
    {s₀ s₁ s t₀ t₁ t : Store H σ} {p q : Nat}
    (hgrounded : ∀ r, resolver = some r → r.Grounded s₀.memories.size)
    (hgrounded' : ∀ r, resolver' = some r → r.Grounded t₀.memories.size)
    (hleft : Engine.instantiate host fuel nesting m resolver config s₀ = .ok p s₁)
    (hright : Engine.instantiate host fuel nesting' m resolver' config t₀ = .ok q t₁)
    (hacts : host.Acts fuel (· ≠ .errand (.close p)))
    (hacts' : host.Acts fuel (· ≠ .errand (.close q))) (hleads : s₁.LeadsTo host fuel p s)
    (hleads' : t₁.LeadsTo host fuel q t) {a b : Instance H} (ha : s.instances[p]? = some a)
    (hb : t.instances[q]? = some b) (himports : a.imports = b.imports) (htable : a.table = b.table)
    (hglobals : ∀ i j : Nat, a.globals[i]? = a.globals[j]? ↔ b.globals[i]? = b.globals[j]?)
    (hview : a.view s = b.view t) {own : σ → σ → Prop} (hown : own s.host t.host)
    (htreats : host.Treats ⟨a, p, b, q, own⟩) (hslots : host.Writes ∨ a.idle.getD 0 = b.idle.getD 0)
    (depth : Nat) (name : String) (args : List Value) :
    EndsAlike (fun s' t' => a.view s' = b.view t' ∧ own s'.host t'.host) Eq
      (Engine.invoke host fuel depth p name args s)
        (Engine.invoke host fuel depth q name args t) := by
  obtain ⟨bytes, ending, hload⟩ := hloaded
  have hvalid := Module.valid_of_load hload
  obtain ⟨_, ha', hcheck, hopen, hfits, hserves⟩ :=
    Engine.exists_serves hvalid hgrounded hleft hacts hleads
  obtain ⟨_, hb', hcheck', hopen', hfits', hserves'⟩ :=
    Engine.exists_serves hvalid hgrounded' hright hacts' hleads'
  obtain rfl := Option.some.inj (ha.symm.trans ha')
  obtain rfl := Option.some.inj (hb.symm.trans hb')
  have hconfig : a.config = b.config := Except.ok.inj (hcheck.symm.trans hcheck')
  have htwin := hserves.twin hserves' (hopen.trans hopen'.symm) hconfig himports htable
    hglobals p q own
  have hmatch : Pair.Match ⟨a, p, b, q, own⟩ host s t :=
    ⟨hown, hview, a.idle, b.idle, ha, hb, hfits, hfits', hslots⟩
  rcases (Pair.invoke_together htwin htreats fuel depth name args s t hmatch).cases with
    ⟨values, _, s', t', hs', ht', rfl, hended⟩ | ⟨e, s', t', hs', ht', hended⟩
  · rw [hs', ht']
    exact ⟨rfl, hended.view_eq, hended.own⟩
  · rw [hs', ht']
    exact ⟨rfl, hended.view_eq, hended.own⟩

/-! ## A result that is not written -/

/-- A module whose functions `a` and `b` give what the imported functions `e.a` and `e.b` answer. -/
def asking : List UInt8 :=
  [0, 0x61, 0x73, 0x6d, 1, 0, 0, 0, 1, 5, 1, 0x60, 0, 1, 0x7f,
    2, 13, 2, 1, 0x65, 1, 0x61, 0, 0, 1, 0x65, 1, 0x62, 0, 0, 3, 3, 2, 0, 0,
    7, 9, 2, 1, 0x61, 0, 2, 1, 0x62, 0, 3, 10, 11, 2, 4, 0, 0x10, 0, 0x0b, 4, 0, 0x10, 1, 0x0b]

/-- An embedder whose functions do nothing but answer. -/
def answeringHost (answer : Bool → Option UInt64) : Host Bool Unit where
  call _ c s := .ok (answer c.code) s

/-- The functions that the module imports. -/
def questions : Bindings Bool :=
  { functions := [("e.a", ⟨{ results := [.i32] }, true⟩), ("e.b", ⟨{ results := [.i32] }, false⟩)] }

section

variable {answer : Bool → Option UInt64}

/-- A host that always answers the same treats twins alike. -/
theorem answeringHost_treats (pair : Pair Bool Unit) : (answeringHost answer).Treats pair := by
  intro v w _ c d hcall s t hst
  simp only [answeringHost, hcall.code_eq]
  exact ⟨rfl, hst⟩

/-- It does not act on the store. -/
theorem answeringHost_acts (fuel : Nat) (P : Action Bool Unit → Prop) :
    (answeringHost answer).Acts fuel P := fun _ _ _ => .refl

end

deriving instance DecidableEq for HostFunction, ImportedFunction

/-- Whether the following comes about. The module is instantiated twice in an empty store, and the
function `a` of the first instance is invoked. Then the two instances import the same and have
neither a table nor globals nor a memory, and their functions `b` give the two words. -/
def asksApart (answer : Bool → Option UInt64) (left right : UInt64) : Bool :=
  let host := answeringHost answer
  (Module.load asking .eof).toOption.any fun m =>
    (succeeded (Engine.instantiate host 100 1 m (some questions.resolver) {} { host := () })).any
        fun first =>
      (succeeded (Engine.instantiate host 100 1 m (some questions.resolver) {} first.2)).any
          fun second =>
        (succeeded (Engine.invoke host 100 1 0 "a" [] second.2)).any fun asked =>
          first.1 == 0 && second.1 == 1 &&
          (asked.2.instances[0]?).any fun a => (asked.2.instances[1]?).any fun b =>
            a.imports == b.imports && a.table.isNone && b.table.isNone && a.globals == #[] &&
              b.globals == #[] && a.memory.isNone && b.memory.isNone &&
            (succeeded (Engine.invoke host 100 1 0 "b" [] asked.2)).any (·.1 == [⟨.i32, left⟩]) &&
            (succeeded (Engine.invoke host 100 1 1 "b" [] asked.2)).any (·.1 == [⟨.i32, right⟩])

/-- What comes about is two histories of instances that see the same. -/
theorem exists_of_asksApart {answer : Bool → Option UInt64} {left right : UInt64}
    (happart : asksApart answer left right = true) :
    ∃ m s₁ s₂ s a b t t', m.Loaded ∧
      Engine.instantiate (answeringHost answer) 100 1 m (some questions.resolver) {}
        { host := () } = .ok 0 s₁ ∧
      Engine.instantiate (answeringHost answer) 100 1 m (some questions.resolver) {} s₁ = .ok 1 s₂ ∧
      s₁.LeadsTo (answeringHost answer) 100 0 s ∧ s₂.LeadsTo (answeringHost answer) 100 1 s ∧
      s.instances[0]? = some a ∧ s.instances[1]? = some b ∧ a.imports = b.imports ∧
      a.table = b.table ∧ a.globals = b.globals ∧ a.view s = b.view s ∧
      Engine.invoke (answeringHost answer) 100 1 0 "b" [] s = .ok [⟨.i32, left⟩] t ∧
      Engine.invoke (answeringHost answer) 100 1 1 "b" [] s = .ok [⟨.i32, right⟩] t' := by
  simp only [asksApart, Option.any_eq_true, Bool.and_eq_true, succeeded_eq_some, beq_iff_eq,
    Option.isNone_iff_eq_none] at happart
  obtain ⟨m, hm, ⟨p, s₁⟩, hfirst, ⟨q, s₂⟩, hsecond, ⟨values, s⟩, hinvoke, ⟨rfl, rfl⟩, a, ha, b, hb,
    ⟨⟨⟨⟨⟨⟨⟨himports, htable⟩, htable'⟩, hglobals⟩, hglobals'⟩, hmemory⟩, hmemory'⟩, ⟨_, t⟩, hleft,
    rfl⟩, ⟨_, t'⟩, hright, rfl⟩ := happart
  have hload : Module.load asking .eof = .ok m := except_toOption_eq_some.mp hm
  have hasked (P : Action Bool Unit → Prop) (hP : P (.invoke 0 "a" [])) :
      ∃ nesting, Acts (answeringHost answer) 100 nesting P s₂ s :=
    ⟨1, .invoke 0 "a" [], hP, trivial, by rw [Action.run, hinvoke]; rfl⟩
  have hmade : ∃ nesting, Acts (answeringHost answer) 100 nesting
      (· ≠ .errand (.close 0)) s₁ s₂ :=
    ⟨2, .instantiate 1 m (some questions.resolver) {}, by simp,
      ⟨by decide, ⟨_, _, hload⟩, trivial⟩, by rw [Action.run, hsecond]; rfl⟩
  refine ⟨m, s₁, s₂, s, a, b, t, t', ⟨_, _, hload⟩, hfirst, hsecond,
    .tail (.single hmade) (hasked _ (by simp)), .single (hasked _ (by simp)), ha, hb,
    himports, by rw [htable, htable'], by rw [hglobals, hglobals'], ?_, hleft, hright⟩
  simp only [Instance.view, hglobals, hglobals', hmemory, hmemory']

/-- An instance that was asked before answers as one that was not, if every answer is written, and
repeats the answer before otherwise. -/
theorem asksApart_written : asksApart (fun c => some (if c then 7 else 0)) 0 0 = true ∧
    asksApart (fun c => if c then some 7 else none) 7 0 = true := by
  decide +kernel

/-- An embedder whose functions write what they answer. -/
def writingHost : Host Bool Unit := answeringHost fun c => some (if c then 7 else 0)

/-- Two instances, of which one has been invoked before. -/
theorem invoke_forgets_history_asking :
    ∃ m s₁ s₂ s a b, ∃ t t' : Store Bool Unit, m.Loaded ∧
      Engine.instantiate writingHost 100 1 m
        (some questions.resolver) {} { host := () } = .ok 0 s₁ ∧
      Engine.instantiate writingHost 100 1 m
        (some questions.resolver) {} s₁ = .ok 1 s₂ ∧
      s₁.LeadsTo writingHost 100 0 s ∧
      s₂.LeadsTo writingHost 100 1 s ∧
      s.instances[0]? = some a ∧ s.instances[1]? = some b ∧ a.imports = b.imports ∧
      a.table = b.table ∧ a.globals = b.globals ∧ a.view s = b.view s ∧
      writingHost.Treats ⟨a, 0, b, 1, fun _ _ => True⟩ ∧
      writingHost.Writes ∧
      Engine.invoke writingHost 100 1 0 "b" [] s =
        .ok [⟨.i32, 0⟩] t ∧
      Engine.invoke writingHost 100 1 1 "b" [] s =
        .ok [⟨.i32, 0⟩] t' ∧ a.view t = b.view t' := by
  obtain ⟨m, s₁, s₂, s, a, b, t, t', hloaded, hleft, hright, hleads, hleads', ha, hb, himports,
    htable, hglobals, hview, hinvoke, hinvoke'⟩ := exists_of_asksApart asksApart_written.1
  have hgrounded (n : Nat) : ∀ r : Resolver Bool Unit, some questions.resolver = some r →
      r.Grounded n := by
    rintro _ ⟨⟩
    exact Bindings.resolver_grounded nofun
  have hwrites : writingHost.Writes := by
    intro v c written s s' hok _
    obtain ⟨rfl, -⟩ := EStateM.Result.ok.inj hok
    rfl
  have htreats : writingHost.Treats ⟨a, 0, b, 1, fun _ _ => True⟩ := answeringHost_treats _
  have hends := invoke_forgets_history hloaded (hgrounded _) (hgrounded _) hleft hright
    (answeringHost_acts 100 _) (answeringHost_acts 100 _) hleads hleads' ha hb himports htable
    (fun i j => by rw [hglobals]) hview (by trivial) htreats
    (.inl hwrites) 1 "b" []
  rw [hinvoke, hinvoke'] at hends
  exact ⟨m, s₁, s₂, s, a, b, t, t', hloaded, hleft, hright, hleads, hleads', ha, hb, himports,
    htable, hglobals, hview, htreats, hwrites, hinvoke, hinvoke', hends.2.1⟩

/-- An embedder whose function `b` leaves its result unwritten. -/
def silentHost : Host Bool Unit := answeringHost fun c => if c then some 7 else none

/-- A function of the embedder that succeeds without writing its result lets an earlier invocation
be told from none. -/
theorem invoke_tells_history_unwritten :
    ∃ m s₁ s₂ s a b, ∃ t t' : Store Bool Unit, m.Loaded ∧
      Engine.instantiate silentHost 100 1 m
        (some questions.resolver) {} { host := () } = .ok 0 s₁ ∧
      Engine.instantiate silentHost 100 1 m
        (some questions.resolver) {} s₁ = .ok 1 s₂ ∧
      s₁.LeadsTo silentHost 100 0 s ∧
      s₂.LeadsTo silentHost 100 1 s ∧
      s.instances[0]? = some a ∧ s.instances[1]? = some b ∧ a.imports = b.imports ∧
      a.table = b.table ∧ a.globals = b.globals ∧ a.view s = b.view s ∧
      silentHost.Treats ⟨a, 0, b, 1, fun _ _ => True⟩ ∧
      Engine.invoke silentHost 100 1 0 "b" [] s =
        .ok [⟨.i32, 7⟩] t ∧
      Engine.invoke silentHost 100 1 1 "b" [] s =
        .ok [⟨.i32, 0⟩] t' := by
  obtain ⟨m, s₁, s₂, s, a, b, t, t', hloaded, hleft, hright, hleads, hleads', ha, hb, himports,
    htable, hglobals, hview, hinvoke, hinvoke'⟩ := exists_of_asksApart asksApart_written.2
  exact ⟨m, s₁, s₂, s, a, b, t, t', hloaded, hleft, hright, hleads, hleads', ha, hb, himports,
    htable, hglobals, hview, answeringHost_treats _, hinvoke, hinvoke'⟩

end IntWasm
