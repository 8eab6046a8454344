import IntWasm.Proofs.Engine.Owners
import IntWasm.Proofs.Engine.Safety

/-!
# Moments

What an embedder does takes a store through many states besides those between its own actions:
between two instructions of a function that it has invoked or that starts an instance, and between
the actions of its functions that are called in the meantime. Main statements:
`Store.Passes.moves_of_kind` and `Store.Lasting.passes`.
-/

namespace IntWasm

variable {H σ : Type}

/-- An embedder that does only actions of a kind does only actions of a wider kind. -/
theorem Host.Acts.mono {host : Host H σ} {fuel : Nat} {P Q : Action H σ → Prop}
    (hacts : host.Acts fuel P) (hle : ∀ a, P a → Q a) : host.Acts fuel Q := fun nesting c s =>
  Relation.ReflTransGen.mono (fun _ _ ⟨a, ha, hact⟩ => ⟨a, hle a ha, hact⟩) _ _ (hacts nesting c s)

/-- What all actions of a kind keep to, those of a narrower kind do. -/
theorem Action.Allowed.mono {host : Host H σ} {fuel : Nat} {P Q : Action H σ → Prop}
    {R : Store H σ → Store H σ → Prop} (hallowed : Action.Allowed host fuel Q R)
    (hle : ∀ a, P a → Q a) : Action.Allowed host fuel P R where
  code := hallowed.code
  waits := hallowed.waits
  errand ha := hallowed.errand (hle _ ha)
  instantiate ha := hallowed.instantiate (hle _ ha)

/-- A store that there is at some moment while an embedder does actions of a kind, one after
another, the last of which may not have come to its end. -/
inductive Store.Passes (host : Host H σ) (fuel : Nat) (P : Action H σ → Prop) :
    Store H σ → Store H σ → Prop
  | here {s} : Passes host fuel P s s
  | act {nesting s t u} (hact : Acts host fuel nesting P s t) (hrest : Passes host fuel P t u) :
    Passes host fuel P s u
  /-- In the middle of an invocation, where a function of the embedder may be acting. -/
  | invoke {nesting s u address name args} {inst : Instance H} {function type words slot next}
      {state : State H σ} (hat : s.instances[address]? = some inst)
      (hprepare : inst.prepare name args = .ok (function, type, words))
      (hvisits : inst.Visits host (Engine.invoke host fuel nesting) function words
        (Engine.begun inst address s) slot next state)
      (hrest : Passes host fuel P state.store u) : Passes host fuel P s u
  /-- In the middle of the start function of an instance. -/
  | start {nesting inner s u m resolver config c function slot next} {l : Linking H σ}
      {state : State H σ} (hkind : P (.instantiate inner m resolver config))
      (hadmissible : (Action.instantiate inner m resolver config).Admissible nesting s)
      (hcheck : config.check = .ok c)
      (hassemble : Link.assemble m resolver (Engine.placeAllocator c s).1
        ⟨(Engine.placeAllocator c s).2, { config := c }⟩ = .ok () l)
      (hvisits : l.inst.Visits host (Engine.invoke host fuel inner) function [] l.store
        slot next state)
      (hrest : Passes host fuel P state.store u) : Passes host fuel P s u

/-- What all actions of a kind keep to holds at every moment, if putting an instance together in an
action of that kind keeps to it as well. -/
theorem Store.Passes.moves_of_kind {host : Host H σ} {fuel : Nat} {P : Action H σ → Prop}
    {R : Store H σ → Store H σ → Prop} (hacts : host.Acts fuel P)
    (hallowed : Action.Allowed host fuel P R)
    (hassembled : ∀ {inner : Nat} {m : Module} {resolver : Option (Resolver H σ)}
      {config c : Config} {s : Store H σ} {l : Linking H σ},
      P (.instantiate inner m resolver config) → m.Loaded →
      Link.assemble m resolver (Engine.placeAllocator c s).1
        ⟨(Engine.placeAllocator c s).2, { config := c }⟩ = .ok () l → R s l.store)
    {s u : Store H σ} (hpasses : s.Passes host fuel P u) : R s u := by
  induction hpasses with
  | here => exact hallowed.refl _
  | @act nesting s t u hact _ ih =>
    exact hallowed.trans ((hacts.moves hallowed nesting).2 s t hact) ih
  | @invoke nesting s u address name args inst function type words slot next state hat _
      hvisits _ ih =>
    have hallows := hallowed.code inst
    have hbegun : R s (Engine.begun inst address s) :=
      hallowed.waits none hat (by simp) (hallows.count s inst.config Counters.invocation)
    have hvisited := hvisits.moves hallows (hacts.moves hallowed nesting).1
    exact hallowed.trans (hallowed.trans hbegun hvisited) ih
  | @start nesting inner s u m resolver config c function slot next l state hkind hadmissible _
      hassemble hvisits _ ih =>
    have hvisited := hvisits.moves (hallowed.code l.inst) (hacts.moves hallowed inner).1
    exact hallowed.trans (hallowed.trans (hassembled hkind hadmissible.2.1 hassemble) hvisited) ih

/-- What all actions of a kind keep to holds at every moment, if putting an instance together keeps
to it as well. -/
theorem Store.Passes.moves {host : Host H σ} {fuel : Nat} {P : Action H σ → Prop}
    {R : Store H σ → Store H σ → Prop} (hacts : host.Acts fuel P)
    (hallowed : Action.Allowed host fuel P R)
    (hassembled : ∀ {m : Module} {resolver : Option (Resolver H σ)} {c : Config} {s : Store H σ}
      {l : Linking H σ}, m.Loaded → Link.assemble m resolver (Engine.placeAllocator c s).1
        ⟨(Engine.placeAllocator c s).2, { config := c }⟩ = .ok () l → R s l.store)
    {s u : Store H σ} (hpasses : s.Passes host fuel P u) : R s u :=
  hpasses.moves_of_kind hacts hallowed fun _ => hassembled

/-- Every moment is on the way of a lasting relation. -/
theorem Store.Lasting.passes {host : Host H σ} {fuel place : Nat} {R : Store H σ → Store H σ → Prop}
    (hlasting : Store.Lasting place R) (hacts : host.Acts fuel fun _ => True) {s u : Store H σ}
    (hpasses : s.Passes host fuel (fun _ => True) u) : R s u := by
  have hallowed := hlasting.allowed host fuel
  refine hpasses.moves hacts hallowed fun {m resolver c s l} _ hassemble => ?_
  have hmoves := Link.assemble_moves (hlasting.building resolver (Engine.placeAllocator c s).1
    (hacts.moves hallowed 0).1) m ⟨(Engine.placeAllocator c s).2, { config := c }⟩
  rw [hassemble] at hmoves
  exact hlasting.trans (hlasting.keeps (Engine.placeAllocator_keeps c s place)) hmoves

end IntWasm
