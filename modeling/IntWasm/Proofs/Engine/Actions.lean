import IntWasm.Engine.Instantiate
import IntWasm.Proofs.Config
import IntWasm.Proofs.Engine.Changes
import IntWasm.Proofs.Memory.Pages

/-!
# What an embedder does

An embedder makes allocators, memories and globals, writes to them, frees memories, instantiates
modules, invokes their functions and closes instances, in any order. Its own functions do the same
while code runs. What all these actions have in common is shown by an induction over the nesting of
invocations: a function that is called inside an invocation starts only invocations of less nesting.
Main statement: `Host.Acts.moves`.
-/

namespace IntWasm

variable {H σ : Type}

/-- A module that was loaded from a binary. -/
def Module.Loaded (m : Module) : Prop := ∃ bytes ending, Module.load bytes ending = .ok m

/-- The allocator of a configuration is new or in the store. -/
def Config.Grounded (c : Config) (s : Store H σ) : Prop :=
  match c.allocator with
  | none => True
  | some (.fresh a) => a.Fresh
  | some (.shared address) => address < s.allocators.size

/-- A memory after an attempt to replace a run of its bytes. -/
def Memory.overwrite (m : Memory) (offset : UInt32) (bytes : List UInt8) : Memory :=
  (m.write offset bytes).toOption.getD m

/-- Overwriting bytes keeps their number. -/
theorem Memory.overwrite_eq (m : Memory) (offset : UInt32) (bytes : List UInt8) :
    ∃ b : ByteArray, b.size = m.bytes.size ∧ m.overwrite offset bytes = { m with bytes := b } := by
  unfold overwrite Memory.write
  split
  · exact ⟨m.bytes, rfl, rfl⟩
  · exact ⟨setBytes m.bytes offset.toNat bytes, size_setBytes .., rfl⟩

/-- What an embedder does to a store without running any code. -/
inductive Errand (H σ : Type) where
  | newAllocator (a : Allocator)
  | newMemory (limits : Limits) (allocator : Nat) (cap : UInt32)
  | growMemory (address : Nat) (pages : UInt32)
  | freeMemory (address : Nat)
  | writeMemory (address : Nat) (offset : UInt32) (bytes : List UInt8)
  | newGlobal (g : Global)
  | setGlobal (address : Nat) (bits : UInt64)
  | close (address : Nat)
  /-- A change of the embedder's own state, of traces and of counters. -/
  | note (traces : Array Sink) (counters : Counters) (host : σ)

namespace Errand

/-- The store after an errand. -/
def run (s : Store H σ) : Errand H σ → Store H σ
  | newAllocator a => (s.addAllocator a).2
  | newMemory limits allocator cap => finalState (Store.newMemory limits allocator cap s)
  | growMemory address pages => finalState (Store.growMemory address pages s)
  | freeMemory address => s.freeMemory address
  | writeMemory address offset bytes =>
    s.modifyMemory address (·.overwrite offset bytes)
  | newGlobal g => (s.addGlobal g).2
  | setGlobal address bits =>
    { s with globals := s.globals.modify address fun g => (g.set? bits).getD g }
  | close address => finalState (Engine.close address s)
  | note traces counters host => { s with traces, counters, host }

/-- An errand with an allocator that is there. -/
def Admissible (s : Store H σ) : Errand H σ → Prop
  | newAllocator a => a.Fresh
  | newMemory _ allocator _ => allocator < s.allocators.size
  | _ => True

end Errand

/-- What an embedder does to a store. -/
inductive Action (H σ : Type) where
  | errand (e : Errand H σ)
  /-- Instantiates a module, whose start function may nest invocations as deep as the number
  says. -/
  | instantiate (nesting : Nat) (m : Module) (resolver : Option (Resolver H σ)) (config : Config)
  | invoke (address : Nat) (name : String) (args : List Value)

namespace Action

/-- The store after an action, whether it has succeeded or not. -/
def run (host : Host H σ) (fuel nesting : Nat) (s : Store H σ) : Action H σ → Store H σ
  | errand e => e.run s
  | instantiate inner m resolver config =>
    finalState (Engine.instantiate host fuel inner m resolver config s)
  | invoke address name args => finalState (Engine.invoke host fuel nesting address name args s)

/-- An action on a loaded module and on what is there. -/
def Admissible (nesting : Nat) (s : Store H σ) : Action H σ → Prop
  | errand e => e.Admissible s
  | instantiate inner m _ config => inner < nesting ∧ m.Loaded ∧ config.Grounded s
  | invoke _ _ _ => True

end Action

/-- One action of a kind takes a store to another one. -/
def Acts (host : Host H σ) (fuel nesting : Nat) (P : Action H σ → Prop) (s s' : Store H σ) : Prop :=
  ∃ a : Action H σ, P a ∧ a.Admissible nesting s ∧ a.run host fuel nesting s = s'

/-- The functions of an embedder do nothing but actions of a kind. -/
def Host.Acts (host : Host H σ) (fuel : Nat) (P : Action H σ → Prop) : Prop :=
  ∀ nesting c s, Relation.ReflTransGen (IntWasm.Acts host fuel nesting P) s
    (finalState (host.call (Engine.invoke host fuel nesting) c s))

/-- A relation that holds between the stores before and after all actions of a kind, as long as it
does so for the functions of the embedder that they call. -/
structure Action.Allowed (host : Host H σ) (fuel : Nat) (P : Action H σ → Prop)
    (R : Store H σ → Store H σ → Prop) : Prop where
  code : ∀ inst : Instance H, inst.Allows R
  waits : Store.Waits R
  errand : ∀ {e : Errand H σ} {s}, P (.errand e) → e.Admissible s → R s (e.run s)
  instantiate : ∀ {nesting inner m resolver config s}, P (.instantiate inner m resolver config) →
    (Action.instantiate inner m resolver config).Admissible nesting s →
    (∀ c, Moves R (host.call (Engine.invoke host fuel inner) c)) →
    R s (finalState (Engine.instantiate host fuel inner m resolver config s))

section

variable {host : Host H σ} {fuel : Nat} {P : Action H σ → Prop} {R : Store H σ → Store H σ → Prop}

/-- Doing nothing is allowed. -/
theorem Action.Allowed.refl (hallowed : Action.Allowed host fuel P R) (s : Store H σ) : R s s :=
  (hallowed.code { config := default }).refl s

/-- What is allowed twice is allowed. -/
theorem Action.Allowed.trans (hallowed : Action.Allowed host fuel P R) {s t u : Store H σ}
    (hst : R s t) (htu : R t u) : R s u :=
  (hallowed.code { config := default }).trans hst htu

/-- What is true of single steps is true of many. -/
theorem Action.Allowed.many (hallowed : Action.Allowed host fuel P R)
    {T : Store H σ → Store H σ → Prop} (hstep : ∀ s s', T s s' → R s s') {s s' : Store H σ}
    (hsteps : Relation.ReflTransGen T s s') : R s s' := by
  induction hsteps with
  | refl => exact hallowed.refl s
  | tail _ hlast ih => exact hallowed.trans ih (hstep _ _ hlast)

/-- An embedder whose functions do actions of a kind, and the engine that runs them, take a store
along every relation that these actions and all code keep to. -/
theorem Host.Acts.moves (hacts : host.Acts fuel P) (hallowed : Action.Allowed host fuel P R)
    (nesting : Nat) :
    (∀ c, Moves R (host.call (Engine.invoke host fuel nesting) c)) ∧
      ∀ s s', IntWasm.Acts host fuel nesting P s s' → R s s' := by
  induction nesting using Nat.strong_induction_on with
  | _ nesting ih =>
    have hstep : ∀ s s', IntWasm.Acts host fuel nesting P s s' → R s s' := by
      rintro s _ ⟨a, hkind, hadmissible, rfl⟩
      cases a with
      | errand e => exact hallowed.errand hkind hadmissible
      | instantiate inner m resolver config =>
        exact hallowed.instantiate hkind hadmissible (ih inner hadmissible.1).1
      | invoke address name args =>
        cases nesting with
        | zero => exact hallowed.refl s
        | succ nesting =>
          exact Engine.invoke_moves hallowed.code hallowed.waits (ih nesting (Nat.lt_succ_self _)).1
            address name args s
    exact ⟨fun c s => hallowed.many hstep (hacts nesting c s), hstep⟩

end

end IntWasm
