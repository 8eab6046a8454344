import IntWasm.Engine.Invoke
import IntWasm.Proofs.Structured.Machine
import Mathlib.Logic.Relation

/-!
# What running code does to the store

An instruction changes a global or the memory of its instance, or nothing. Whatever the code of an
instance and the functions of the embedder may do one after another, a run does: a relation that
contains both holds between the stores before and after a run, if it is reflexive and transitive.
Main statements: `Activation.step_moves`, what one instruction does, and `Instance.call_moves` and
`Engine.invoke_moves`, what a call and an invocation do.
-/

namespace IntWasm

variable {H σ : Type}

/-- A machine waits for the next call of a function of an instance, or one can be made for it. -/
def Instance.HasMachine (inst : Instance H) : Prop := inst.idle.isSome ∨ inst.config.stacksFit

/-! ## Instructions -/

/-- What the code of an instance does to the store in one step: it writes to one of its globals or
to its memory, lets its memory grow or tries to, and leaves notes on what happens. -/
inductive Instance.Touches (inst : Instance H) : Store H σ → Store H σ → Prop
  | global {s : Store H σ} {i address : Nat} {g g' : Global} {v : UInt64}
      (hplace : inst.globals[i]? = some address) (hglobal : s.globals[address]? = some g)
      (hset : g.set? v = some g') :
    Touches inst s { s with globals := s.globals.setIfInBounds address g' }
  | bytes {s address} (start : Nat) (w : UInt64) (width : Nat)
      (hplace : inst.memory = some address) :
    Touches inst s (s.modifyMemory address fun m =>
      { m with bytes := storeWord m.bytes start w width })
  | grow {s address} (pages : UInt32) (hplace : inst.memory = some address) :
    Touches inst s (finalState (Store.growMemory address pages s))
  | observe {s} (traces : Array Sink) (counters : Counters) :
    Touches inst s { s with traces, counters }

/-- A relation that holds between the stores before and after whatever the code of an instance
does. -/
structure Instance.Allows (inst : Instance H) (R : Store H σ → Store H σ → Prop) : Prop where
  refl : ∀ s, R s s
  trans : ∀ ⦃s t u⦄, R s t → R t u → R s u
  touches : ∀ {s s'}, inst.Touches s s' → R s s'

/-- What a single instruction of an instance does to the store, which leaves no notes but counts. -/
inductive Instance.Works (inst : Instance H) : Store H σ → Store H σ → Prop
  | global {s : Store H σ} {i address : Nat} {g g' : Global} {v : UInt64}
      (hplace : inst.globals[i]? = some address) (hglobal : s.globals[address]? = some g)
      (hset : g.set? v = some g') :
    Works inst s { s with globals := s.globals.setIfInBounds address g' }
  | bytes {s address} (start : Nat) (w : UInt64) (width : Nat)
      (hplace : inst.memory = some address) :
    Works inst s (s.modifyMemory address fun m =>
      { m with bytes := storeWord m.bytes start w width })
  | grow {s address} (pages : UInt32) (hplace : inst.memory = some address) :
    Works inst s (finalState (Store.growMemory address pages s))
  | count {s} (counters : Counters) : Works inst s { s with counters }

/-- A relation that holds between the stores before and after whatever a single instruction does. -/
structure Instance.Permits (inst : Instance H) (R : Store H σ → Store H σ → Prop) : Prop where
  refl : ∀ s, R s s
  trans : ∀ ⦃s t u⦄, R s t → R t u → R s u
  works : ∀ {s s'}, inst.Works s s' → R s s'

section

variable {inst : Instance H} {R : Store H σ → Store H σ → Prop}

/-- What an instance is allowed to do to a store includes what its instructions do. -/
theorem Instance.Allows.permits (hallows : inst.Allows R) : inst.Permits R := by
  refine ⟨hallows.refl, hallows.trans, fun {s s'} hworks => hallows.touches ?_⟩
  cases hworks with
  | global hplace hglobal hset => exact .global hplace hglobal hset
  | bytes start w width hplace => exact .bytes start w width hplace
  | grow pages hplace => exact .grow pages hplace
  | count counters => exact .observe s.traces counters

/-- Counting is permitted. -/
theorem Instance.Permits.count (hpermits : inst.Permits R) (s : Store H σ) (config : Config)
    (f : Counters → Counters) : R s (s.count config f) := by
  unfold Store.count
  split
  · exact hpermits.works (.count (f s.counters))
  · exact hpermits.refl s

/-- Counting is allowed. -/
theorem Instance.Allows.count (hallows : inst.Allows R) (s : Store H σ) (config : Config)
    (f : Counters → Counters) : R s (s.count config f) :=
  hallows.permits.count s config f

/-- What depends on the activation only does not touch the store. -/
theorem Exec.lift_moves (hpermits : inst.Permits R) {α : Type} (r : Except Stop α) :
    Moves R (Exec.lift r) := by
  intro s
  cases r <;> exact hpermits.refl s

/-- Reading a global does not touch the store. -/
theorem Exec.getGlobal_moves (hpermits : inst.Permits R) (i : UInt32) :
    Moves R (Exec.getGlobal inst i) := by
  intro s
  unfold Exec.getGlobal
  split <;> exact hpermits.refl s

/-- Writing a global is permitted. -/
theorem Exec.setGlobal_moves (hpermits : inst.Permits R) (i : UInt32) (v : UInt64) :
    Moves R (Exec.setGlobal inst i v) := by
  intro s
  unfold Exec.setGlobal
  split
  · exact hpermits.refl s
  · rename_i address hplace
    split
    · exact hpermits.refl s
    · rename_i g hglobal
      split
      · rename_i g' hset
        exact hpermits.works (.global hplace hglobal hset)
      · exact hpermits.refl s

/-- A computation on the memory of the instance. -/
theorem Exec.memory_moves (hpermits : inst.Permits R) {α : Type} {next : Nat → Exec H σ α}
    (hnext : ∀ address, inst.memory = some address → Moves R (next address)) :
    Moves R (Exec.memory inst >>= next) := by
  intro s
  simp only [Exec.memory, bind, EStateM.bind]
  cases hplace : inst.memory with
  | none => exact hpermits.refl s
  | some address => exact hnext address hplace s

/-- Loading does not touch the store. -/
theorem Exec.load_moves (hpermits : inst.Permits R) (base offset : UInt32) (width : Nat) :
    Moves R (Exec.load inst base offset width) := by
  refine Exec.memory_moves hpermits fun address _ s => ?_
  split
  · exact hpermits.refl s
  · split <;> exact hpermits.refl s

/-- Writing bytes is permitted. -/
theorem Exec.store_moves (hpermits : inst.Permits R) (base offset : UInt32) (width : Nat)
    (w : UInt64) : Moves R (Exec.store inst base offset width w) := by
  refine Exec.memory_moves hpermits fun address hplace s => ?_
  split
  · exact hpermits.refl s
  · split
    · exact hpermits.refl s
    · exact hpermits.works (.bytes _ w width hplace)

/-- Asking for the size does not touch the store. -/
theorem Exec.memorySize_moves (hpermits : inst.Permits R) : Moves R (Exec.memorySize inst) := by
  refine Exec.memory_moves hpermits fun address _ s => ?_
  split <;> exact hpermits.refl s

/-- Growing the memory is permitted. -/
theorem Exec.memoryGrow_moves (hpermits : inst.Permits R) (pages : UInt32) :
    Moves R (Exec.memoryGrow inst pages) := by
  refine Exec.memory_moves hpermits fun address hplace s => ?_
  have hgrown := hpermits.works (.grow (s := s) pages hplace)
  cases hresult : Store.growMemory address pages s with
  | ok before s' =>
    rw [hresult] at hgrown
    exact hpermits.trans hgrown (hpermits.count _ _ _)
  | error e s' =>
    rw [hresult] at hgrown
    exact hpermits.trans hgrown (hpermits.count _ _ _)

/-- Looking into the table does not touch the store. -/
theorem Exec.indirect_moves (hpermits : inst.Permits R) (slot type : UInt32) :
    Moves R (Exec.indirect inst slot type : Exec H σ UInt32) := by
  unfold Exec.indirect
  split
  · exact moves_throw hpermits.refl _
  · split
    · exact moves_throw hpermits.refl _
    · split
      · exact moves_throw hpermits.refl _
      · split
        · exact moves_throw hpermits.refl _
        · split
          · exact moves_pure hpermits.refl _
          · exact moves_throw hpermits.refl _

/-- What one instruction does to the store. -/
theorem Activation.step_moves (hpermits : inst.Permits R) (f : Activation) (i : Instruction) :
    Moves R (Activation.step inst f i : Exec H σ Next) := by
  have hpure {α : Type} (a : α) : Moves R (pure a : Exec H σ α) := moves_pure hpermits.refl a
  rw [Activation.step]
  split
  · exact moves_throw hpermits.refl _
  · exact hpure _
  · refine Moves.bind hpermits.trans (Exec.lift_moves hpermits _) fun _ => ?_
    exact Moves.bind hpermits.trans (Exec.indirect_moves hpermits _ _) fun _ => hpure _
  · exact Moves.bind hpermits.trans (Exec.getGlobal_moves hpermits _) fun _ =>
      Exec.lift_moves hpermits _
  · refine Moves.bind hpermits.trans (Exec.lift_moves hpermits _) fun _ => ?_
    exact Moves.bind hpermits.trans (Exec.setGlobal_moves hpermits _ _) fun _ => hpure _
  · refine Moves.bind hpermits.trans (Exec.lift_moves hpermits _) fun _ => ?_
    exact Moves.bind hpermits.trans (Exec.load_moves hpermits _ _ _) fun _ =>
      Exec.lift_moves hpermits _
  · refine Moves.bind hpermits.trans (Exec.lift_moves hpermits _) fun _ => ?_
    exact Moves.bind hpermits.trans (Exec.store_moves hpermits _ _ _ _) fun _ => hpure _
  · exact Moves.bind hpermits.trans (Exec.memorySize_moves hpermits) fun _ =>
      Exec.lift_moves hpermits _
  · refine Moves.bind hpermits.trans (Exec.lift_moves hpermits _) fun _ => ?_
    exact Moves.bind hpermits.trans (Exec.memoryGrow_moves hpermits _) fun _ =>
      Exec.lift_moves hpermits _
  · exact Exec.lift_moves hpermits _

/-! ## Runs -/

/-- The same relation between the stores of two states of a machine. -/
def OnStores (R : Store H σ → Store H σ → Prop) (s s' : State H σ) : Prop := R s.store s'.store

/-- Two steps of a run that are allowed are allowed one after the other. -/
theorem Run.moves_bind (hallows : inst.Allows R) {α β : Type} {x : Run H σ α} {next : α → Run H σ β}
    (hx : Moves (OnStores R) x) (hnext : ∀ a, Moves (OnStores R) (next a)) :
    Moves (OnStores R) (x >>= next) := by
  refine Moves.bind ?_ hx hnext
  intro s t u hfirst hsecond
  exact hallows.trans hfirst hsecond

/-- What keeps the store is allowed. -/
theorem Run.moves_of_kept (hallows : inst.Allows R) {α : Type} {x : Run H σ α}
    (hkept : ∀ s, (finalState (x s)).store = s.store) : Moves (OnStores R) x := by
  intro s
  rw [OnStores, hkept s]
  exact hallows.refl _

/-- Writing a trace is allowed. -/
theorem Run.traced_moves (hallows : inst.Allows R) (config : Config) (s : State H σ)
    (act : Thread → Sink → Thread × Sink) : OnStores R s (Run.traced config s act) := by
  obtain ⟨traces, out, htraced⟩ := Run.traced_eq config s act
  rw [htraced]
  exact hallows.touches (.observe traces s.store.counters)

/-- Opening a function's trace is allowed. -/
theorem Run.openFunction_moves (hallows : inst.Allows R) (name : String) (function : UInt32)
    (type : FuncType) : Moves (OnStores R) (Run.openFunction inst name function type) := by
  intro s
  unfold Run.openFunction
  split
  · exact hallows.refl s.store
  · exact Run.traced_moves hallows inst.config s (·.opened name function type)

/-- Calling is allowed. -/
theorem Run.call_moves (hallows : inst.Allows R) (function : UInt32) :
    Moves (OnStores R) (Run.call inst function) := by
  have hkept {α : Type} {x : Run H σ α} := Run.moves_of_kept (x := x) hallows
  unfold Run.call
  split
  · refine Run.moves_bind hallows ?_ fun _ => hkept fun _ => rfl
    refine Run.moves_bind hallows (Run.openFunction_moves hallows _ _ _) fun _ => hkept fun s => ?_
    simp only
    split <;> rfl
  · split
    · rename_i fn _
      refine Run.moves_bind hallows ?_ fun _ => hkept fun _ => rfl
      refine Run.moves_bind hallows (hkept fun _ => rfl) fun s => ?_
      have hrest : Moves (OnStores R) (do
          Run.openFunction inst inst.name fn.index fn.type
          modify fun s => { s with machine := s.machine.enter inst.config fn } : Run H σ Unit) :=
        Run.moves_bind hallows (Run.openFunction_moves hallows _ _ _) fun _ => hkept fun _ => rfl
      simp only
      split
      · exact Run.moves_bind hallows (hkept fun _ => rfl) fun _ => hrest
      · exact hrest
    · exact hkept fun _ => rfl

/-- Whatever an instruction says comes next is allowed. -/
theorem Run.follow_moves (hallows : inst.Allows R) (next : Next) :
    Moves (OnStores R) (Run.follow inst next) := by
  have hkept {α : Type} {x : Run H σ α} := Run.moves_of_kept (x := x) hallows
  cases next with
  | go f => exact Run.moves_bind hallows (hkept fun _ => rfl) fun _ => hkept fun _ => rfl
  | leave results =>
    refine Run.moves_bind hallows (hkept fun _ => rfl) fun _ => ?_
    refine Run.moves_bind hallows (fun s => ?_) fun _ => hkept fun _ => rfl
    exact Run.traced_moves hallows inst.config s Thread.leave
  | call f function =>
    exact Run.moves_bind hallows (hkept fun _ => rfl) fun _ => Run.call_moves hallows _

/-- What running one instruction does to the store. -/
theorem Run.advance_moves (hallows : inst.Allows R) :
    Moves (OnStores R) (Run.advance inst : Run H σ (Progress H)) := by
  rintro ⟨store, thread, ⟨frames, outer, slot⟩⟩
  cases frames with
  | nil => exact hallows.refl store
  | cons f callers =>
    cases hat : f.function.body.instructions[f.ip]? with
    | none =>
      rw [Run.advance_of_none hat]
      exact hallows.refl store
    | some i =>
      obtain ⟨traces, out, htraced⟩ := Run.traced_eq inst.config
        ⟨store, thread, ⟨f :: callers, outer, slot⟩⟩
        (fun t => t.instruction f.ip i f.operands.length)
      have hobserve : R store { store with traces } :=
        hallows.touches (.observe traces store.counters)
      have hmoves := hallows.trans hobserve
        (Activation.step_moves hallows.permits { f with ip := f.ip + 1 } i { store with traces })
      cases hstep : Activation.step inst { f with ip := f.ip + 1 } i { store with traces } with
      | error stop store' =>
        rw [hstep] at hmoves
        rw [Run.advance_of_error hat htraced hstep]
        exact hmoves
      | ok next store' =>
        rw [hstep] at hmoves
        rw [Run.advance_of_ok hat htraced hstep]
        exact hallows.trans hmoves (Run.follow_moves hallows next
          ⟨store', (thread.instruction f.ip i f.operands.length out).1,
            ⟨f :: callers, outer, slot⟩⟩)

variable {host : Host H σ} {invoker : Invoker H σ}

/-- What performing a function of the embedder does to the store, if the function does no more. -/
theorem Run.performHostCall_moves (hallows : inst.Allows R)
    (hhost : ∀ c, Moves R (host.call invoker c)) (c : HostCall H) :
    Moves (OnStores R) (Run.performHostCall host invoker inst c) := by
  rintro ⟨store, thread, machine⟩
  have hcall := hhost c store
  simp only [Run.performHostCall]
  cases hresult : host.call invoker c store with
  | error failure store' =>
    rw [hresult] at hcall
    exact hcall
  | ok written store' =>
    rw [hresult] at hcall
    obtain ⟨traces, out, htraced⟩ :=
      Run.traced_eq inst.config ⟨store', thread, machine⟩ Thread.leave
    simp only [htraced]
    have hmoves := hallows.trans hcall (hallows.touches (.observe traces store'.counters))
    split <;> exact hmoves

/-- What a run of a machine does to the store. -/
theorem Run.runFrom_moves (hallows : inst.Allows R) (hhost : ∀ c, Moves R (host.call invoker c))
    (fuel : Nat) (next : Progress H) :
    Moves (OnStores R) (Run.runFrom host invoker inst fuel next) := by
  induction fuel generalizing next with
  | zero => cases next <;> exact Run.moves_of_kept hallows fun _ => rfl
  | succ fuel ih =>
    cases next with
    | done => exact Run.moves_of_kept hallows fun _ => rfl
    | more => exact Run.moves_bind hallows (Run.advance_moves hallows) fun next => ih next
    | host c =>
      exact Run.moves_bind hallows (Run.performHostCall_moves hallows hhost c) fun _ => ih .more

/-- A run is allowed if the host's functions are. -/
theorem Instance.runFunction_moves (hallows : inst.Allows R)
    (hhost : ∀ c, Moves R (host.call invoker c)) (fuel : Nat) (function : UInt32)
    (args : List UInt64) :
    Moves (OnStores R) (inst.runFunction host invoker fuel function args) := by
  have hkept {α : Type} {x : Run H σ α} := Run.moves_of_kept (x := x) hallows
  have hrest : Moves (OnStores R) (do
      modify fun s => { s with machine.outer := args.reverse }
      let next ← Run.call inst function
      Run.runFrom host invoker inst fuel next : Run H σ Unit) :=
    Run.moves_bind hallows (hkept fun _ => rfl) fun _ =>
      Run.moves_bind hallows (Run.call_moves hallows function) fun next =>
        Run.runFrom_moves hallows hhost fuel next
  unfold Instance.runFunction
  split
  · exact Run.moves_bind hallows (hkept fun _ => rfl) fun _ => hrest
  · exact hrest

/-! ## Calls and invocations -/

/-- So is a call, with its trace closed and its trap counted. -/
theorem Instance.callOn_moves (hallows : inst.Allows R) (hhost : ∀ c, Moves R (host.call invoker c))
    (fuel : Nat) (function : UInt32) (args : List UInt64) (slot : UInt64) (store : Store H σ) :
    R store (inst.callOn host invoker fuel function args slot store).2 := by
  have hrun := Instance.runFunction_moves hallows hhost fuel function args
    ⟨store, inst.newThread, { slot }⟩
  unfold Instance.callOn
  cases hresult : inst.runFunction host invoker fuel function args
      ⟨store, inst.newThread, { slot }⟩ with
  | ok _ s =>
    rw [hresult] at hrun
    exact hallows.trans hrun (Run.traced_moves hallows inst.config s Thread.close)
  | error stop s =>
    rw [hresult] at hrun
    simp only
    split
    · exact hrun
    · rename_i e _
      have htrapped := Run.traced_moves hallows inst.config s fun t out => t.trapped e.trap e.ip out
      refine hallows.trans (hallows.trans hrun htrapped) (hallows.trans ?_ (hallows.count _ _ _))
      exact Run.traced_moves hallows inst.config _ Thread.close

/-- What a call of a function of an instance does to the store. -/
theorem Instance.call_moves (hallows : inst.Allows R) (hhost : ∀ c, Moves R (host.call invoker c))
    (fuel : Nat) (function : UInt32) (args : List UInt64) (store : Store H σ) :
    R store (inst.call host invoker fuel function args store).2 := by
  unfold Instance.call
  split
  · exact Instance.callOn_moves hallows hhost fuel function args _ store
  · split
    · exact Instance.callOn_moves hallows hhost fuel function args _ store
    · exact hallows.refl store

/-- A call that leaves a machine had one or could make it. -/
theorem Instance.hasMachine_of_call {function : UInt32} {args : List UInt64} {store : Store H σ}
    {fuel : Nat} {ended : CallEnd × Store H σ}
    (hcall : inst.call host invoker fuel function args store = ended)
    (hslot : ended.1.slot.isSome) : inst.HasMachine := by
  subst hcall
  unfold Instance.call at hslot
  split at hslot
  · rename_i slot hidle
    exact .inl (by rw [hidle, Option.isSome_some])
  · split at hslot
    · rename_i hfit
      exact .inr hfit
    · cases hslot

end

/-- A relation between stores that holds on while the machine of an instance at a place is taken,
and while one is put there that it had or could make. -/
def Store.Waits (R : Store H σ → Store H σ → Prop) : Prop :=
  ∀ ⦃inst : Instance H⦄ ⦃s t : Store H σ⦄ ⦃address : Nat⦄ (slot : Option UInt64),
    s.instances[address]? = some inst → (slot.isSome → inst.HasMachine) → R s t →
    R s (t.modifyInstance address ({ · with idle := slot }))

/-- What an invocation does to the store, if the functions of the embedder do no more than they do
in it. -/
theorem Engine.invoke_moves {R : Store H σ → Store H σ → Prop} {host : Host H σ}
    {fuel nesting : Nat} (hallows : ∀ inst : Instance H, inst.Allows R) (hwaits : Store.Waits R)
    (hhost : ∀ c, Moves R (host.call (invoke host fuel nesting) c)) (address : Nat) (name : String)
    (args : List Value) : Moves R (invoke host fuel (nesting + 1) address name args) := by
  intro store
  unfold invoke
  cases hinst : store.instances[address]? with
  | none => exact (hallows { config := default }).refl store
  | some inst =>
    simp only
    cases hprepare : inst.prepare name args with
    | error e => exact (hallows inst).refl store
    | ok call =>
      obtain ⟨function, type, words⟩ := call
      simp only
      have hbegun := hwaits none hinst (by simp)
        ((hallows inst).count store inst.config Counters.invocation)
      have hcalled := (hallows inst).trans hbegun
        (Instance.call_moves (hallows inst) hhost fuel function words _)
      generalize hended : inst.call host (invoke host fuel nesting) fuel function words _ = result
        at hcalled ⊢
      obtain ⟨⟨outcome, slot⟩, store'⟩ := result
      cases slot with
      | none => cases outcome <;> exact hcalled
      | some slot =>
        have hkept := hwaits (some slot) hinst (Instance.hasMachine_of_call hended) hcalled
        cases outcome <;> exact hkept

end IntWasm
