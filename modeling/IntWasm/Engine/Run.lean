import IntWasm.Engine.Step

/-!
# Running a machine

`advance` runs one instruction of the innermost activation and carries out the calls and returns
that it asks for. Calls of the embedder's functions are handed out, because such a function may
start other invocations; `runFrom` performs them through a `Host` and goes on until no activation
is left. A run that is stopped leaves the machine as it is at that moment, with the activations that
are on it.

The instance that a run belongs to is looked up once, before the run begins. If a function of the
embedder closes that instance, the run goes on with what it has looked up; only later invocations
find it closed.
-/

namespace IntWasm

/-- A call of a function of the embedder, with what the function can see of the invocation. -/
structure HostCall (H : Type) where
  code : H
  type : FuncType
  args : List UInt64
  /-- The place of the memory in the store. -/
  memory : Option Nat
  /-- The number of open functions, this one included. -/
  depth : Int
  maxDepth : Int

/-- A way to invoke an exported function of an instance at a given place. -/
abbrev Invoker (H σ : Type) :=
  Nat → String → List Value → EStateM InvokeError (Store H σ) (List Value)

/-- How a function of the embedder ends that fails. It may have written to its result slot. -/
structure HostFailure where
  fault : HostFault
  written : Option UInt64 := none
  deriving Repr, DecidableEq, Inhabited

/-- What the functions of an embedder do. A function may leave its result slot as it is. -/
structure Host (H σ : Type) where
  call : Invoker H σ → HostCall H → EStateM HostFailure (Store H σ) (Option UInt64)

/-- The state of an invocation. -/
structure State (H σ : Type) where
  store : Store H σ
  thread : Thread
  machine : Machine

/-- A computation of a machine. -/
abbrev Run (H σ : Type) := EStateM Stop (State H σ)

/-- What a machine does next. -/
inductive Progress (H : Type) where
  /-- No activation is left. -/
  | done
  | more
  /-- A function of the embedder is called. -/
  | host (call : HostCall H)

namespace Run

variable {H σ : Type}

/-- Lets the thread do something that may write to the trace of the instance. -/
def traced (config : Config) (s : State H σ) (act : Thread → Sink → Thread × Sink) : State H σ :=
  match s with
  | ⟨store, thread, machine⟩ =>
    match config.trace with
    | none => ⟨store, (act thread {}).1, machine⟩
    | some address =>
      let sink := store.traces[address]?.getD {}
      -- The output is taken out of the store while the thread writes to it, so that it has one
      -- owner.
      let store := { store with traces := store.traces.setIfInBounds address {} }
      let (thread, sink) := act thread sink
      ⟨{ store with traces := store.traces.setIfInBounds address sink }, thread, machine⟩

/-- Opens a function on the thread. -/
def openFunction (inst : Instance H) (moduleName : String) (function : UInt32) (type : FuncType) :
    Run H σ Unit := fun s =>
  if s.thread.isFull then .error (.trap .stackExhausted) s
  else .ok () (traced inst.config s (·.opened moduleName function type))

/-- Closes the innermost function on the thread. -/
def closeFunction (inst : Instance H) : Run H σ Unit :=
  modify fun s => traced inst.config s Thread.leave

/-- Enters a function of the instance. -/
def enterFunction (inst : Instance H) (fn : Function) : Run H σ Unit := do
  let admitted := (← get).machine.admits inst.config fn
  if ¬ admitted then throw (.trap .stackExhausted)
  openFunction inst inst.name fn.index fn.type
  modify fun s => { s with machine := s.machine.enter inst.config fn }

/-- Begins a call of a function of the embedder. -/
def beginHostCall (inst : Instance H) (function : UInt32) (f : ImportedFunction H) :
    Run H σ (HostCall H) := do
  openFunction inst f.moduleName function f.type
  fun s =>
    let count := f.type.params.length
    let operands := s.machine.operands
    if operands.length < count ∨ 1 < f.type.results.length then .error .outOfRange s
    else
      .ok
        { code := f.code, type := f.type, args := (operands.take count).reverse
          memory := s.thread.memory, depth := s.thread.depth, maxDepth := s.thread.maxDepth }
        s

/-- Calls the function with a given index. -/
def call (inst : Instance H) (function : UInt32) : Run H σ (Progress H) :=
  match inst.imports[function.toNat]? with
  | some f => do return .host (← beginHostCall inst function f)
  | none =>
    match inst.functions[function.toNat - inst.imports.size]? with
    | some fn => do
      enterFunction inst fn
      return .more
    | none => throw .outOfRange

/-- Performs a call of a function of the embedder. -/
def performHostCall (host : Host H σ) (invoker : Invoker H σ) (inst : Instance H)
    (c : HostCall H) : Run H σ Unit := fun s =>
  match s with
  | ⟨store, thread, machine⟩ =>
    match host.call invoker c store with
    -- A call that fails is not left on the thread: the trap closes all functions at once.
    | .error failure store =>
      .error (.host failure.fault.toTrapError)
        ⟨store, thread, machine.keepWritten c.type failure.written⟩
    | .ok written store =>
      match traced inst.config ⟨store, thread, machine⟩ Thread.leave with
      | ⟨store, thread, machine⟩ =>
        match machine.finishHostCall inst.config c.type written with
        | .ok machine => .ok () ⟨store, thread, machine⟩
        | .error stop => .error stop ⟨store, thread, machine.keepWritten c.type written⟩

/-- Carries out what the instruction of the innermost activation asks for. -/
def follow (inst : Instance H) (next : Next) : Run H σ (Progress H) :=
  match next with
  | .go f => do
    modify fun s => { s with machine := s.machine.resume f }
    return .more
  | .leave results => do
    modify fun s => { s with machine := s.machine.leave results }
    closeFunction inst
    return .more
  | .call f function => do
    modify fun s => { s with machine := s.machine.resume f }
    call inst function

/-- Runs one instruction of the innermost activation, which moves on to the next one before. -/
def advance (inst : Instance H) : Run H σ (Progress H) := fun s =>
  match s with
  | ⟨store, thread, ⟨[], outer, slot⟩⟩ => .ok .done ⟨store, thread, ⟨[], outer, slot⟩⟩
  | ⟨store, thread, ⟨f :: callers, outer, slot⟩⟩ =>
    match f.function.body.instructions[f.ip]? with
    | none => .error .outOfRange ⟨store, thread, ⟨f :: callers, outer, slot⟩⟩
    | some i =>
      match traced inst.config ⟨store, thread, ⟨f :: callers, outer, slot⟩⟩
          (·.instruction f.ip i f.operands.length) with
      | ⟨store, thread, machine⟩ =>
        -- The place of a stop is read off the machine later, so the advanced activation stays on
        -- it.
        let machine := machine.resume { f with ip := f.ip + 1 }
        match Activation.step inst { f with ip := f.ip + 1 } i store with
        | .error stop store => .error stop ⟨store, thread, machine⟩
        | .ok next store => follow inst next ⟨store, thread, machine⟩

/-- Runs a machine to its end, with at most `fuel` instructions and calls of the embedder. -/
def runFrom (host : Host H σ) (invoker : Invoker H σ) (inst : Instance H) :
    Nat → Progress H → Run H σ Unit
  | _, .done => pure ()
  | 0, _ => throw (.crash .outOfFuel)
  | fuel + 1, .host c => do
    performHostCall host invoker inst c
    runFrom host invoker inst fuel .more
  | fuel + 1, .more => do
    let next ← advance inst
    runFrom host invoker inst fuel next

end Run

end IntWasm
