import IntWasm.Engine.Run

/-!
# Invoking exported functions

An invocation looks up an export, checks its arguments and runs the function on a new thread. A trap
ends the invocation and nothing else: it is reported with the place that the machine has got to,
noted in the trace and counted. The machine of an invocation is kept for the next one, with whatever
is in its result slot; an invocation inside another one gets a machine of its own. A machine whose
stacks are too large cannot be made, and an invocation that needs one breaks down before it begins.
-/

namespace IntWasm

variable {H σ : Type}

namespace Instance

/-- The thread of a new invocation. -/
def newThread (inst : Instance H) : Thread :=
  Thread.new inst.memory inst.config.maxCallDepth inst.config.trace.isSome

/-- The trap that a stop is reported as, with the place that the machine has got to; a breakdown is
none. -/
def trapOf (stop : Stop) (place : Option (Int × Int)) : Except Crash TrapError :=
  match stop with
  | .trap trap => .ok (TrapError.located { trap } place)
  | .host e => .ok (e.located place)
  | .outOfRange => .ok (TrapError.located { trap := .memoryOutOfBounds } place)
  | .crash c => .error c

/-- Runs a function with given arguments to its end. -/
def runFunction (host : Host H σ) (invoker : Invoker H σ) (fuel : Nat) (inst : Instance H)
    (function : UInt32) (args : List UInt64) : Run H σ Unit := do
  if inst.config.maxOperandStack < args.length then throw (.trap .stackExhausted)
  modify fun s => { s with machine.outer := args.reverse }
  let next ← Run.call inst function
  Run.runFrom host invoker inst fuel next

/-- How a call ended: with its results or not, and what is in the result slot afterwards if the
machine can be used again. -/
structure CallEnd where
  outcome : Except InvokeError (List UInt64)
  slot : Option UInt64

/-- Calls a function on a new thread with a machine that has a given word in its result slot. -/
def callOn (host : Host H σ) (invoker : Invoker H σ) (fuel : Nat) (inst : Instance H)
    (function : UInt32) (args : List UInt64) (slot : UInt64) (store : Store H σ) :
    CallEnd × Store H σ :=
  match runFunction host invoker fuel inst function args ⟨store, inst.newThread, { slot }⟩ with
  | .ok _ s =>
    let s := Run.traced inst.config s Thread.close
    (⟨.ok s.machine.operands.reverse, some s.machine.slot⟩, s.store)
  | .error stop s =>
    match trapOf stop s.machine.place? with
    | .error c => (⟨.error (.crashed c), none⟩, s.store)
    | .ok e =>
      let s := Run.traced inst.config s fun t out => t.trapped e.trap e.ip out
      let s := Run.traced inst.config s Thread.close
      (⟨.error (.trapped e), some s.machine.slot⟩,
        s.store.count inst.config (Counters.trap e.trap.text))

/-- Calls a function on the machine that is kept, if there is one, or on a new one. -/
def call (host : Host H σ) (invoker : Invoker H σ) (fuel : Nat) (inst : Instance H)
    (function : UInt32) (args : List UInt64) (store : Store H σ) : CallEnd × Store H σ :=
  match inst.idle with
  | some slot => inst.callOn host invoker fuel function args slot store
  | none =>
    if inst.config.stacksFit then inst.callOn host invoker fuel function args 0 store
    else (⟨.error (.crashed .stackSize), none⟩, store)

/-- The words of arguments, which have to be of the types of the parameters. -/
def checkArgs (name : String) (index : Nat) : List ValueType → List Value →
    Except Refusal (List UInt64)
  | t :: types, v :: values =>
    if v.type = t then do
      let words ← checkArgs name (index + 1) types values
      return v.bits :: words
    else .error (.argumentType name index v.type t)
  | _, _ => .ok []

/-- The function that an invocation calls, with its signature and the words of its arguments. -/
def prepare (inst : Instance H) (name : String) (args : List Value) :
    Except InvokeError (UInt32 × FuncType × List UInt64) := do
  if inst.closed then throw (.refused .closed)
  let e ← (inst.require name .function).mapError .refused
  match inst.signature? e.index with
  | none => throw (.crashed (inst.unknownFunction e.index))
  | some type =>
    if args.length ≠ type.params.length then
      throw (.refused (.argumentCount name type.params.length args.length))
    let words ← (checkArgs name 0 type.params args).mapError .refused
    return (e.index, type, words)

end Instance

/-- The values of given types that words stand for. -/
def resultValues (types : List ValueType) (words : List UInt64) : List Value :=
  types.zipWith Value.ofBits words

namespace Engine

/-- So many instructions, and so deep a nesting of invocations, that no run gets there. -/
def ampleFuel : Nat := 0x4000000000000000

/-- Invokes an exported function of the instance at a given place. An invocation may run `fuel`
instructions, and invocations may be nested as deep as the last number says. -/
def invoke (host : Host H σ) (fuel : Nat) : Nat → Invoker H σ
  | 0, _, _, _ => throw (.crashed .outOfFuel)
  | nesting + 1, address, name, args => fun store =>
    match store.instances[address]? with
    | none => .error (.refused .closed) store
    | some inst =>
      match inst.prepare name args with
      | .error e => .error e store
      | .ok (function, type, words) =>
        let store := store.count inst.config Counters.invocation
        -- An invocation from within finds no machine waiting and makes one of its own.
        let store := store.modifyInstance address ({ · with idle := none })
        let (ended, store) :=
          inst.call host (invoke host fuel nesting) fuel function words store
        let store := match ended.slot with
          | some slot => store.modifyInstance address ({ · with idle := some slot })
          | none => store
        match ended.outcome with
        | .ok words => .ok (resultValues type.results words) store
        | .error e => .error e store

/-- The signature of an exported function. -/
def functionType (store : Store H σ) (address : Nat) (name : String) :
    Except InvokeError FuncType := do
  match store.instances[address]? with
  | none => throw (.refused .closed)
  | some inst =>
    let e ← (inst.require name .function).mapError .refused
    match inst.signature? e.index with
    | some type => return type
    | none => throw (.crashed (inst.unknownFunction e.index))

/-- The place of an exported global. -/
def exportedGlobal (store : Store H σ) (address : Nat) (name : String) :
    Except InvokeError Nat := do
  match store.instances[address]? with
  | none => throw (.refused .closed)
  | some inst =>
    let e ← (inst.require name .global).mapError .refused
    match inst.globals[e.index.toNat]? with
    | some place => return place
    | none => throw (.crashed (.index e.index.toNat inst.globals.size))

/-- The memory of an instance. -/
def memory? (store : Store H σ) (address : Nat) : Option Memory := do
  let inst ← store.instances[address]?
  store.memories[← inst.memory]?

/-- Bytes of the memory of an instance. -/
def readMemory (store : Store H σ) (address : Nat) (offset length : UInt32) :
    Except MemoryFault (List UInt8) :=
  match memory? store address with
  | none => .error .outOfBounds
  | some m => m.read offset length

/-- Replaces bytes of the memory of an instance. -/
def writeMemory (address : Nat) (offset : UInt32) (bytes : List UInt8) :
    EStateM MemoryFault (Store H σ) Unit := fun store =>
  match (store.instances[address]?).bind (·.memory) with
  | none => .error .outOfBounds store
  | some place =>
    match (store.memories[place]?.getD default).write offset bytes with
    | .ok m => .ok () (store.modifyMemory place fun _ => m)
    | .error e => .error e store

/-- Gives the memory of an instance back, or lets go of an imported one. -/
def release (inst : Instance H) (store : Store H σ) : Store H σ :=
  match inst.memory with
  | none => store
  | some place =>
    if inst.ownsMemory then store.freeMemory place
    else store.modifyMemory place ({ · with attached := false })

/-- Closes an instance, which can be done once. -/
def close (address : Nat) : EStateM Refusal (Store H σ) Unit := fun store =>
  match store.instances[address]? with
  | none => .error .closed store
  | some inst =>
    if inst.closed then .error .closed store
    else
      .ok () ((release inst store).modifyInstance address
        ({ · with memory := none, idle := none, closed := true }))

end Engine

end IntWasm
