import IntWasm.Failure
import IntWasm.Session.Stand

/-!
# Sessions

A session is a script of steps on things that have names: modules, instances, memories, allocators
and buffers. Each step gives one answer. A step that fails leaves the session as far as it got, and
the next step goes on from there.
-/

namespace IntWasm

/-- The state of a session. -/
structure Session where
  world : Session.World := { host := {} }
  bindings : Bindings Session.Code := {}
  modules : List (String × Module) := []
  memories : List (String × Nat) := []
  allocators : List (String × Nat) := []
  buffers : List (String × Buffer) := []
  /-- The places of the traces by the names of their instances. -/
  traces : List (String × Nat) := []
  /-- How many bytes of output may wait to be read. -/
  outputLimit : Option Nat := none

namespace Session

/-- The kinds of things with names. -/
inductive Thing where
  | inst
  | memory
  | module
  | allocator
  | global
  deriving Repr, DecidableEq, Inhabited

/-- How a module is instantiated. -/
structure Launch where
  moduleName : String
  config : Except ConfigFileFault Config
  allocator : String := ""
  counted : Bool := false
  traced : Bool := false
  /-- Whether imports can be resolved at all. -/
  imports : Bool := true

/-- One step of a session. -/
inductive Step where
  | bindFunction (moduleName name : String) (type : FuncType) (b : Behavior)
  | bindGlobal (moduleName name : String) (type : GlobalType) (bits : UInt64)
  | hostGlobal (moduleName name : String) (bits : Option UInt64)
  | bindMemory (moduleName name memory : String)
  | bindServices (seed : UInt64)
  | bindSample (moduleName : String) (sample : SampleValue)
  | functionNames (moduleName : String)
  | callFunction (moduleName name : String) (type : FuncType) (args : List UInt64) (memory : String)
  | resolveMemory (moduleName name : String) (limits : Limits)
  | resolveGlobal (moduleName name : String) (type : GlobalType)
  | newAllocator (name : String) (a : Allocator)
  | usedPages (name : String)
  | allocate (name buffer : String) (pages : UInt32) (bytes : List UInt8)
  | reallocate (name buffer : String) (pages : UInt32) (bytes : List UInt8)
  | freeBuffer (name buffer : String)
  | newMemory (name : String) (limits : Limits) (allocator : String) (cap : UInt32)
  | memory (name : String)
  | freeMemory (name : String)
  | attach (name : String)
  | detach (name : String)
  | satisfies (name : String) (limits : Limits)
  | growMemory (name : String) (pages : UInt32)
  | readMemory (name : String) (offset length : UInt32)
  | writeMemory (name : String) (offset : UInt32) (bytes : List UInt8)
  | loadWord (name : String) (width : Nat) (base offset : UInt32)
  | storeWord (name : String) (width : Nat) (base offset : UInt32) (w : UInt64)
  | load (name : String) (bytes : List UInt8) (validated : Bool)
  | instantiate (name : String) (launch : Launch)
  | invoke (name function : String) (args : List Value)
  | functionType (name function : String)
  | instanceGlobal (name global : String) (bits : Option UInt64)
  | readInstance (name : String) (offset length : UInt32)
  | writeInstance (name : String) (offset : UInt32) (bytes : List UInt8)
  | instanceMemory (name : String)
  | close (name : String)
  | trace (name : String)
  | counters
  | output
  | limitOutput (limit : Option Nat)
  | log
  | advance (micros : Int)
  | slept
  | service (number : UInt32) (params : List UInt32) (memory : String)

/-- The answer to a step. -/
inductive Answer where
  | done
  | missing (what : Thing)
  | failed (e : Failure)
  | nothing
  | number (n : Int)
  | truth (b : Bool)
  | word (w : UInt64)
  | text (s : String)
  | names (list : List String)
  | bytes (list : List UInt8)
  | output (bytes : List UInt8)
  | log (lines : List (List String))
  | memory (m : Memory)
  | grown (before : UInt32) (m : Memory) (fault : Option MemoryFault)
  | buffer (b : ByteArray)
  | global (g : Global)
  | results (words : List UInt64) (type : FuncType)
  | values (list : List Value)
  | launched (name : String) (m : Option Memory)
  | trace (bytes text : List UInt8) (fault : Option PrintFault)
  | counters (c : Counters)

/-- A computation of a session. -/
abbrev Script := StateM Session

/-- Invokes exported functions of the instances of a session. -/
def invoker : Invoker Code Desk := Engine.invoke host Engine.ampleFuel Engine.ampleFuel

/-- Runs something that changes the world. -/
def inWorld {ε α : Type} (act : EStateM ε World α) : Script (Except ε α) := fun s =>
  -- The session is taken apart, so that the world is not copied while it changes.
  match s with
  | { world, bindings, modules, memories, allocators, buffers, traces, outputLimit } =>
    match act world with
    | .ok a world =>
      (.ok a, { world, bindings, modules, memories, allocators, buffers, traces, outputLimit })
    | .error e world =>
      (.error e, { world, bindings, modules, memories, allocators, buffers, traces, outputLimit })

/-- The answer to something that succeeds or fails. -/
def answer {ε α : Type} (fail : ε → Failure) (r : Except ε α) (give : α → Script Answer) :
    Script Answer :=
  match r with
  | .ok a => give a
  | .error e => return .failed (fail e)

/-- A failure of a memory. -/
def memoryFailure (fault : MemoryFault) : Failure := .cause (.memory fault)

/-- A write to a global that cannot change. -/
def immutable : Answer := .failed (.crashed .immutableGlobal)

/-! ## Things by their names -/

/-- Acts on a memory. -/
def withMemory (name : String) (act : Nat → Memory → Script Answer) : Script Answer := do
  let s ← get
  match s.memories.lookup name with
  | none => return .missing .memory
  | some address => act address (s.world.memories[address]?.getD default)

/-- Acts on an allocator. -/
def withAllocator (name : String) (act : Nat → Allocator → Script Answer) : Script Answer := do
  let s ← get
  match s.allocators.lookup name with
  | none => return .missing .allocator
  | some address => act address (s.world.allocators[address]?.getD default)

/-- Acts on an instance. -/
def withInstance (name : String) (act : Nat → Script Answer) : Script Answer := do
  match (← get).world.host.instances.lookup name with
  | none => return .missing .inst
  | some address => act address

/-- Acts on the memory of a given name, or on none if the name is empty. -/
def withOptionalMemory (name : String) (act : Option Nat → Script Answer) : Script Answer :=
  if name = "" then act none else withMemory name fun address _ => act (some address)

/-- The memory at a place. -/
def memoryAt (address : Nat) : Script Memory := do
  return (← get).world.memories[address]?.getD default

/-- Replaces the memory at a place. -/
def setMemory (address : Nat) (m : Memory) : Script Unit :=
  modify fun s => { s with world := s.world.modifyMemory address fun _ => m }

/-- Reads or writes the global at a place. -/
def useGlobal (place : Nat) (bits : Option UInt64) (give : Global → Answer) : Script Answer := do
  match (← get).world.globals[place]? with
  | none => return .missing .global
  | some g =>
    match bits with
    | none => return give g
    | some bits =>
      match g.set? bits with
      | none => return immutable
      | some g =>
        modify fun s => { s with world.globals := s.world.globals.setIfInBounds place g }
        return give g

/-! ## Allocators -/

/-- A buffer with bytes at its end, if they fit. -/
def placeAtEnd (b : ByteArray) (bytes : List UInt8) : ByteArray :=
  if bytes.isEmpty ∨ b.size < bytes.length then b else setBytes b (b.size - bytes.length) bytes

/-- Runs something that changes an allocator. -/
def inAllocator {ε α : Type} (address : Nat) (act : EStateM ε Allocator α) :
    Script (Except ε α) := do
  let put (a : Allocator) : Script Unit :=
    modify fun s => { s with world.allocators := s.world.allocators.setIfInBounds address a }
  match act ((← get).world.allocators[address]?.getD default) with
  | .ok r a =>
    put a
    return .ok r
  | .error e a =>
    put a
    return .error e

/-- The buffer of a given name; where there is none, an empty one. -/
def bufferNamed (name : String) : Script Buffer :=
  return ((← get).buffers.lookup name).getD {}

/-- Keeps a buffer that an allocator has given, with bytes at its end. -/
def keepBuffer (address : Nat) (name : String) (bytes : List UInt8)
    (act : EStateM BufferFault Allocator Buffer) : Script Answer := do
  answer (·.toFailure) (← inAllocator address act) fun b => do
    let b := { b with bytes := placeAtEnd b.bytes bytes }
    modify fun s => { s with buffers := Bindings.put name b s.buffers }
    return .buffer b.bytes

/-- Makes a memory; without the name of an allocator its pages come from the heap. -/
def makeMemory (name : String) (limits : Limits) (allocator : String) (cap : UInt32) :
    Script Answer := do
  let make (address : Nat) : Script Answer := do
    answer .allocation (← inWorld (Store.newMemory limits address cap)) fun place => do
      modify fun s => { s with memories := Bindings.put name place s.memories }
      return .memory (← memoryAt place)
  if allocator = "" then
    let s ← get
    let (address, world) := s.world.addAllocator {}
    set { s with world }
    make address
  else withAllocator allocator fun address _ => make address

/-! ## Instances -/

/-- Instantiates a module with a configuration. -/
def instantiate (name : String) (m : Module) (launch : Launch) (config : Config) :
    Script Answer := do
  let config := { config with counted := launch.counted }
  let config ←
    if launch.traced then do
      let s ← get
      let (address, world) := s.world.addTrace {}
      set { s with world, traces := Bindings.put name address s.traces }
      pure { config with trace := some address }
    else pure config
  let bindings := (← get).bindings
  let resolver := if launch.imports then some bindings.resolver else none
  let build := Engine.instantiate host Engine.ampleFuel Engine.ampleFuel m resolver config
  answer (·.toFailure) (← inWorld build)
    fun address => do
      modify fun s =>
        { s with world.host.instances := Bindings.put name address s.world.host.instances }
      let w := (← get).world
      let own := (w.instances[address]?.map (·.name)).getD ""
      return .launched own (Engine.memory? w address)

/-- Instantiates a module as asked for. -/
def launchInstance (name : String) (launch : Launch) : Script Answer := do
  match (← get).modules.lookup launch.moduleName with
  | none => return .missing .module
  | some m =>
    let start (choose : Config → Config) : Script Answer :=
      answer (·.toFailure) launch.config fun config => instantiate name m launch (choose config)
    if launch.allocator = "" then start id
    else
      withAllocator launch.allocator fun address _ =>
        start fun config => { config with allocator := some (.shared address) }

/-- The result slots of a function after a call that has written to the first of them or not. -/
def resultWords (type : FuncType) (written : Option UInt64) : List UInt64 :=
  match type.results with
  | [] => []
  | _ :: rest => written.getD 0 :: rest.map fun _ => 0

/-- Calls a bound function outside an invocation. -/
def callBound (f : HostFunction Code) (args : List UInt64) (memory : Option Nat) :
    Script Answer := do
  let thread := Thread.new memory 0 false
  let c : HostCall Code :=
    { code := f.code, type := f.type, args, memory, depth := thread.depth
      maxDepth := thread.maxDepth }
  answer (·.fault.toFailure) (← inWorld (host.call invoker c)) fun written =>
    return .results (resultWords f.type written) f.type

/-- What was traced since the last time. -/
def takeTrace (name : String) : Script Answer := do
  let s ← get
  match s.traces.lookup name with
  | none => return .nothing
  | some address =>
    let bytes := (s.world.traces[address]?.getD {}).kept.toList
    set { s with world.traces := s.world.traces.setIfInBounds address {} }
    match TracePrinter.print (fun _ => none) { rest := bytes } {} with
    | .ok _ out => return .trace bytes out.kept.toList none
    | .error e out => return .trace bytes out.kept.toList (some e)

/-- Asks the services that were bound last. -/
def askService (number : UInt32) (params : List UInt32) (memory : Option Nat) :
    Script Answer := do
  let s ← get
  let memory := memory.bind fun address => s.world.memories[address]?
  let id := s.world.host.services.size - 1
  answer (·.toFailure) (← inWorld (Action.service id (Service.perform memory number params)))
    fun n => return .number n.toInt

/-! ## Steps -/

/-- Performs a step. -/
def perform : Step → Script Answer
  | .bindFunction moduleName name type b => do
    let f : HostFunction Code := { type, code := .behavior b }
    modify fun s => { s with bindings := s.bindings.defineFunction moduleName name f }
    return .done
  | .bindGlobal moduleName name type bits => do
    modify fun s =>
      let (address, world) := s.world.addGlobal (.new type (.ofBits type.type bits))
      { s with world, bindings := s.bindings.defineGlobal moduleName name address }
    return .done
  | .hostGlobal moduleName name bits => do
    match (← get).bindings.globals.lookup (Bindings.key moduleName name) with
    | none => return .missing .global
    | some place => useGlobal place bits fun g => .text g.value.text
  | .bindMemory moduleName name memory =>
    withMemory memory fun address _ => do
      modify fun s => { s with bindings := s.bindings.defineMemory moduleName name address }
      return .done
  | .bindServices seed => do
    modify fun s =>
      let services := s.world.host.services
      { s with
        bindings := Service.bind (.service services.size) s.bindings
        world.host.services := services.push (.new s.world.host.console.now seed) }
    return .done
  | .bindSample moduleName sample => do
    let methods := sample.methods.map (·.map fun s => (s.shape, Code.sample s))
    let bound := (← get).bindings.defineMethods moduleName methods
    answer (fun e => .text e.message) bound fun bindings => do
      modify ({ · with bindings })
      return .done
  | .functionNames moduleName => do return .names ((← get).bindings.functionNames moduleName)
  | .callFunction moduleName name type args memory => do
    answer .unresolved ((← get).bindings.function moduleName name type) fun f =>
      withOptionalMemory memory fun memory => callBound f args memory
  | .resolveMemory moduleName name limits => do
    let s ← get
    answer .unresolved (s.bindings.memory s.world moduleName name limits) fun address => do
      return .memory (← memoryAt address)
  | .resolveGlobal moduleName name type => do
    let s ← get
    answer .unresolved (s.bindings.global s.world moduleName name type) fun place =>
      useGlobal place none fun g => .text g.value.text
  | .newAllocator name a => do
    modify fun s =>
      let (address, world) := s.world.addAllocator a
      { s with world, allocators := Bindings.put name address s.allocators }
    return .done
  | .usedPages name => withAllocator name fun _ a => return .number a.used
  | .allocate name buffer pages bytes =>
    withAllocator name fun address _ => keepBuffer address buffer bytes (Buffer.allocate pages)
  | .reallocate name buffer pages bytes =>
    withAllocator name fun address _ => do
      keepBuffer address buffer bytes ((← bufferNamed buffer).reallocate pages)
  | .freeBuffer name buffer =>
    withAllocator name fun address _ => do
      answer (·.toFailure) (← inAllocator address (← bufferNamed buffer).free) fun _ => do
        modify fun s => { s with buffers := s.buffers.filter (·.1 ≠ buffer) }
        return .done
  | .newMemory name limits allocator cap => makeMemory name limits allocator cap
  | .memory name => withMemory name fun _ m => return .memory m
  | .freeMemory name =>
    withMemory name fun address _ => do
      modify fun s => { s with world := s.world.freeMemory address }
      return .memory (← memoryAt address)
  | .attach name =>
    withMemory name fun address m => do
      setMemory address { m with attached := true }
      return .truth (!m.attached)
  | .detach name =>
    withMemory name fun address m => do
      setMemory address { m with attached := false }
      return .done
  | .satisfies name limits => withMemory name fun _ m => return .truth (m.satisfies limits)
  | .growMemory name pages =>
    withMemory name fun address m => do
      match ← inWorld (Store.growMemory address pages) with
      | .ok _ => return .grown m.size (← memoryAt address) none
      | .error e => return .grown m.size (← memoryAt address) (some e)
  | .readMemory name offset length =>
    withMemory name fun _ m => answer memoryFailure (m.read offset length) fun b => return .bytes b
  | .writeMemory name offset bytes =>
    withMemory name fun address m =>
      answer memoryFailure (m.write offset bytes) fun m => do
        setMemory address m
        return .done
  | .loadWord name width base offset =>
    withMemory name fun _ m => answer .raised (m.load base offset width) fun w => return .word w
  | .storeWord name width base offset w =>
    withMemory name fun address m =>
      answer .raised (m.store base offset width w) fun m => do
        setMemory address m
        return .memory m
  | .load name bytes validated =>
    let loaded : Except Failure Module :=
      if validated then (Module.load bytes .eof).mapError (·.toFailure)
      else (Module.decode bytes .eof).mapError (.decode "")
    answer id loaded fun m => do
      modify fun s => { s with modules := Bindings.put name m s.modules }
      return .done
  | .instantiate name launch => launchInstance name launch
  | .invoke name function args =>
    withInstance name fun address => do
      answer (·.toFailure) (← inWorld (invoker address function args)) fun values =>
        return .values values
  | .functionType name function =>
    withInstance name fun address => do
      answer (·.toFailure) (Engine.functionType (← get).world address function) fun type =>
        return .text type.text
  | .instanceGlobal name global bits =>
    withInstance name fun address => do
      answer (·.toFailure) (Engine.exportedGlobal (← get).world address global) fun place =>
        useGlobal place bits .global
  | .readInstance name offset length =>
    withInstance name fun address => do
      answer memoryFailure (Engine.readMemory (← get).world address offset length) fun b =>
        return .bytes b
  | .writeInstance name offset bytes =>
    withInstance name fun address => do
      answer memoryFailure (← inWorld (Engine.writeMemory address offset bytes)) fun _ =>
        return .done
  | .instanceMemory name =>
    withInstance name fun address => do
      match Engine.memory? (← get).world address with
      | some m => return .memory m
      | none => return .nothing
  | .close name =>
    withInstance name fun address => do
      answer (fun r => .cause (.refused r)) (← inWorld (Engine.close address)) fun _ =>
        return .done
  | .trace name => takeTrace name
  | .counters => do return .counters (← get).world.counters
  | .output => do
    let bytes := (← get).world.host.console.output.kept.toList
    modify fun s => { s with world.host.console.output := { room := s.outputLimit } }
    return .output bytes
  | .limitOutput limit => do
    modify fun s =>
      let waiting := s.world.host.console.output.kept.size
      { s with
        outputLimit := limit
        world.host.console.output.room := limit.map (· - waiting) }
    return .done
  | .log => do
    let lines := (← get).world.host.log.reverse
    modify fun s => { s with world.host.log := [] }
    return .log lines
  | .advance micros => do
    modify fun s => { s with world.host.console := s.world.host.console.advance micros }
    return .done
  | .slept => do return .number (← get).world.host.console.slept
  | .service number params memory =>
    withOptionalMemory memory fun memory => askService number params memory

/-- The answers to the steps of a script. -/
def run (s : Session) : List Step → List Answer
  | [] => []
  | step :: rest =>
    let (a, s) := perform step s
    a :: run s rest

end Session

end IntWasm
