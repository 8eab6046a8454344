import IntWasm.Body.Check
import IntWasm.Config.Basic
import IntWasm.Counters
import IntWasm.Module.Basic
import IntWasm.Table
import IntWasm.TrapError
import IntWasm.Value

/-!
# The store

Everything that outlives an invocation is kept in a store and known by its place there: memories
and their allocators, globals, instances and traces. Functions of the embedder are described by
values of a type `H`, and the embedder's own state is a value of a type `σ`.
-/

namespace IntWasm

/-- A function of a module, ready to run. -/
structure Function where
  /-- Its place in the index space of functions. -/
  index : UInt32
  type : FuncType
  /-- The number of its locals, parameters included. -/
  locals : Nat
  body : Body
  deriving Repr, DecidableEq, Inhabited

/-- A function of the embedder. -/
structure HostFunction (H : Type) where
  type : FuncType
  code : H

/-- A function of the embedder under the name that it was imported by. -/
structure ImportedFunction (H : Type) extends HostFunction H where
  moduleName : String
  name : String

/-- A module that was instantiated. -/
structure Instance (H : Type) where
  name : String := ""
  config : Config
  types : Array FuncType := #[]
  imports : Array (ImportedFunction H) := #[]
  functions : Array Function := #[]
  /-- The places of the globals in the store. -/
  globals : Array Nat := #[]
  table : Option Table := none
  /-- The place of the memory in the store. -/
  memory : Option Nat := none
  ownsMemory : Bool := false
  exports : List Export := []
  /-- What is in the result slot of the machine that waits for the next invocation, if there is
  one. -/
  idle : Option UInt64 := none
  closed : Bool := false

namespace Instance

variable {H : Type}

/-- The export of a given name; of several the last one counts. -/
def export? (inst : Instance H) (name : String) : Option Export :=
  inst.exports.reverse.find? (·.name = name)

/-- The export of a given name and kind. -/
def require (inst : Instance H) (name : String) (kind : ExternKind) : Except Refusal Export :=
  match inst.export? name with
  | some e => if e.kind = kind then .ok e else .error (.exportMissing name kind)
  | none => .error (.exportMissing name kind)

/-- The signature of the function with a given index. -/
def signature? (inst : Instance H) (function : UInt32) : Option FuncType :=
  match inst.imports[function.toNat]? with
  | some f => some f.type
  | none => (inst.functions[function.toNat - inst.imports.size]?).map (·.type)

/-- The breakdown that looking up a function that does not exist gives. -/
def unknownFunction (inst : Instance H) (function : UInt32) : Crash :=
  .index (function.toNat - inst.imports.size) inst.functions.size

end Instance

/-- All that outlives an invocation. -/
structure Store (H σ : Type) where
  memories : Array Memory := #[]
  allocators : Array Allocator := #[]
  globals : Array Global := #[]
  instances : Array (Instance H) := #[]
  traces : Array Sink := #[]
  counters : Counters := {}
  /-- The embedder's own state. -/
  host : σ

namespace Store

variable {H σ : Type}

/-- A store with one more memory, and its place. -/
def addMemory (s : Store H σ) (m : Memory) : Nat × Store H σ :=
  (s.memories.size, { s with memories := s.memories.push m })

/-- A store with one more allocator, and its place. -/
def addAllocator (s : Store H σ) (a : Allocator) : Nat × Store H σ :=
  (s.allocators.size, { s with allocators := s.allocators.push a })

/-- A store with one more global, and its place. -/
def addGlobal (s : Store H σ) (g : Global) : Nat × Store H σ :=
  (s.globals.size, { s with globals := s.globals.push g })

/-- A store with one more instance, and its place. -/
def addInstance (s : Store H σ) (i : Instance H) : Nat × Store H σ :=
  (s.instances.size, { s with instances := s.instances.push i })

/-- A store with one more trace, and its place. -/
def addTrace (s : Store H σ) (t : Sink) : Nat × Store H σ :=
  (s.traces.size, { s with traces := s.traces.push t })

/-- Changes a memory. -/
def modifyMemory (s : Store H σ) (address : Nat) (f : Memory → Memory) : Store H σ :=
  { s with memories := s.memories.modify address f }

/-- Changes an instance. -/
def modifyInstance (s : Store H σ) (address : Nat) (f : Instance H → Instance H) : Store H σ :=
  { s with instances := s.instances.modify address f }

/-- Counts something, if the configuration asks for it. -/
def count (s : Store H σ) (config : Config) (f : Counters → Counters) : Store H σ :=
  if config.counted then { s with counters := f s.counters } else s

/-- Makes a memory with a given allocator of the store. -/
def newMemory (limits : Limits) (allocator : Nat) (cap : UInt32) :
    EStateM AllocationFault (Store H σ) Nat := fun s =>
  match Memory.new limits allocator cap (s.allocators[allocator]?.getD {}) with
  | .ok m a =>
    let (address, s) := s.addMemory m
    .ok address { s with allocators := s.allocators.setIfInBounds allocator a }
  | .error e a => .error e { s with allocators := s.allocators.setIfInBounds allocator a }

/-- Adds pages to a memory of the store and gives its size before. -/
def growMemory (address : Nat) (pages : UInt32) : EStateM MemoryFault (Store H σ) UInt32 := fun s =>
  let m := s.memories[address]?.getD default
  match m.grow pages (s.allocators[m.allocator]?.getD {}) with
  | .ok grown a =>
    .ok m.size
      { s with
        memories := s.memories.setIfInBounds address grown
        allocators := s.allocators.setIfInBounds m.allocator a }
  | .error e a => .error e { s with allocators := s.allocators.setIfInBounds m.allocator a }

/-- Gives the bytes of a memory back to its allocator. -/
def freeMemory (address : Nat) (s : Store H σ) : Store H σ :=
  let m := s.memories[address]?.getD default
  let (freed, a) := m.free (s.allocators[m.allocator]?.getD {})
  { s with
    memories := s.memories.setIfInBounds address freed
    allocators := s.allocators.setIfInBounds m.allocator a }

end Store

end IntWasm
