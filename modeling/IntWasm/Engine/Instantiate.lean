import IntWasm.Engine.Invoke
import IntWasm.Engine.Link
import IntWasm.Module.Names
import IntWasm.Module.Validate

/-!
# Instantiating modules

An instance is built in a fixed order: bodies, imports, globals, memory and table, segments,
exports, and last the start function. No segment is written before all of them are known to fit. If
a step fails, the memory that was taken so far is given back and no instance comes into being. Only
a breakdown leaves things as they are.
-/

namespace IntWasm

variable {H σ : Type}

/-- Where the definitions of imports come from. Memories and globals are known by their places in
the store. -/
structure Resolver (H σ : Type) where
  function : Store H σ → String → String → FuncType → Except ImportFault (HostFunction H)
  memory : Store H σ → String → String → Limits → Except ImportFault Nat
  global : Store H σ → String → String → GlobalType → Except ImportFault Nat

/-! ## Bodies -/

namespace Module

/-- A function with its checked body. -/
def compileFunction (m : Module) (imported i : Nat) (typeIndex : UInt32) (code : FuncBody) :
    Except InstantiateError Function :=
  match m.type? typeIndex with
  | none => .error (.functionType i typeIndex)
  | some type =>
    let locals := localGroups type code
    match Body.check (m.scope locals) type.results code.offset code.code with
    | .error e => .error (.body (imported + i) e)
    | .ok body =>
      .ok { index := UInt32.ofNat (imported + i), type, locals := LocalGroup.total locals, body }

/-- The functions for given types and bodies, from the index `i` on. -/
def compileFrom (m : Module) (imported : Nat) :
    Nat → List (UInt32 × FuncBody) → Except InstantiateError (List Function)
  | _, [] => .ok []
  | i, (typeIndex, code) :: rest => do
    let fn ← m.compileFunction imported i typeIndex code
    let fns ← m.compileFrom imported (i + 1) rest
    return fn :: fns

/-- All functions of a module with their checked bodies. -/
def compile (m : Module) : Except InstantiateError (List Function) :=
  let bodies := m.code.getD []
  let types := m.functions.getD []
  if bodies.isEmpty then .ok []
  else if types.length ≠ bodies.length then .error .bodyCount
  else m.compileFrom m.importedFunctions.length 0 (types.zip bodies)

/-- The name that a module gives itself, or the empty one. -/
def ownName (m : Module) : String :=
  match m.names with
  | .error _ => ""
  | .ok names =>
    (names.entries.findSome? fun
      | .module name => some name
      | _ => none).getD ""

end Module

/-! ## Linking -/

/-- A store and the instance that is being built in it. -/
structure Linking (H σ : Type) where
  store : Store H σ
  inst : Instance H

/-- A step of building an instance. -/
abbrev Link (H σ : Type) := EStateM InstantiateError (Linking H σ)

namespace Link

/-- Changes the instance that is being built. -/
def modifyInstance (f : Instance H → Instance H) : Link H σ Unit :=
  modify fun l => { l with inst := f l.inst }

/-- A step that does not look at the store. -/
def lift {α : Type} (r : Except InstantiateError α) : Link H σ α :=
  match r with
  | .ok a => pure a
  | .error e => throw e

/-- Fails because of an import. -/
def failImport {α : Type} (i : Import) (cause : LinkError.Cause) : Link H σ α :=
  throw (.link { moduleName := i.moduleName, field := i.field, cause })

/-- A definition that a resolver has found. -/
def found {α : Type} (i : Import) (r : Except ImportFault α) : Link H σ α :=
  match r with
  | .ok a => pure a
  | .error fault => failImport i (.unresolved fault)

/-- Resolves an import of a function. -/
def importFunction (r : Resolver H σ) (i : Import) (index : UInt32) : Link H σ Unit := do
  match (← get).inst.types[index.toNat]? with
  | none => failImport i (.typeIndex index)
  | some type =>
    let f ← found i (r.function (← get).store i.moduleName i.field type)
    if f.type ≠ type then failImport i (.signature f.type type)
    let f : ImportedFunction H := { f with moduleName := i.moduleName, name := i.field }
    modifyInstance fun inst => { inst with imports := inst.imports.push f }

/-- Resolves an import of a memory, which no other instance may use. -/
def importMemory (r : Resolver H σ) (i : Import) (limits : Limits) : Link H σ Unit := do
  let address ← found i (r.memory (← get).store i.moduleName i.field limits)
  let m := (← get).store.memories[address]?.getD default
  if ¬ m.satisfies limits then failImport i .unsuitable
  if m.attached then failImport i .memoryInUse
  modify fun l =>
    { l with store := l.store.modifyMemory address ({ · with attached := true }) }
  modifyInstance ({ · with memory := some address })

/-- Resolves an import of a global. -/
def importGlobal (r : Resolver H σ) (i : Import) (type : GlobalType) : Link H σ Unit := do
  let address ← found i (r.global (← get).store i.moduleName i.field type)
  match (← get).store.globals[address]? with
  | none => failImport i .unsuitable
  | some g =>
    if g.type ≠ type then failImport i .unsuitable
    modifyInstance fun inst => { inst with globals := inst.globals.push address }

/-- Resolves an import. -/
def importEntry (resolver : Option (Resolver H σ)) (i : Import) : Link H σ Unit :=
  match resolver with
  | none => failImport i .noResolver
  | some r =>
    match i.type with
    | .function index => importFunction r i index
    | .memory limits => importMemory r i limits
    | .global type => importGlobal r i type

/-- Runs a step for every entry of a list, telling it the index from `i` on. -/
def forEachFrom {α : Type} (step : Nat → α → Link H σ Unit) : Nat → List α → Link H σ Unit
  | _, [] => pure ()
  | i, a :: rest => do
    step i a
    forEachFrom step (i + 1) rest

/-- The values of the globals of the instance so far. -/
def globalValues : Link H σ (List Value) := do
  let l ← get
  return l.inst.globals.toList.filterMap fun address => (l.store.globals[address]?).map (·.value)

/-- Makes a global of the module's own; its first value may depend on imported globals only. -/
def defineGlobal (imported : List Value) (i : Nat) (g : GlobalDef) : Link H σ Unit := do
  match ConstExpr.eval imported g.init with
  | .error fault => throw (.global (imported.length + i) fault)
  | .ok v =>
    if v.type ≠ g.type.type then
      throw (.globalType (imported.length + i) v.type g.type.type)
    modify fun l =>
      let (address, store) := l.store.addGlobal (.new g.type v)
      { store, inst := { l.inst with globals := l.inst.globals.push address } }

/-- Makes the memory that the module declares. -/
def allocateMemory (allocator : Nat) (limits : Limits) : Link H σ Unit := fun l =>
  match l with
  | ⟨store, inst⟩ =>
    match Store.newMemory limits allocator inst.config.maxMemoryPages store with
    | .ok address store => .ok () ⟨store, { inst with memory := some address, ownsMemory := true }⟩
    | .error fault store => .error (.link { cause := .allocation fault }) ⟨store, inst⟩

/-- Makes the table that the module declares. Without a maximum it is bounded by its indices only.
-/
def allocateTable (limits : Limits) : Link H σ Unit :=
  modifyInstance ({ · with table := some (.new limits.min (limits.max?.getD 0xffffffff)) })

/-- The offset of a segment. -/
def offset (globals : List Value) (expr : List UInt8) : Except OffsetFault Nat :=
  match ConstExpr.eval globals expr with
  | .error fault => .error (.expr fault)
  | .ok v => if v.type = .i32 then .ok v.bits.toUInt32.toNat else .error (.type v.type)

/-- The offsets of element segments, all of which have to fit into the table. -/
def elementOffsets (globals : List Value) (table : Option Table) :
    Nat → List ElementSegment → Except InstantiateError (List Nat)
  | _, [] => .ok []
  | i, s :: rest => do
    let start ← (offset globals s.offset).mapError (.element i)
    let size := match table with
      | none => none
      | some t => some t.size
    if size.all (· < start + s.functions.length) then
      throw (.link { cause := .elementSegment i })
    let starts ← elementOffsets globals table (i + 1) rest
    return start :: starts

/-- The offsets of data segments, all of which have to fit into the memory. -/
def dataOffsets (globals : List Value) (size : Option Nat) :
    Nat → List DataSegment → Except InstantiateError (List Nat)
  | _, [] => .ok []
  | i, s :: rest => do
    let start ← (offset globals s.offset).mapError (.data i)
    if size.all (· < start + s.bytes.length) then
      throw (.link { cause := .dataSegment i })
    let starts ← dataOffsets globals size (i + 1) rest
    return start :: starts

/-- A table with functions placed into it from a slot on. -/
def fillTable (table : Table) (start : Nat) : List UInt32 → Table
  | [] => table
  | f :: rest =>
    fillTable ((table.set? (UInt32.ofNat start) f).getD table) (start + 1) rest

/-- Places all segments. -/
def placeSegments (m : Module) : Link H σ Unit := do
  let globals ← globalValues
  let l ← get
  let size := do
    let memory ← l.store.memories[← l.inst.memory]?
    return memory.bytes.size
  let elements := m.elements.getD []
  let data := m.data.getD []
  -- All offsets come first: no segment is placed unless every one fits.
  let elementStarts ← lift (elementOffsets globals l.inst.table 0 elements)
  let dataStarts ← lift (dataOffsets globals size 0 data)
  modifyInstance fun inst =>
    { inst with
      table := inst.table.map fun table =>
        (elements.zip elementStarts).foldl (fun t (s, start) => fillTable t start s.functions)
          table }
  match l.inst.memory with
  | none => pure ()
  | some address =>
    modify fun l =>
      { l with
        store := l.store.modifyMemory address fun memory =>
          { memory with
            bytes := (data.zip dataStarts).foldl
              (fun bytes (s, start) => setBytes bytes start s.bytes) memory.bytes } }

/-- Runs the start function. -/
def start (host : Host H σ) (invoker : Invoker H σ) (fuel : Nat) (function : UInt32) :
    Link H σ Unit := fun l =>
  match l with
  | ⟨store, inst⟩ =>
    let (ended, store) := inst.call host invoker fuel function [] store
    match ended.outcome with
    | .ok _ => .ok () ⟨store, { inst with idle := ended.slot }⟩
    | .error (.trapped e) => .error (.link { cause := .start e }) ⟨store, inst⟩
    | .error (.crashed c) => .error (.crashed c) ⟨store, inst⟩
    -- The start function was found before, so nothing is refused here.
    | .error (.refused _) => .error (.crashed .missing) ⟨store, inst⟩

/-- Builds an instance. -/
def build (host : Host H σ) (invoker : Invoker H σ) (fuel : Nat) (m : Module)
    (resolver : Option (Resolver H σ)) (allocator : Nat) : Link H σ Unit := do
  let functions ← lift m.compile
  modifyInstance fun inst =>
    { inst with
      name := m.ownName
      types := (m.types.getD []).toArray
      functions := functions.toArray }
  forEachFrom (fun _ i => importEntry resolver i) 0 m.importList
  let imported ← globalValues
  forEachFrom (defineGlobal imported) 0 (m.globals.getD [])
  match m.memories.getD [] with
  | [] => pure ()
  | limits :: _ => allocateMemory allocator limits
  match m.tables.getD [] with
  | [] => pure ()
  | t :: _ => allocateTable t.limits
  placeSegments m
  modifyInstance ({ · with exports := m.exports.getD [] })
  match m.start with
  | none => pure ()
  | some function => start host invoker fuel function

end Link

namespace Engine

/-- The place of the allocator of a checked configuration; one of its own is added to the store. -/
def placeAllocator (config : Config) (store : Store H σ) : Nat × Store H σ :=
  match config.allocator with
  | some (.shared address) => (address, store)
  | some (.fresh a) => store.addAllocator a
  -- A checked configuration has an allocator.
  | none => store.addAllocator {}

/-- Instantiates a module and gives the place of the instance. -/
def instantiate (host : Host H σ) (fuel nesting : Nat) (m : Module)
    (resolver : Option (Resolver H σ)) (config : Config) :
    EStateM InstantiateError (Store H σ) Nat := fun store =>
  match config.check with
  | .error fault => .error (.config fault) store
  | .ok config =>
    let (allocator, store) := placeAllocator config store
    match Link.build host (invoke host fuel nesting) fuel m resolver allocator
        ⟨store, { config }⟩ with
    | .ok _ l =>
      let (address, store) := l.store.addInstance l.inst
      .ok address (store.count config (Counters.instantiation "ok"))
    | .error (.crashed c) l => .error (.crashed c) l.store
    | .error e l =>
      .error e ((release l.inst l.store).count config (Counters.instantiation e.label))

end Engine

end IntWasm
