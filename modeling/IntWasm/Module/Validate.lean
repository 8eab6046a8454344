import IntWasm.Body.Check
import IntWasm.Module.Read

/-!
# Validation

A module that was read may still break rules that tie its parts together: indices have to exist,
limits have to be in order, constant expressions have to be constant and every body has to check.
The rules are tried in a fixed order and the first broken one is reported.
-/

namespace IntWasm

/-- Why a module is not valid. A broken rule inside a part of the module names that part. -/
structure InvalidModule where
  /-- The part of the module that the error is in, if it has no position of its own. -/
  part : Option String := none
  error : DecodeError
  deriving Repr, DecidableEq, Inhabited

/-- The text that is shown for an invalid module. -/
def InvalidModule.message (e : InvalidModule) : String :=
  match e.part with
  | none => e.error.message
  | some part => part ++ ": " ++ e.error.message

namespace Module

/-- The most pages of 64 KiB that 32-bit addresses reach. -/
def maxPages : Nat := 65536

/-- The most locals of a function, its parameters included. -/
def maxLocals : Nat := 50000

/-- The locals of a function: its parameters, each in a group of its own, then those that its body
declares. They are never spelled out, because a body can declare billions of them. -/
def localGroups (type : FuncType) (body : FuncBody) : List LocalGroup :=
  type.params.map ({ count := 1, type := · }) ++ body.locals

/-- What the imports of a module add to what its bodies see. -/
structure Imported where
  functions : Array UInt32 := #[]
  globals : Array GlobalType := #[]
  memories : Nat := 0

/-- One more import. -/
def Imported.add (s : Imported) (i : Import) : Imported :=
  match i.type with
  | .function type => { s with functions := s.functions.push type }
  | .memory _ => { s with memories := s.memories + 1 }
  | .global type => { s with globals := s.globals.push type }

/-- What the bodies of a module see, with given locals. An index behind those of the imports is that
of a definition, less the number of imports. -/
def scope (m : Module) (locals : List LocalGroup) : Scope :=
  let imported := m.importList.foldl Imported.add {}
  let types := (m.types.getD []).toArray
  let functions := (m.functions.getD []).toArray
  let globals := (m.globals.getD []).toArray
  let type? (i : UInt32) := types[i.toNat]?
  { localType := fun i => LocalGroup.typeAt locals i.toNat
    globalType := fun i =>
      if i.toNat < imported.globals.size then imported.globals[i.toNat]?
      else (globals[(i - imported.globals.size.toUInt32).toNat]?).map (·.type)
    functionType := fun i =>
      if i.toNat < imported.functions.size then (imported.functions[i.toNat]?).bind type?
      else (functions[(i - imported.functions.size.toUInt32).toNat]?).bind type?
    type := type?
    hasTable := 0 < (m.tables.getD []).length
    hasMemory := 0 < imported.memories + (m.memories.getD []).length }

/-- What a constant expression sees: the imported globals and nothing else. -/
def constScope (globals : List GlobalType) : Scope :=
  { localType := fun _ => none
    globalType := fun i => globals[i.toNat]?
    functionType := fun _ => none
    type := fun _ => none
    hasTable := false
    hasMemory := false }

/-- A broken rule of the module as a whole. -/
def invalid {α : Type} (rule : Violation) : Except InvalidModule α :=
  .error { error := .broken rule }

/-- Requires a condition. -/
def require (condition : Bool) (rule : Violation) : Except InvalidModule Unit :=
  if condition then .ok () else invalid rule

/-- Checks the entries of a list in order, telling each its index. -/
def forEachFrom {α : Type} (check : Nat → α → Except InvalidModule Unit) :
    Nat → List α → Except InvalidModule Unit
  | _, [] => .ok ()
  | i, a :: as => do
    check i a
    forEachFrom check (i + 1) as

/-- Checks the entries of a list in order, telling each its index. -/
def forEach {α : Type} (check : Nat → α → Except InvalidModule Unit) (entries : List α) :
    Except InvalidModule Unit :=
  forEachFrom check 0 entries

/-- Limits are in order and within a bound. -/
def checkLimits (what : String) (l : Limits) (bound : Nat) : Except InvalidModule Unit := do
  require (¬ (l.hasMax ∧ l.max < l.min)) (.limitsOrder what)
  require (¬ (bound < l.min.toNat ∨ l.hasMax ∧ bound < l.max.toNat)) (.limitsTooLarge what bound)

/-- Imports refer to types that exist and have limits in order. -/
def checkImports (m : Module) : Except InvalidModule Unit :=
  forEach (fun _ i =>
    match i.type with
    | .function type => require (m.type? type).isSome (.importType i.text type)
    | .memory limits => checkLimits ("import " ++ i.text) limits maxPages
    | .global _ => .ok ()) m.importList

/-- Every declared function has a type and a body. -/
def checkFunctions (m : Module) : Except InvalidModule Unit := do
  let types := m.functions.getD []
  let bodies := m.code.getD []
  require (types.length = bodies.length) (.bodyCount types.length bodies.length)
  forEach (fun i type =>
    require (m.type? type).isSome (.functionType (m.importedFunctions.length + i) type)) types

/-- There is at most one table, with limits in order. -/
def checkTables (m : Module) : Except InvalidModule Unit := do
  require (m.tableCount ≤ 1) .multipleTables
  match m.tables.getD [] with
  | [] => .ok ()
  | t :: _ => checkLimits "table" t.limits 0xffffffff

/-- There is at most one memory, with limits in order. -/
def checkMemories (m : Module) : Except InvalidModule Unit := do
  require (m.memoryCount ≤ 1) .multipleMemories
  match m.memories.getD [] with
  | [] => .ok ()
  | limits :: _ => checkLimits "memory" limits maxPages

/-- An instruction of a constant expression is a constant, the closing one, or reads an imported
global that never changes. -/
def checkConstInstruction (globals : List GlobalType) (i : Instruction) :
    Except DecodeError Unit :=
  match i.op? with
  | some (.const _) | some .close => .ok ()
  | some .globalGet =>
    match globals[i.index.toNat]? with
    | some g => if g.mutable then .error (.broken (.mutableGlobal i.index)) else .ok ()
    | none => .error (.broken .unknownGlobal)
  | _ => .error (.broken .notConstant)

/-- Checks the instructions of a constant expression in order. -/
def checkConstInstructions (globals : List GlobalType) :
    List Instruction → Except DecodeError Unit
  | [] => .ok ()
  | i :: rest => do
    checkConstInstruction globals i
    checkConstInstructions globals rest

/-- A constant expression checks as a body that gives one value of the expected type, and consists
of constant instructions. Its errors have no position, because it is not seen as a part of the
binary. -/
def checkConst (globals : List GlobalType) (expected : ValueType) (expr : List UInt8) :
    Except DecodeError Unit :=
  match Body.check (constScope globals) [expected] 0 expr with
  | .error e => .error { e with offset := none }
  | .ok body => checkConstInstructions globals body.instructions.toList

/-- Names the part of the module that an error is in. -/
def inPart (part : String) (r : Except DecodeError Unit) : Except InvalidModule Unit :=
  r.mapError fun error => { part := some part, error }

/-- The first values of globals are constants of their types. -/
def checkGlobals (m : Module) : Except InvalidModule Unit :=
  let imported := m.importedGlobals
  forEach (fun i g =>
    inPart s!"global {imported.length + i}" (checkConst imported g.type.type g.init))
    (m.globals.getD [])

/-- Element segments refer to a table and to functions that exist. -/
def checkElements (m : Module) : Except InvalidModule Unit :=
  forEach (fun i s => do
    require (s.table.toNat < m.tableCount) (.elementTable i s.table)
    inPart s!"element segment {i}" (checkConst m.importedGlobals .i32 s.offset)
    forEach (fun _ f => require (m.functionType? f).isSome (.elementFunction i f)) s.functions)
    (m.elements.getD [])

/-- Data segments refer to a memory that exists. -/
def checkData (m : Module) : Except InvalidModule Unit :=
  forEach (fun i s => do
    require (s.memory.toNat < m.memoryCount) (.dataMemory i s.memory)
    inPart s!"data segment {i}" (checkConst m.importedGlobals .i32 s.offset))
    (m.data.getD [])

/-- The start function exists, takes nothing and gives nothing. -/
def checkStart (m : Module) : Except InvalidModule Unit :=
  match m.start with
  | none => .ok ()
  | some index =>
    match m.functionType? index with
    | none => invalid (.startUnknown index)
    | some type => require (type.params.isEmpty && type.results.isEmpty) (.startType type)

/-- Whether the entry that an export names exists. Of a kind that is not known, every one does. -/
def exportExists (m : Module) (e : Export) : Bool :=
  if e.kind = .function then (m.functionType? e.index).isSome
  else if e.kind = .table then e.index.toNat < m.tableCount
  else if e.kind = .memory then e.index.toNat < m.memoryCount
  else if e.kind = .global then
    e.index.toNat < m.importedGlobals.length + (m.globals.getD []).length
  else true

/-- Checks exports after those whose names are `seen`. -/
def checkExportsFrom (m : Module) : List String → List Export → Except InvalidModule Unit
  | _, [] => .ok ()
  | seen, e :: rest => do
    require (¬ seen.contains e.name) (.duplicateExport e.name)
    require (m.exportExists e) (.exportUnknown e.name e.kind e.index)
    checkExportsFrom m (e.name :: seen) rest

/-- Exports have different names and exist. -/
def checkExports (m : Module) : Except InvalidModule Unit :=
  checkExportsFrom m [] (m.exports.getD [])

/-- A body does not declare too many locals and checks against its type. -/
def checkBody (m : Module) (function : Nat) (type : FuncType) (body : FuncBody) :
    Except InvalidModule Unit := do
  let locals := localGroups type body
  let count := LocalGroup.total locals
  if maxLocals < count then
    throw { error :=
      { DecodeError.broken (.tooManyLocals function count) with offset := some body.offset } }
  match Body.check (m.scope locals) type.results body.offset body.code with
  | .ok _ => .ok ()
  | .error error => .error { error }

/-- Every body checks. -/
def checkCode (m : Module) : Except InvalidModule Unit :=
  -- There are as many bodies as types, which was checked before.
  forEach (fun i (index, body) =>
    m.checkBody (m.importedFunctions.length + i) ((m.type? index).getD {}) body)
    ((m.functions.getD []).zip (m.code.getD []))

/-- Checks all rules in order. -/
def validate (m : Module) : Except InvalidModule Unit := do
  m.checkImports
  m.checkFunctions
  m.checkTables
  m.checkMemories
  m.checkGlobals
  m.checkElements
  m.checkData
  m.checkStart
  m.checkExports
  m.checkCode

/-- Decodes and validates a module. -/
def load (bytes : List UInt8) (ending : Ending) : Except InvalidModule Module :=
  match decode bytes ending with
  | .error error => .error { error }
  | .ok m =>
    match m.validate with
    | .error e => .error e
    | .ok _ => .ok m

end Module

end IntWasm
