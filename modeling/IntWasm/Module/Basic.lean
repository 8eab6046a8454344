import IntWasm.Types

/-!
# Modules

A module is its sections as they stand in a binary. A section may be absent, which is not the same
as present and empty. Imported functions, memories and globals come before the module's own in their
index spaces; the functions at the end of this file follow that numbering.
-/

namespace IntWasm

/-- The type of an imported definition. Tables cannot be imported. -/
inductive ImportType where
  /-- A function whose signature has the given index among the types. -/
  | function (type : UInt32)
  | memory (limits : Limits)
  | global (type : GlobalType)
  deriving Repr, DecidableEq, Inhabited

/-- The kind of an imported definition. -/
def ImportType.kind : ImportType → ExternKind
  | function _ => .function
  | memory _ => .memory
  | global _ => .global

/-- One import. -/
structure Import where
  moduleName : String
  field : String
  type : ImportType
  deriving Repr, DecidableEq, Inhabited

/-- The name of an import: that of its module and that of its field. -/
def Import.text (i : Import) : String := i.moduleName ++ "." ++ i.field

/-- A global of the module's own with the bytes of the expression that gives its first value. -/
structure GlobalDef where
  type : GlobalType
  init : List UInt8
  deriving Repr, DecidableEq, Inhabited

/-- One export: a name for an entry of an index space. -/
structure Export where
  name : String
  kind : ExternKind
  index : UInt32
  deriving Repr, DecidableEq, Inhabited

/-- Functions to be placed into a table from a computed offset on. -/
structure ElementSegment where
  table : UInt32
  offset : List UInt8
  functions : List UInt32
  deriving Repr, DecidableEq, Inhabited

/-- Bytes to be placed into a memory from a computed offset on. -/
structure DataSegment where
  memory : UInt32
  offset : List UInt8
  bytes : List UInt8
  deriving Repr, DecidableEq, Inhabited

/-- A number of locals of one type. -/
structure LocalGroup where
  count : UInt32
  type : ValueType
  deriving Repr, DecidableEq, Inhabited

namespace LocalGroup

/-- The number of locals in a list of groups. -/
def total : List LocalGroup → Nat
  | [] => 0
  | g :: rest => g.count.toNat + total rest

/-- The type of the local with a given index in a list of groups. -/
def typeAt : List LocalGroup → Nat → Option ValueType
  | [], _ => none
  | g :: rest, i => if i < g.count.toNat then some g.type else typeAt rest (i - g.count.toNat)

end LocalGroup

/-- The body of a function as it stands in a binary. -/
structure FuncBody where
  locals : List LocalGroup
  code : List UInt8
  /-- Where the first byte of `code` stands in the binary. -/
  offset : Nat := 0
  deriving Repr, DecidableEq, Inhabited

/-- A named section whose contents have no meaning here. -/
structure CustomSection where
  name : String
  bytes : List UInt8
  deriving Repr, DecidableEq, Inhabited

/-- Where a section's payload lies in the binary: from `start` to before `stop`. -/
structure SectionSpan where
  id : SectionId
  start : Nat
  stop : Nat
  payload : List UInt8
  deriving Repr, DecidableEq, Inhabited

/-- A module. -/
structure Module where
  types : Option (List FuncType) := none
  imports : Option (List Import) := none
  functions : Option (List UInt32) := none
  tables : Option (List TableType) := none
  memories : Option (List Limits) := none
  globals : Option (List GlobalDef) := none
  exports : Option (List Export) := none
  start : Option UInt32 := none
  elements : Option (List ElementSegment) := none
  code : Option (List FuncBody) := none
  data : Option (List DataSegment) := none
  customs : List CustomSection := []
  /-- The sections in the order in which they were read. -/
  spans : List SectionSpan := []
  deriving Repr, DecidableEq, Inhabited

namespace Module

/-- A module in which every section but the start is present and empty. -/
def blank : Module :=
  { types := some [], imports := some [], functions := some [], tables := some []
    memories := some [], globals := some [], exports := some [], elements := some []
    code := some [], data := some [] }

/-- The imports; none if the section is absent. -/
def importList (m : Module) : List Import := m.imports.getD []

/-- The type index of an imported function. -/
def functionImport? (i : Import) : Option UInt32 :=
  match i.type with
  | .function type => some type
  | _ => none

/-- The type of an imported global. -/
def globalImport? (i : Import) : Option GlobalType :=
  match i.type with
  | .global type => some type
  | _ => none

/-- The limits of an imported memory. -/
def memoryImport? (i : Import) : Option Limits :=
  match i.type with
  | .memory limits => some limits
  | _ => none

/-- The type indices of the imported functions in order. -/
def importedFunctions (m : Module) : List UInt32 := m.importList.filterMap functionImport?

/-- The types of the imported globals in order. -/
def importedGlobals (m : Module) : List GlobalType := m.importList.filterMap globalImport?

/-- The limits of the imported memories in order. -/
def importedMemories (m : Module) : List Limits := m.importList.filterMap memoryImport?

/-- The size of the function index space. -/
def functionCount (m : Module) : Nat :=
  m.importedFunctions.length + (m.functions.getD []).length

/-- The number of tables. -/
def tableCount (m : Module) : Nat := (m.tables.getD []).length

/-- The number of memories, imported and own. -/
def memoryCount (m : Module) : Nat := m.importedMemories.length + (m.memories.getD []).length

/-- The signature with a given index among the types. -/
def type? (m : Module) (index : UInt32) : Option FuncType := (m.types.getD [])[index.toNat]?

/-- The signature of the function with a given index. -/
def functionType? (m : Module) (index : UInt32) : Option FuncType :=
  let imported := m.importedFunctions
  if index.toNat < imported.length then
    (imported[index.toNat]?).bind m.type?
  else ((m.functions.getD [])[index.toNat - imported.length]?).bind m.type?

/-- The first custom section of a given name. -/
def custom? (m : Module) (name : String) : Option CustomSection :=
  m.customs.find? (·.name = name)

/-- The first export of a given name. -/
def export? (m : Module) (name : String) : Option Export :=
  (m.exports.getD []).find? (·.name = name)

end Module

end IntWasm
