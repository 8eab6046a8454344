import IntWasm.Module.Names
import IntWasm.TrapError

/-!
# The names of functions in reports

A function is known by the name that the module records for it. An imported function without a
recorded name is known by the field that it is imported from.
-/

namespace IntWasm

/-- A name for some functions. -/
abbrev FunctionNames := UInt32 → Option String

namespace Module

/-- The fields of the imported functions in order. -/
def importedFunctionFields (imports : List Import) : List String :=
  imports.filterMap fun i => (functionImport? i).map fun _ => i.field

/-- The name that a module records for a function. -/
def recordedName? (m : Module) (index : UInt32) : Option String :=
  match m.names with
  | .error _ => none
  | .ok section_ => section_.functionNamings?.bind fun names => NameSection.nameIn? names index

/-- The names of the functions of a module. The imports have to be there, if only as an empty
section. -/
def functionNames (m : Module) : Except Crash FunctionNames :=
  match m.imports with
  | none => .error .missing
  | some imports =>
    let fields := (importedFunctionFields imports).toArray
    .ok fun index => m.recordedName? index <|> fields[index.toNat]?

end Module

end IntWasm
