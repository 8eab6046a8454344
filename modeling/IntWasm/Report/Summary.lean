import IntWasm.Report.FunctionNames
import IntWasm.Text.Quoted

/-!
# Summaries of modules

A summary tells section by section what a module holds. A section that is absent breaks the summary
off at the place where its entries would stand; what was told before is kept.
-/

namespace IntWasm

/-- The size of a table or memory in a summary. -/
def Limits.rangeText (l : Limits) : String :=
  toString l.min.toNat ++ ".." ++ (l.max?.map fun max => toString max.toNat).getD ""

/-- The type of an import in a summary. -/
def ImportType.summaryText (types : List FuncType) : ImportType → String
  | function index =>
    match types[index.toNat]? with
    | some type => type.text
    | none => "(func (type " ++ toString index.toNat ++ "))"
  | memory limits => "(memory " ++ limits.rangeText ++ ")"
  | global type => "(global " ++ type.text ++ ")"

/-- A text that is told piece by piece and may break off. -/
abbrev Telling := EStateM Crash String

namespace Telling

/-- Tells a piece of text. -/
def say (piece : String) : Telling Unit := modify (· ++ piece)

/-- The entries of a section that has to be there. -/
def entries {α : Type} (list : Option (List α)) : Telling (List α) :=
  match list with
  | some list => pure list
  | none => throw .missing

/-- Tells a piece for every entry, with the index of the entry from `i` on. -/
def sayEach {α : Type} (piece : Nat → α → Telling Unit) : Nat → List α → Telling Unit
  | _, [] => pure ()
  | i, a :: rest => do
    piece i a
    sayEach piece (i + 1) rest

end Telling

namespace Module

open Telling

/-- Tells the types. -/
def tellTypes (m : Module) : Telling Unit := do
  say "types:\n"
  sayEach (fun i type => say s!"  {i}: {type.text}\n") 0 (← entries m.types)

/-- Tells the imports. -/
def tellImports (m : Module) : Telling Unit := do
  say "imports:\n"
  sayEach
    (fun _ i =>
      say ("  " ++ i.text ++ ": " ++ i.type.kind.text ++ " " ++ i.type.summaryText (m.types.getD [])
        ++ "\n"))
    0 (← entries m.imports)

/-- Tells a function of the module's own. -/
def tellFunction (m : Module) (names : FunctionNames) (imported i : Nat) : Telling Unit := do
  let index := UInt32.ofNat (imported + i)
  say ("  " ++ toString index.toNat ++ ": " ++ ((m.functionType? index).getD default).text)
  say (((names index).map fun name => " $" ++ name).getD "")
  match (← entries m.code)[i]? with
  | some body => say s!" ({body.code.length} bytes)\n"
  | none => throw (.index i (m.code.getD []).length)

/-- Tells the functions of the module's own. -/
def tellFunctions (m : Module) (names : FunctionNames) : Telling Unit := do
  say "functions:\n"
  sayEach (fun i _ => m.tellFunction names m.importedFunctions.length i) 0 (← entries m.functions)

/-- Tells the tables. -/
def tellTables (m : Module) : Telling Unit := do
  sayEach
    (fun _ t => do
      let count := (← entries m.elements).length
      say s!"table: {t.elem.text} {t.limits.rangeText}, {count} element segments\n")
    0 (← entries m.tables)

/-- Tells the memories. -/
def tellMemories (m : Module) : Telling Unit := do
  sayEach
    (fun _ limits => do
      let count := (← entries m.data).length
      say s!"memory: {limits.rangeText} pages, {count} data segments\n")
    0 (← entries m.memories)

/-- Tells the globals, if there are any. -/
def tellGlobals (m : Module) : Telling Unit := do
  let globals ← entries m.globals
  if !globals.isEmpty then say "globals:\n"
  sayEach (fun i g => say s!"  {i}: {g.type.text}\n") 0 globals

/-- Tells the exports. -/
def tellExports (m : Module) : Telling Unit := do
  say "exports:\n"
  sayEach
    (fun _ e =>
      say ("  " ++ Text.quote e.name ++ ": " ++ e.kind.text ++ " " ++ toString e.index.toNat
        ++ "\n"))
    0 (← entries m.exports)

/-- Tells what a module holds. -/
def summary (m : Module) (names : FunctionNames) : Telling Unit := do
  m.tellTypes
  m.tellImports
  m.tellFunctions names
  m.tellTables
  m.tellMemories
  m.tellGlobals
  m.tellExports
  match m.start with
  | some index => say s!"start: {index}\n"
  | none => pure ()

end Module

end IntWasm
