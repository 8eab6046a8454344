import IntWasm.Command.Basic

/-!
# Validating a module

The command loads one module and says how many types, imports, functions and exports it has. All
four sections have to be there for that.
-/

namespace IntWasm.Command

/-- What is printed for a valid module. -/
def verdict (path : String) (m : Module) : Except Crash String :=
  match m.types, m.imports, m.functions, m.exports with
  | some types, some imports, some functions, some exports =>
    .ok (path ++ s!": ok ({types.length} types, {imports.length} imports, "
      ++ s!"{functions.length} functions, {exports.length} exports)\n")
  | _, _, _, _ => .error .missing

/-- Validates the module whose path is the only argument. -/
def validate (files : Files) (args : List String) : Report :=
  match args with
  | [path] =>
    match loadModule files (path ++ ": ") path with
    | .error e => .failed e
    | .ok m =>
      match verdict path m with
      | .error crash => .failed (.crashed crash)
      | .ok text => { output := Text.utf8 text }
  | _ => .failed (.text "expected exactly one argument")

end IntWasm.Command
