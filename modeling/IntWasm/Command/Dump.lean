import IntWasm.Command.Basic
import IntWasm.Report.Statistics

/-!
# Dumping modules and traces

The command shows one of three things about a module: a trace of it with the names of its functions,
the statistics of its bodies, or else a summary.
-/

namespace IntWasm.Command

/-- What to show. A trace comes before statistics. -/
structure DumpOptions where
  /-- The path of a trace. -/
  trace : Option String := none
  statistics : Bool := false
  deriving Repr, DecidableEq, Inhabited

/-- A failure of the statistics. -/
def statisticsFailure : Statistics.Fault → Failure
  | .body error => .decode "" error
  | .crash crash => .crashed crash

/-- Shows a trace. -/
def dumpTrace (names : FunctionNames) (bytes : List UInt8) : Report :=
  match TracePrinter.print names { rest := bytes } {} with
  | .ok _ out => { output := out.kept.toList }
  | .error e out => { failure := some e.toFailure, output := out.kept.toList }

/-- Shows what is asked for about a module. -/
def dumpModule (files : Files) (options : DumpOptions) (m : Module) : Except Failure Report := do
  match options.trace with
  | some path =>
    let bytes ← openFile files "" path
    let names ← m.functionNames.mapError .crashed
    return dumpTrace names bytes
  | none =>
    let names ← m.functionNames.mapError .crashed
    if options.statistics then return told statisticsFailure (Statistics.tell m names)
    else return told .crashed (m.summary names)

/-- Dumps the module whose path is the only argument. -/
def dump (files : Files) (options : DumpOptions) (args : List String) : Report :=
  match args with
  | [path] =>
    match loadModule files "" path >>= dumpModule files options with
    | .error e => .failed e
    | .ok report => report
  | _ => .failed (.text "expected exactly one argument")

end IntWasm.Command
