import IntWasm.Failure
import IntWasm.Text.Utf8

/-!
# Commands

A command gets arguments and can read files. What it leaves behind is a report: what it printed,
what it printed besides as diagnostics, the trace that it wrote, and whether it failed. A command
that fails keeps what it printed before.
-/

namespace IntWasm.Command

/-- The files that a command can read, by their paths. -/
abbrev Files := String → Option (List UInt8)

/-- What a command leaves behind. -/
structure Report where
  failure : Option Failure := none
  output : List UInt8 := []
  diagnostics : String := ""
  trace : List UInt8 := []

/-- The report of a command that failed before it did anything. -/
def Report.failed (e : Failure) : Report := { failure := some e }

/-- The bytes of a file, which has to be there. -/
def openFile (files : Files) (context path : String) : Except Failure (List UInt8) :=
  match files path with
  | some bytes => .ok bytes
  | none => .error (.text (context ++ "open " ++ path ++ ": no such file or directory"))

/-- The valid module in a file. Failures are told behind a text. -/
def loadModule (files : Files) (context path : String) : Except Failure Module := do
  let bytes ← openFile files context path
  (Module.load bytes .eof).mapError (·.failureIn context)

/-- The report on a text that may have been broken off. -/
def told {ε : Type} (fail : ε → Failure) (telling : EStateM ε String Unit) : Report :=
  match telling "" with
  | .ok _ text => { output := Text.utf8 text }
  | .error e text => { failure := some (fail e), output := Text.utf8 text }

end IntWasm.Command
