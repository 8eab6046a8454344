import IntWasm.Command.Line
import Std.Time.DateTime.Timestamp

/-!
# The program

Reads the files that the command line names, carries the command out, and writes what it leaves
behind.
-/

namespace IntWasm.Command

/-- The bytes of a file, if it can be read. -/
def readPath (path : String) : IO (Option (List UInt8)) := do
  try return some (← IO.FS.readBinFile path).data.toList
  catch _ => return none

/-- The files of given paths. -/
def readPaths (paths : List String) : IO Files := do
  let read ← paths.mapM fun path => return (path, ← readPath path)
  return fun path => (read.lookup path).join

/-- The time in nanoseconds. -/
def currentTime : IO Int := do
  return (← Std.Time.Timestamp.now).toNanosecondsSinceUnixEpoch.val

/-- Writes the trace of a run to its file. -/
def writeTrace (order : Order) (report : Report) : IO Unit :=
  match order with
  | .run _ (some path) _ => IO.FS.writeBinFile path ⟨report.trace.toArray⟩
  | _ => return

/-- Carries an order out and gives its status. -/
def obey (order : Order) : IO UInt32 := do
  let report := order.perform (← readPaths order.paths) (← currentTime)
  let output ← IO.getStdout
  let errors ← IO.getStderr
  output.write ⟨report.output.toArray⟩
  output.flush
  writeTrace order report
  errors.putStr (report.diagnostics ++ report.complaint.getD "")
  return report.status

end IntWasm.Command

/-- Carries out what the command line asks for. -/
def main (args : List String) : IO UInt32 := do
  match IntWasm.Command.Order.ofLine args with
  | .ok order => IntWasm.Command.obey order
  | .error message =>
    (← IO.getStderr).putStr (message ++ "\n")
    return 1
