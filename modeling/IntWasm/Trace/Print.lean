import IntWasm.Text.Quoted
import IntWasm.Text.Utf8
import IntWasm.Trace.Entry

/-!
# The text of a trace

Every entry is a line, indented by the number of functions that are open around it. Functions are
shown by their names where names are known.
-/

namespace IntWasm

/-- A function that was entered and not yet left. -/
structure TraceFrame where
  moduleName : List UInt8
  function : UInt32
  deriving Repr, DecidableEq, Inhabited

/-- Why a trace could not be printed. -/
inductive PrintFault where
  | trace (fault : Fault)
  | write (fault : WriteFault)
  deriving Repr, DecidableEq, Inhabited

/-- The text that is shown for a fault. -/
def PrintFault.message : PrintFault → String
  | trace fault => fault.message
  | write fault => fault.message

namespace TracePrinter

/-- The name of a function, or its index. -/
def functionText (names : UInt32 → Option String) (function : UInt32) : String :=
  match names function with
  | some name => "$" ++ name
  | none => toString function.toNat

/-- The module and the function that are open, innermost first. -/
def whereText (names : UInt32 → Option String) : List TraceFrame → String
  | [] => "\"\", "
  | f :: _ => Text.quoteBytes f.moduleName ++ ", " ++ functionText names f.function

/-- The indentation inside the open functions. -/
def indent (frames : List TraceFrame) : List UInt8 :=
  Text.utf8 (String.join (List.replicate (frames.length - 1) "  "))

/-- The text of an instruction; the target of a call is shown by its name. -/
def instructionText (names : UInt32 → Option String) (frames : List TraceFrame)
    (i : Instruction) : String :=
  if i.opcode = Opcode.call.byte ∧ ¬ frames.isEmpty then "call " ++ functionText names i.index
  else i.text

/-- The open functions after an entry, and the line for it. -/
def line (names : UInt32 → Option String) (frames : List TraceFrame) (e : TraceEntry) :
    List TraceFrame × List UInt8 :=
  match e with
  | .enter moduleName function type =>
    let frames := { moduleName, function } :: frames
    (frames, indent frames
      ++ Text.utf8 ("enter(" ++ whereText names frames ++ ", " ++ type.text ++ ")\n"))
  | .leave =>
    (frames.tail, indent frames ++ Text.utf8 ("leave(" ++ whereText names frames ++ ")\n"))
  | .instruction ip i height =>
    (frames, indent frames
      ++ Text.utf8 (Text.hexDigitsPadded 4 ip.toNat ++ ": " ++ instructionText names frames i
        ++ "; [" ++ toString height ++ "]\n"))
  | .trap text ip =>
    ([], indent frames
      ++ Text.utf8 ("trap(" ++ whereText names frames ++ ", " ++ Text.hexDigitsPadded 4 ip.toNat
        ++ "): ")
      ++ text ++ Text.utf8 "\n")
  | .finish => (frames, Text.utf8 "end\n")

/-- Prints entries until the output is full. -/
def printEntries (names : UInt32 → Option String) :
    List TraceFrame → List TraceEntry → Writer WriteFault Unit
  | _, [] => pure ()
  | frames, e :: rest => do
    let (frames, text) := line names frames e
    Writer.bytes text
    printEntries names frames rest

/-- Prints a trace as far as it can be read. -/
def print (names : UInt32 → Option String) (c : Cursor) : Writer PrintFault Unit := do
  let (entries, fault, _) := TraceEntry.scan c
  Writer.lift .write (printEntries names [] entries)
  match fault with
  | none => pure ()
  | some e => throw (.trace e)

end TracePrinter

end IntWasm
