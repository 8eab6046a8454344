import IntWasm.Bytes.Sink
import IntWasm.Memory
import IntWasm.Text.Quoted
import IntWasm.Trap
import IntWasm.Types

/-!
# How invocations fail

An invocation may be refused before it begins, end with a trap, or break down. A trap is reported
with the place at which it was raised and, if a function of the embedder failed, with that failure.
Functions of the embedder can fail by answering with an error or by breaking off; either way the
invocation that called them ends with a trap.
-/

namespace IntWasm

/-- Why an invocation cannot begin. -/
inductive Refusal where
  | closed
  | exportMissing (name : String) (kind : ExternKind)
  | argumentCount (name : String) (expected actual : Nat)
  | argumentType (name : String) (index : Nat) (actual expected : ValueType)
  deriving Repr, DecidableEq, Inhabited

/-- The text that is shown for a refusal. -/
def Refusal.message : Refusal → String
  | closed => "instance is closed"
  | exportMissing name kind => kind.text ++ " " ++ Text.quote name ++ " not found"
  | argumentCount name expected actual =>
    s!"argument mismatch: {name} expects {expected} arguments, got {actual}"
  | argumentType name index actual expected =>
    s!"argument mismatch: {name}: argument {index} has type " ++ actual.text ++ ", want "
      ++ expected.text

/-- A breakdown of the engine: something that the checks before should have ruled out. -/
inductive Crash where
  /-- A memory or table that is not there was used. -/
  | missing
  /-- An index past the end of a row of `length` entries. -/
  | index (i length : Nat)
  /-- A write to a global that cannot change. -/
  | immutableGlobal
  /-- An opcode that cannot be run. -/
  | opcode (text : String)
  /-- A stack of a machine that is larger than any can be. -/
  | stackSize
  /-- The steps that were granted are used up. -/
  | outOfFuel
  deriving Repr, DecidableEq, Inhabited

/-- The text of a breakdown. -/
def Crash.message : Crash → String
  | missing => "runtime error: invalid memory address or nil pointer dereference"
  | index i length => s!"runtime error: index out of range [{i}] with length {length}"
  | immutableGlobal => "wasm: write to immutable global"
  | opcode text => "interpreter: unexpected opcode " ++ text
  | stackSize => "runtime error: makeslice: cap out of range"
  | outOfFuel => "out of fuel"

/-- A failure of a function of the embedder that is no trap. -/
inductive Cause where
  | text (message : String)
  /-- The program asked to end. -/
  | exit (code : Int32)
  /-- An invocation inside the function was refused. -/
  | refused (refusal : Refusal)
  | memory (fault : MemoryFault)
  | write (fault : WriteFault)
  deriving Repr, DecidableEq, Inhabited

/-- The text that is shown for a failure. -/
def Cause.message : Cause → String
  | text message => message
  | exit code => "exit status " ++ toString code.toInt
  | refused refusal => refusal.message
  | memory fault => fault.message
  | write fault => fault.message

/-- A trap with the place at which it was raised. The function and the instruction are `-1` if it
was not raised by an instruction. -/
structure TrapError where
  trap : Trap
  function : Int := -1
  ip : Int := -1
  /-- The failure of the embedder's function that is behind the trap. -/
  cause : Option Cause := none
  deriving Repr, DecidableEq, Inhabited

namespace TrapError

/-- The text that is shown for a trap. -/
def message (e : TrapError) : String :=
  let place :=
    if 0 ≤ e.function then " in function " ++ toString e.function ++ " at " ++ toString e.ip else ""
  let cause := match e.cause with
    | none => ""
    | some cause => ": " ++ cause.message
  "wasm trap: " ++ e.trap.text ++ place ++ cause

/-- A trap with a place, unless it has one of its own. -/
def located (e : TrapError) (place : Option (Int × Int)) : TrapError :=
  match place with
  | some (function, ip) => if e.function < 0 then { e with function, ip } else e
  | none => e

end TrapError

/-- How a function of the embedder fails. -/
inductive HostFault where
  /-- It answers with an error. -/
  | failed (cause : Cause)
  /-- It answers with a trap, which may come with a text in front. -/
  | trapped (context : String) (trap : Trap)
  /-- It answers with a trap of another invocation. -/
  | nested (error : TrapError)
  /-- It breaks off with a trap. -/
  | raised (trap : Trap)
  /-- It breaks off with a trap of another invocation. -/
  | raisedNested (error : TrapError)
  /-- It breaks off with an error. -/
  | raisedError (message : String)
  /-- It breaks off with a plain text. -/
  | raisedText (text : String)
  /-- It breaks down. -/
  | crashed (crash : Crash)
  deriving Repr, DecidableEq, Inhabited

namespace HostFault

/-- The text of the error or the reason for breaking off. -/
def message : HostFault → String
  | failed cause => cause.message
  | trapped context trap => context ++ trap.text
  | nested error | raisedNested error => error.message
  | raised trap => trap.text
  | raisedError message => message
  | raisedText text => text
  | crashed crash => crash.message

/-- The trap of the invocation that called the function. A trap keeps its kind, and everything else
is a fault of the embedder. -/
def toTrapError : HostFault → TrapError
  | failed cause => { trap := .hostFault, cause := some cause }
  | trapped _ trap | raised trap => { trap }
  | nested error | raisedNested error => error
  | raisedError message => { trap := .hostFault, cause := some (.text message) }
  | raisedText text => { trap := .hostFault, cause := some (.text ("panic: " ++ text)) }
  | crashed crash => { trap := .hostFault, cause := some (.text crash.message) }

end HostFault

/-- How an invocation fails. -/
inductive InvokeError where
  | refused (refusal : Refusal)
  | trapped (error : TrapError)
  | crashed (crash : Crash)
  deriving Repr, DecidableEq, Inhabited

/-- A failed invocation as a failure of the function that asked for it. -/
def InvokeError.toHostFault : InvokeError → HostFault
  | refused refusal => .failed (.refused refusal)
  | trapped error => .nested error
  | crashed crash => .crashed crash

end IntWasm
