import IntWasm.Buffer
import IntWasm.Config.Parse
import IntWasm.Engine.Link
import IntWasm.Host.Method
import IntWasm.Module.Names
import IntWasm.Module.Validate
import IntWasm.Trace.Print

/-!
# All failures in one type

Every part of the engine has its own errors. Whoever uses several parts at once can turn them into a
`Failure`, which keeps what a caller can ask for: the text, the details and the conditions that it
stands for.
-/

namespace IntWasm

/-- A condition that an error stands for, whatever else it says. -/
inductive Condition where
  | importNotFound
  | importTypeMismatch
  | allocation
  | outOfBoundsInit
  | outOfBounds
  | limitExceeded
  | exportNotFound
  | argumentMismatch
  | closed
  | malformed
  | unexpectedEnd
  | ended
  | noProgress
  | emptyInitExpr
  | noNameSection
  | write
  | read
  deriving Repr, DecidableEq, Inhabited

/-- Anything that can go wrong. A context is a text that stands in front of the message. -/
inductive Failure where
  | text (message : String)
  | read (context : String) (fault : ReadFault)
  | write (fault : WriteFault)
  | noNames
  | decode (context : String) (error : DecodeError)
  | const (context : String) (fault : ConstFault)
  | allocation (fault : AllocationFault)
  | cause (cause : Cause)
  | trap (context : String) (trap : Trap)
  | trapped (error : TrapError)
  | unresolved (fault : ImportFault)
  | link (error : LinkError)
  | unreadableConfig
  /-- A trap that was raised outside an invocation. -/
  | raised (trap : Trap)
  /-- Something broke off with a text. -/
  | brokeOff (text : String)
  | crashed (crash : Crash)
  deriving Repr, DecidableEq, Inhabited

namespace ReadFault

/-- The condition of a fault. -/
def condition : ReadFault → Condition
  | ended => .ended
  | truncated => .unexpectedEnd
  | stalled => .noProgress
  | failed => .read
  | tooLong | tooLarge | signBits => .malformed

end ReadFault

/-- The conditions of an error in a binary: those of the failure to read behind it. -/
def DecodeError.conditions (e : DecodeError) : List Condition :=
  match e.cause with
  | some (.read fault) => [fault.condition]
  | _ => []

/-- The conditions of a fault. -/
def ConstFault.conditions : ConstFault → List Condition
  | empty => [.emptyInitExpr]
  | read fault => [fault.condition]
  | unknownGlobal _ | opcode _ => []

/-- The conditions of a fault. A refusal of the source says nothing that is known here. -/
def AllocationFault.conditions : AllocationFault → List Condition
  | refused _ => []
  | _ => [.allocation]

/-- The conditions of a fault. -/
def MemoryFault.conditions : MemoryFault → List Condition
  | outOfBounds => [.outOfBounds]
  | limitExceeded => [.limitExceeded]
  | allocation fault => fault.conditions

/-- The condition of a refusal. -/
def Refusal.condition : Refusal → Condition
  | closed => .closed
  | exportMissing _ _ => .exportNotFound
  | argumentCount _ _ _ | argumentType _ _ _ _ => .argumentMismatch

/-- The conditions of a failure of the embedder. -/
def Cause.conditions : Cause → List Condition
  | text _ | exit _ => []
  | refused refusal => [refusal.condition]
  | memory fault => fault.conditions
  | write _ => [.write]

/-- The conditions of a trap: those of the failure behind it. -/
def TrapError.conditions (e : TrapError) : List Condition :=
  match e.cause with
  | none => []
  | some cause => cause.conditions

/-- The condition of a fault. -/
def ImportFault.condition (fault : ImportFault) : Condition :=
  if fault.isMismatch then .importTypeMismatch else .importNotFound

/-- The conditions of a link error: that of its class, or those of the trap behind it. -/
def LinkError.conditions (e : LinkError) : List Condition :=
  match e.cause with
  | .start error => error.conditions
  | cause =>
    match cause.kind with
    | .importNotFound => [.importNotFound]
    | .importTypeMismatch => [.importTypeMismatch]
    | .allocation => [.allocation]
    | .outOfBounds => [.outOfBoundsInit]
    | .startTrap => []

namespace Failure

/-- The text that is shown for a failure. -/
def message : Failure → String
  | text shown => shown
  | read context fault => context ++ fault.message
  | write fault => fault.message
  | noNames => NameFault.absent.message
  | decode context error => context ++ error.message
  | const context fault => context ++ fault.message
  | allocation fault => fault.message
  | cause c => c.message
  | trap context t => context ++ t.text
  | trapped error => error.message
  | unresolved fault => fault.message
  | link error => error.message
  | unreadableConfig => "parsing config"
  | raised t => t.text
  | brokeOff reason => reason
  | crashed crash => crash.message

/-- The conditions that a failure stands for. -/
def conditions : Failure → List Condition
  | read _ fault => [fault.condition]
  | write _ => [.write]
  | noNames => [.noNameSection]
  | decode _ error => error.conditions
  | const _ fault => fault.conditions
  | allocation fault => fault.conditions
  | cause c => c.conditions
  | trapped error => error.conditions
  | unresolved fault => [fault.condition]
  | link error => error.conditions
  | _ => []

end Failure

/-! ## The failures of each part -/

/-- A fault as a failure. -/
def Fault.toFailure : Fault → Failure
  | read fault => .read "" fault
  | decode error => .decode "" error

/-- A fault as a failure. -/
def NameFault.toFailure : NameFault → Failure
  | absent => .noNames
  | fault inner => inner.toFailure
  | skipping subsection inner =>
    .read ("reading name subsection " ++ Text.hexDigits subsection.toNat ++ ": ") inner

/-- A fault as a failure. -/
def EncodeFault.toFailure : EncodeFault → Failure
  | opcode error => .decode "" error
  | unfinished => .read "" .truncated
  | write fault => .write fault

/-- An invalid module as a failure, behind a text. -/
def InvalidModule.failureIn (context : String) (e : InvalidModule) : Failure :=
  match e.part with
  | none => .decode context e.error
  | some part => .decode (context ++ part ++ ": ") e.error

/-- An invalid module as a failure. -/
def InvalidModule.toFailure (e : InvalidModule) : Failure := e.failureIn ""

/-- A fault as a failure. -/
def PrintFault.toFailure : PrintFault → Failure
  | trace fault => fault.toFailure
  | write fault => .write fault

/-- A fault as a failure. -/
def ConfigFileFault.toFailure : ConfigFileFault → Failure
  | unreadable => .unreadableConfig
  | refused fault => .text fault.message

/-- A failed invocation as a failure. -/
def InvokeError.toFailure : InvokeError → Failure
  | refused refusal => .cause (.refused refusal)
  | trapped error => .trapped error
  | crashed crash => .crashed crash

/-- A fault as a failure, behind a text. -/
def OffsetFault.toFailure (context : String) : OffsetFault → Failure
  | expr fault => .const context fault
  | type actual => .text (context ++ (OffsetFault.type actual).message)

/-- A fault as a failure. -/
def BufferFault.toFailure : BufferFault → Failure
  | allocation fault => .allocation fault
  | notMapped => .brokeOff BufferFault.notMapped.message

/-- A failed instantiation as a failure. -/
def InstantiateError.toFailure : InstantiateError → Failure
  | link error => .link error
  | body function error => .decode s!"function {function}: " error
  | global index fault => .const s!"global {index}: " fault
  | element index fault => fault.toFailure s!"element segment {index}: "
  | data index fault => fault.toFailure s!"data segment {index}: "
  | crashed crash => .crashed crash
  | e => .text e.message

/-- What a function of the embedder failed with, if it was not called by an invocation. -/
def HostFault.toFailure : HostFault → Failure
  | failed c => .cause c
  | trapped context trap => .trap context trap
  | nested error => .trapped error
  | raised trap => .raised trap
  | raisedNested error => .brokeOff error.message
  | raisedError message => .brokeOff message
  | raisedText text => .brokeOff text
  | crashed crash => .crashed crash

end IntWasm
