import IntWasm.Bytes.Cursor
import IntWasm.Violation

/-!
# Errors in a module binary

A `DecodeError` says what is wrong with a binary and, where it is known, at which byte. Readers fail
with a `Fault`, which is either such an error or a plain failure to read; the latter becomes the
former once its place is known.
-/

namespace IntWasm

/-- The classes of errors in a binary. -/
inductive DecodeError.Kind where
  | badMagic
  | unsupportedVersion
  | truncated
  | malformedInteger
  | unknownOpcode
  | unsupportedFeature
  | sectionOrder
  | invalidSection
  | invalidValueType
  | invalid
  deriving Repr, DecidableEq, Inhabited

/-- The name of a class. -/
def DecodeError.Kind.text : DecodeError.Kind → String
  | badMagic => "bad magic"
  | unsupportedVersion => "unsupported version"
  | truncated => "truncated"
  | malformedInteger => "malformed integer"
  | unknownOpcode => "unknown opcode"
  | unsupportedFeature => "unsupported feature"
  | sectionOrder => "section order"
  | invalidSection => "invalid section"
  | invalidValueType => "invalid value type"
  | invalid => "invalid module"

/-- What lies behind an error in a binary. -/
inductive DecodeError.Cause where
  | read (fault : ReadFault)
  | violation (rule : Violation)
  deriving Repr, DecidableEq, Inhabited

/-- The text of a cause. -/
def DecodeError.Cause.message : DecodeError.Cause → String
  | read fault => fault.message
  | violation rule => rule.message

/-- A malformed or unsupported binary. -/
structure DecodeError where
  /-- Where in the binary the error was found, if that is known. -/
  offset : Option Nat := none
  kind : DecodeError.Kind
  /-- The opcode or type that is to blame, or nothing. -/
  opcode : String := ""
  detail : String := ""
  cause : Option DecodeError.Cause := none
  deriving Repr, DecidableEq, Inhabited

namespace DecodeError

/-- The text that is shown for an error. -/
def message (e : DecodeError) : String :=
  let opcode := if e.opcode = "" then "" else " " ++ e.opcode
  let detail := if e.detail = "" then "" else ": " ++ e.detail
  let cause := match e.cause with
    | none => ""
    | some cause => ": " ++ cause.message
  let place := match e.offset with
    | none => "wasm: "
    | some offset => "wasm: offset " ++ Text.hex offset ++ ": "
  place ++ e.kind.text ++ opcode ++ detail ++ cause

/-- A part of the format that the engine does not implement. -/
def unsupported (offset : Option Nat) (what feature : String) : DecodeError :=
  { offset, kind := .unsupportedFeature, opcode := what, detail := feature }

/-- A broken rule whose place is not known. -/
def broken (rule : Violation) : DecodeError :=
  { kind := .invalid, cause := some (.violation rule) }

end DecodeError

/-- Why a part of a binary could not be read. -/
inductive Fault where
  | read (fault : ReadFault)
  | decode (error : DecodeError)
  deriving Repr, DecidableEq, Inhabited

namespace Fault

/-- The text that is shown for a fault. -/
def message : Fault → String
  | read fault => fault.message
  | decode error => error.message

/-- A failure to read as an error in the binary, at a given place. -/
def classify (offset : Option Nat) (detail : String) (fault : ReadFault) : DecodeError :=
  if fault.isMalformed then
    { offset, kind := .malformedInteger, detail, cause := some (.read fault) }
  else if fault = .ended ∨ fault = .truncated then
    { offset, kind := .truncated, detail, cause := some (.read .truncated) }
  else { offset, kind := .invalid, detail, cause := some (.read fault) }

/-- The error behind a fault. The place is filled in where the error does not have one; the detail
is for plain failures to read only. -/
def labelled (detail : String) (offset : Option Nat) : Fault → DecodeError
  | decode error => { error with offset := error.offset.orElse fun _ => offset }
  | read fault => classify offset detail fault

/-- The error behind a fault, at a given place if it has none of its own. -/
def toDecodeError (offset : Option Nat) (fault : Fault) : DecodeError :=
  fault.labelled "" offset

end Fault

namespace Reader

variable {α : Type}

/-- Reads something whose failures are plain ones. -/
def plain (r : Reader ReadFault α) : Reader Fault α :=
  lift Fault.read r

/-- Fails with an error at the last byte that was read. -/
def failLast (kind : DecodeError.Kind) (detail : String) : Reader Fault α := fun c =>
  .error (.decode { offset := c.lastOffset?, kind, detail }) c

/-- Refuses a part of the format that the engine does not implement, at the last byte read. -/
def refuse (what feature : String) : Reader Fault α := fun c =>
  .error (.decode (.unsupported c.lastOffset? what feature)) c

/-- Names what was being read when a plain failure occurred. -/
def labelled (detail : String) (r : Reader Fault α) : Reader Fault α :=
  r.located fun c fault => .decode (fault.labelled detail c.offset?)

end Reader

end IntWasm
