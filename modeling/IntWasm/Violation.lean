import IntWasm.Types
import IntWasm.Text.Quoted

/-!
# Broken rules

The rules that a decoded module and its function bodies have to keep, one constructor for each way
of breaking one, and the text that is shown for it.
-/

namespace IntWasm

/-- A rule of the format that a body or a module breaks. -/
inductive Violation where
  /-- An instruction takes an operand that its block does not have. -/
  | stackUnderflow
  /-- An operand has another type than the instruction takes. -/
  | typeMismatch (expected actual : ValueType)
  /-- The two alternatives of a selection differ in type. -/
  | selectMismatch (first second : ValueType)
  /-- No block is open that could end. -/
  | labelUnderflow
  /-- A block ends with operands left over. -/
  | unbalanced
  /-- A branch goes out of more blocks than are open. -/
  | invalidLabel
  /-- The targets of a branch table carry different values. -/
  | tableMismatch
  | unknownMemory
  /-- An access promises more alignment than its width. -/
  | overAligned
  | unknownLocal
  | unknownGlobal
  | immutableGlobal
  | unknownFunction
  | unknownTable
  | unknownType
  | elseOutsideIf
  | invalidNesting
  /-- A conditional that gives a value has no second arm. -/
  | missingElse
  /-- The body goes on after its last block has ended. -/
  | unexpectedEnd
  /-- There are not as many bodies as declared functions. -/
  | bodyCount (functions bodies : Nat)
  | functionType (function : Nat) (type : UInt32)
  | tooManyLocals (function locals : Nat)
  | limitsOrder (what : String)
  | limitsTooLarge (what : String) (bound : Nat)
  | multipleTables
  | multipleMemories
  | elementTable (segment : Nat) (table : UInt32)
  | elementFunction (segment : Nat) (function : UInt32)
  | dataMemory (segment : Nat) (memory : UInt32)
  | startUnknown (function : UInt32)
  | startType (type : FuncType)
  | importType (name : String) (type : UInt32)
  | duplicateExport (name : String)
  | exportUnknown (name : String) (kind : ExternKind) (index : UInt32)
  | mutableGlobal (index : UInt32)
  /-- An initial value is computed by something else than a constant. -/
  | notConstant
  deriving Repr, DecidableEq, Inhabited

namespace Violation

/-- The rule that was broken, in words. -/
def reason : Violation → String
  | stackUnderflow => "stack underflow"
  | typeMismatch expected actual =>
    "type mismatch: expected " ++ expected.text ++ ", got " ++ actual.text
  | selectMismatch first second =>
    "type mismatch: select operands " ++ first.text ++ " and " ++ second.text
  | labelUnderflow => "label stack underflow"
  | unbalanced => "unbalanced stack"
  | invalidLabel => "invalid label"
  | tableMismatch => "br_table type mismatch"
  | unknownMemory => "unknown memory"
  | overAligned => "alignment must not be larger than natural"
  | unknownLocal => "unknown local"
  | unknownGlobal => "unknown global"
  | immutableGlobal => "global is immutable"
  | unknownFunction => "unknown function"
  | unknownTable => "unknown table"
  | unknownType => "unknown type"
  | elseOutsideIf => "else outside if"
  | invalidNesting => "invalid nesting"
  | missingElse => "if with a result requires an else"
  | unexpectedEnd => "unexpected end instruction"
  | bodyCount functions bodies =>
    s!"function and code section have inconsistent lengths ({functions} and {bodies})"
  | functionType function type => s!"function {function}: unknown type {type}"
  | tooManyLocals function locals => s!"function {function} declares too many locals ({locals})"
  | limitsOrder what => s!"{what}: size minimum must not be greater than maximum"
  | limitsTooLarge what bound => s!"{what}: size must be at most {bound}"
  | multipleTables => "multiple tables"
  | multipleMemories => "multiple memories"
  | elementTable segment table => s!"element segment {segment}: unknown table {table}"
  | elementFunction segment function =>
    s!"element segment {segment}: unknown function {function}"
  | dataMemory segment memory => s!"data segment {segment}: unknown memory {memory}"
  | startUnknown function => s!"start: unknown function {function}"
  | startType type => "start function must have type [] -> [], not " ++ type.text
  | importType name type => s!"import {name}: unknown type {type}"
  | duplicateExport name => "duplicate export name " ++ Text.quote name
  | exportUnknown name kind index =>
    "export " ++ Text.quote name ++ ": unknown " ++ kind.text ++ " " ++ toString index
  | mutableGlobal index => s!"constant expression reads mutable global {index}"
  | notConstant => "constant expression required"

/-- The text that is shown for a violation. -/
def message (v : Violation) : String := "wasm: validation error: " ++ v.reason

end Violation

end IntWasm
