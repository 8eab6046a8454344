import IntWasm.Module.Validate
import IntWasm.Report.FunctionNames
import IntWasm.Report.Summary
import IntWasm.Text.Csv

/-!
# Statistics of function bodies

The statistics of a module are a table with a row for every body: what the function is, what its
body needs, and how many instructions of each kind it has. The head of the table is written with
the first row, so a module without bodies has no table at all.
-/

namespace IntWasm.Statistics

/-- A constant of one byte. -/
def isSmall (v : Int) : Bool := -128 ≤ v ∧ v < 128

/-- An offset of one byte. -/
def isNear (i : Instruction) : Bool := i.index < 256

/-- A kind of instructions that is counted, with the head of its column. -/
structure Kind where
  head : String
  holds : Opcode → Instruction → Bool

namespace Kind

/-- The instructions of one opcode. -/
def only (op : Opcode) : Kind := { head := op.text, holds := fun o _ => o = op }

/-- The instructions of one opcode that pass a test. -/
def passing (head : String) (op : Opcode) (test : Instruction → Bool) : Kind :=
  { head, holds := fun o i => o = op && test i }

/-- The instructions of several opcodes. -/
def group (head : String) (member : Opcode → Bool) : Kind := { head, holds := fun o _ => member o }

end Kind

/-- Whether an opcode is a load. -/
def isLoad : Opcode → Bool
  | .load _ => true
  | _ => false

/-- Whether an opcode is a store. -/
def isStore : Opcode → Bool
  | .store _ => true
  | _ => false

/-- Whether an opcode compares integers of a width. -/
def isCompare (width : IntType) : Opcode → Bool
  | .eqz type | .compare type _ => type = width
  | _ => false

/-- Whether an opcode computes an integer from others of the same width. -/
def isArith (width : IntType) : Opcode → Bool
  | .count type _ | .arith type _ | .extendPart type _ => type = width
  | .extendWord => width = .i64
  | _ => false

/-- Whether an opcode converts between the widths. -/
def isConvert : Opcode → Bool
  | .wrap | .extend _ => true
  | _ => false

/-- The kinds of instructions in the order of their columns. -/
def kinds : List Kind :=
  [.only .unreachable, .only .nop, .only .block,
    .passing "unit block" .block (·.arity = 0),
    .passing "zero block" .block (·.height = 0),
    .only .loop, .only .ifThen,
    .passing "unit if" .ifThen (·.arity = 0)]
  ++ ([.otherwise, .br, .brIf, .brTable, .ret, .call, .callIndirect, .drop, .select, .localGet,
    .localSet, .localTee, .globalGet, .globalSet] : List Opcode).map Kind.only
  ++ [.group "load" isLoad,
    { head := "load small offset", holds := fun op i => isLoad op && isNear i },
    .group "store" isStore,
    { head := "store small offset", holds := fun op i => isStore op && isNear i },
    .only .memorySize, .only .memoryGrow, .only (.const .i32), .only (.const .i64),
    .passing "i32.small.const" (.const .i32) (fun i => isSmall i.index.toInt32.toInt),
    .passing "i64.small.const" (.const .i64) (fun i => isSmall i.immediate.toInt64.toInt),
    .group "i32 compare" (isCompare .i32), .group "i64 compare" (isCompare .i64),
    .group "i32 arith" (isArith .i32), .group "i64 arith" (isArith .i64),
    .group "convert" isConvert]

/-- The heads of the columns. -/
def heads : List String :=
  ["function", "funcidx", "in", "out", "local count", "max stack", "max nesting", "label count",
    "has loops", "instruction count"] ++ kinds.map (·.head)

/-- How many instructions are of a kind. -/
def countOf (is : List Instruction) (kind : Kind) : Nat :=
  is.countP fun i => i.op?.any fun op => kind.holds op i

/-- The row of a function with a checked body. -/
def row (name : String) (index : Nat) (type : FuncType) (locals : Nat) (body : Body) :
    List String :=
  let is := body.instructions.toList
  [name, toString index, toString type.params.length, toString type.results.length,
    toString locals, toString body.metrics.maxStack, toString body.metrics.maxNesting,
    toString body.metrics.labels, toString body.metrics.hasLoops, toString is.length]
  ++ kinds.map fun kind => toString (countOf is kind)

/-- Why there are no statistics of a body. -/
inductive Fault where
  | body (error : DecodeError)
  | crash (crash : Crash)

/-- A table that is told row by row. -/
abbrev Telling := EStateM Fault String

/-- Tells the row of a body, and the head of the table before the first. -/
def tellBody (m : Module) (names : FunctionNames) (i : Nat) (code : FuncBody) : Telling Unit := do
  let some type := ((m.functions.getD [])[i]?).bind m.type? | throw (.crash .missing)
  let locals := Module.localGroups type code
  match Body.check (m.scope locals) type.results code.offset code.code with
  | .error e => throw (.body e)
  | .ok body =>
    let index := m.importedFunctions.length + i
    if i = 0 then modify (· ++ Text.Csv.row heads)
    let name := (names (UInt32.ofNat index)).getD ""
    modify (· ++ Text.Csv.row (row name index type (LocalGroup.total locals) body))

/-- Tells the rows of bodies from the index `i` on. -/
def tellFrom (m : Module) (names : FunctionNames) : Nat → List FuncBody → Telling Unit
  | _, [] => pure ()
  | i, code :: rest => do
    tellBody m names i code
    tellFrom m names (i + 1) rest

/-- Tells the statistics of a module, which has to have a section for bodies. -/
def tell (m : Module) (names : FunctionNames) : Telling Unit :=
  match m.code with
  | none => throw (.crash .missing)
  | some bodies => tellFrom m names 0 bodies

end IntWasm.Statistics
