import IntWasm.Body.Scope
import IntWasm.DecodeError
import IntWasm.Instruction.Decode

/-!
# Checking a function body

A body is read instruction by instruction while the types of its operands are followed on a stack.
Every open block remembers the height of the stack at its entry and the values it has to give;
after a jump the rest of a block is unreachable and operands of any type may be taken from it. The
result is the list of instructions with the targets of branches resolved and the stack height noted
in every block, together with the sizes of stacks that running it needs.
-/

namespace IntWasm

/-- What running a body needs. -/
structure Metrics where
  /-- The most blocks that are open at once, the function itself included. -/
  maxNesting : Nat := 0
  /-- The most operands that are on the stack at once. -/
  maxStack : Nat := 0
  /-- The number of labels. -/
  labels : Nat := 0
  hasLoops : Bool := false
  deriving Repr, DecidableEq, Inhabited

/-- A checked function body. -/
structure Body where
  instructions : Array Instruction
  metrics : Metrics
  deriving Repr, DecidableEq, Inhabited

namespace Body

/-- What opened a block. -/
inductive Opener where
  /-- The body itself. -/
  | function
  | block (at_ : Nat)
  | loop (at_ : Nat)
  /-- The first arm of a conditional. -/
  | ifThen (at_ : Nat)
  /-- The second arm of the conditional at `at_`, which begins at `other`. -/
  | otherwise (at_ other : Nat)
  deriving Repr, DecidableEq, Inhabited

/-- An open block. -/
structure Block where
  opener : Opener
  /-- The types of the values that the block gives. -/
  results : List ValueType
  /-- The height of the operand stack at its entry. -/
  height : Nat
  /-- Whether the rest of the block cannot be reached. -/
  unreachable : Bool := false
  deriving Repr, DecidableEq, Inhabited

/-- The types of the values that a branch to a block carries. A loop is entered anew. -/
def Block.branchTypes (b : Block) : List ValueType :=
  match b.opener with
  | .loop _ => []
  | _ => b.results

/-- The state of checking a body: what was read so far, the open blocks with the innermost first and
the types of the operands with the topmost first. -/
structure Checker where
  instructions : Array Instruction := #[]
  blocks : List Block := []
  stack : List ValueType := []
  metrics : Metrics := {}
  deriving Repr, DecidableEq, Inhabited

namespace Checker

/-- Takes the topmost operand. In unreachable code an operand that is not there has any type. -/
def pop (s : Checker) : Except Violation (ValueType × Checker) :=
  match s.blocks with
  | [] => .error .labelUnderflow
  | b :: _ =>
    if s.stack.length = b.height then
      if b.unreachable then .ok (.any, s) else .error .stackUnderflow
    else
      match s.stack with
      | [] => .error .stackUnderflow
      | t :: stack => .ok (t, { s with stack })

/-- Takes an operand of a given type. -/
def popType (s : Checker) (expected : ValueType) : Except Violation Checker := do
  let (actual, s) ← s.pop
  if actual ≠ .any ∧ expected ≠ .any ∧ actual ≠ expected then
    throw (.typeMismatch expected actual)
  return s

/-- Takes operands of given types, the topmost first. -/
def popEach (s : Checker) : List ValueType → Except Violation Checker
  | [] => .ok s
  | t :: types => do
    let s ← s.popType t
    s.popEach types

/-- Takes operands of given types, which are listed lowest first. -/
def popTypes (s : Checker) (types : List ValueType) : Except Violation Checker :=
  s.popEach types.reverse

/-- Leaves operands of given types, which are listed lowest first. -/
def push (s : Checker) (types : List ValueType) : Checker :=
  let stack := types.reverse ++ s.stack
  { s with stack, metrics.maxStack := max s.metrics.maxStack stack.length }

/-- Opens a block. -/
def openBlock (s : Checker) (opener : Opener) (results : List ValueType) : Checker :=
  let blocks := { opener, results, height := s.stack.length } :: s.blocks
  { s with
    blocks
    metrics.maxNesting := max s.metrics.maxNesting blocks.length
    metrics.labels := s.metrics.labels + 1 }

/-- Closes the innermost block, whose values have to be the only operands it leaves. -/
def closeBlock (s : Checker) : Except Violation (Block × Checker) :=
  match s.blocks with
  | [] => .error .labelUnderflow
  | b :: blocks => do
    let s ← s.popTypes b.results
    if s.stack.length ≠ b.height then throw .unbalanced
    return (b, { s with blocks })

/-- The types of the values that a branch out of `n + 1` blocks carries. -/
def branchTypes (s : Checker) (n : Nat) : Except Violation (List ValueType) :=
  match s.blocks[n]? with
  | none => .error .invalidLabel
  | some b => .ok b.branchTypes

/-- The cases of a branch table have to carry the same values as its default. -/
def checkCases (s : Checker) (types : List ValueType) : List Int → Except Violation Unit
  | [] => .ok ()
  | label :: labels => do
    let other ← s.branchTypes label.toNat
    if other ≠ types then throw .tableMismatch
    s.checkCases types labels

/-- Marks the rest of the innermost block as unreachable and drops its operands. -/
def jump (s : Checker) : Checker :=
  match s.blocks with
  | [] => s
  | b :: blocks =>
    { s with
      stack := s.stack.drop (s.stack.length - b.height)
      blocks := { b with unreachable := true } :: blocks }

/-- Changes the labels of the instruction at an index. -/
def relabel (s : Checker) (at_ : Nat) (change : List Int → List Int) : Checker :=
  { s with
    instructions := s.instructions.modify at_ fun i => { i with labels := change i.labels } }

/-- Adds an instruction to those read. -/
def append (s : Checker) (i : Instruction) : Checker :=
  { s with instructions := s.instructions.push i }

/-- Opens a block with the instruction `i`, which is added with the current stack height. -/
def enter (s : Checker) (i : Instruction) (opener : Opener) (labels : List Int) : Checker :=
  let height := (UInt64.ofNat s.stack.length <<< 32) &&& Instruction.heightMask
  let s := s.append { i with labels, immediate := i.immediate ||| height }
  s.openBlock opener i.blockResults

/-- Resolves the labels of a block that has ended just before the index `next`. -/
def resolve (s : Checker) (opener : Opener) (next : Nat) : Checker :=
  match opener with
  | .function | .loop _ => s
  | .block at_ | .ifThen at_ => s.relabel at_ (·.set 0 next)
  | .otherwise at_ other => (s.relabel at_ (·.set 0 next)).relabel other (·.set 0 next)

/-- Whether checking goes on. -/
inductive Progress where
  | more (s : Checker)
  | done (body : Body)

/-- Checks one instruction. `last` says that no byte follows it. -/
def step (scope : Scope) (s : Checker) (op : Opcode) (i : Instruction) (last : Bool) :
    Except Violation Progress := do
  let ip := s.instructions.size
  match op with
  | .unreachable => return .more (s.append i).jump
  | .drop =>
    let (_, s) ← s.pop
    return .more (s.append i)
  | .select =>
    let s ← s.popType .i32
    let (second, s) ← s.pop
    let (first, s) ← s.pop
    -- An operand of any type takes the type of the other one.
    if second = .any then return .more ((s.append i).push [first])
    if first ≠ .any ∧ first ≠ second then throw (.selectMismatch first second)
    return .more ((s.append i).push [second])
  | .block => return .more (s.enter i (.block ip) [0])
  | .loop =>
    let s := s.enter i (.loop ip) [ip]
    return .more { s with metrics.hasLoops := true }
  | .ifThen =>
    let s ← s.popType .i32
    return .more (s.enter i (.ifThen ip) [0, 0])
  | .otherwise =>
    if s.blocks.length < 2 then throw .elseOutsideIf
    let (b, s) ← s.closeBlock
    match b.opener with
    | .ifThen at_ =>
      -- The second label of the `if` leads to its `else`; both wait for the end.
      let s := (s.append { i with labels := [0] }).relabel at_ (·.set 1 ip)
      return .more (s.openBlock (.otherwise at_ ip) b.results)
    | _ => throw .invalidNesting
  | .close =>
    let (b, s) ← s.closeBlock
    let s := (s.append i).resolve b.opener (ip + 1)
    match b.opener with
    | .function =>
      if ¬ last then throw .unexpectedEnd
      return .done { instructions := s.instructions, metrics := s.metrics }
    | .ifThen _ =>
      -- Without an `else` there is nothing that would give the results.
      if b.results ≠ [] then throw .missingElse
      return .more (s.push b.results)
    | _ => return .more (s.push b.results)
  | .br =>
    let types ← s.branchTypes i.index.toNat
    let s ← s.popTypes types
    return .more (s.append i).jump
  | .brIf =>
    let types ← s.branchTypes i.index.toNat
    let s ← s.popType .i32
    let s ← s.popTypes types
    return .more ((s.append i).push types)
  | .brTable =>
    let types ← s.branchTypes i.index.toNat
    s.checkCases types i.labels
    let s ← s.popType .i32
    let s ← s.popTypes types
    return .more (s.append i).jump
  | .ret =>
    -- The outermost block is the function.
    let results := (s.blocks.getLast?.map (·.results)).getD []
    let s ← s.popTypes results
    return .more (s.append i).jump
  | op =>
    let effect ← scope.effect op i
    let s ← s.popTypes effect.takes
    return .more ((s.append i).push effect.gives)

end Checker

/-- Reads and checks the instructions of a body from `rest` on; `size` is the length of the whole
body, and an error comes with the position of the instruction at which it was found. -/
def checkFrom (scope : Scope) (size : Nat) : Nat → List UInt8 → Checker → Except (Fault × Nat) Body
  -- Every instruction takes a byte, so the fuel lasts until the bytes end.
  | 0, rest, _ => .error (.read .truncated, size - rest.length)
  | fuel + 1, rest, s =>
    let position := size - rest.length
    match Instruction.ofBytes rest with
    | .error fault => .error (fault, position)
    | .ok (i, rest) =>
      match i.op? with
      | none => .error (.decode (Instruction.refusal none i.opcode), position)
      | some op =>
        match s.step scope op i rest.isEmpty with
        | .error rule => .error (.decode (.broken rule), position)
        | .ok (.done body) => .ok body
        | .ok (.more s) => checkFrom scope size fuel rest s

/-- Reads and checks a function body that gives `results`; its first byte stands at `base`. -/
def check (scope : Scope) (results : List ValueType) (base : Nat) (code : List UInt8) :
    Except DecodeError Body :=
  let start := Checker.openBlock {} .function results
  match checkFrom scope code.length (code.length + 1) code start with
  | .ok body => .ok body
  | .error (fault, position) => .error (fault.toDecodeError (some (base + position)))

end Body

end IntWasm
