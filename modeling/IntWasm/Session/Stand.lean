import IntWasm.Host.Method
import IntWasm.Host.Service

/-!
# Stand-ins for functions of an embedder

To try out modules without a program around them, a session binds stand-ins: functions that do one
simple thing with their arguments, and a few sample values whose methods can be bound as a module.
-/

namespace IntWasm.Session

/-- What a stand-in does. Unless it says so, it leaves its result slot as it is. -/
inductive Behavior where
  | nothing
  /-- Gives the sum of its arguments. -/
  | sum
  | constant (w : UInt64)
  /-- Notes its arguments in the log. -/
  | record
  /-- Gives the depth of calls in the high half and the most that there may be in the low one. -/
  | depths
  /-- Gives the depth of calls. -/
  | depth
  /-- Gives the 32 bits of the memory at its first argument. -/
  | peek
  /-- Writes 32 bits of its second argument to the memory at its first. -/
  | poke
  /-- Adds pages to the memory and gives the size before. -/
  | grow
  /-- Fails in a given way. -/
  | fail (fault : HostFault)
  /-- Invokes an export of an instance and gives the result. Its arguments are those of the call,
  as values of the given types. -/
  | reenter (inst name : String) (types : List ValueType)

/-- The methods of the sample values. -/
inductive Sample where
  | add
  | addUnsigned
  | check
  | fail
  | load
  | mix
  | negate
  | note
  | size
  | trap
  | wide
  | accented
  | twice
  | text
  | half
  | pair
  | odd
  deriving Repr, DecidableEq, Inhabited

namespace Sample

/-- The shape of a method. -/
def shape : Sample → Method
  | add => { name := "Add", params := [.int32, .int32], results := [.int32] }
  | addUnsigned => { name := "AddU", params := [.uint32, .uint32], results := [.uint32] }
  | check => { name := "Check", params := [.int32], results := [.int32], mayFail := true }
  | fail => { name := "Fail", mayFail := true }
  | load => { name := "Load", takesThread := true, params := [.uint32], results := [.uint64] }
  | mix => { name := "Mix", params := [.int32, .uint64, .uint32], results := [.int64] }
  | negate => { name := "Neg", params := [.int64], results := [.int64] }
  | note => { name := "Note", params := [.int64] }
  | size => { name := "Size", takesThread := true, results := [.uint32] }
  | trap => { name := "Trap", takesThread := true, params := [.int32], mayFail := true }
  | wide => { name := "Wide", params := [.uint64], results := [.uint64] }
  | accented => { name := "ÉtéX", results := [.int32] }
  | twice => { name := "Twice", params := [.int32], results := [.int32] }
  | text => { name := "Text", params := [.other "string"] }
  | half => { name := "Half", params := [.int32], results := [.other "float64"] }
  | pair => { name := "Pair", results := [.int32, .int32] }
  | odd => { name := "Odd", results := [.other "error", .int32] }

end Sample

/-- The sample values whose methods can be bound as a module. -/
inductive SampleValue where
  /-- A value with methods of many shapes. -/
  | arithmetic
  /-- A value whose method takes and gives numbers of a type with a name of its own. -/
  | named
  /-- A value without methods. -/
  | bare
  /-- No value at all. -/
  | absent
  /-- A value with a method that takes something other than a number. -/
  | textParameter
  /-- A value with a method that gives something other than an integer. -/
  | fractionResult
  /-- A value with a method that gives two numbers. -/
  | twoResults
  /-- A value with a method that gives an error before a number. -/
  | errorFirst
  deriving Repr, DecidableEq, Inhabited

namespace SampleValue

/-- The methods of a sample value, if there is a value. -/
def methods : SampleValue → Option (List Sample)
  | arithmetic =>
    some [.add, .addUnsigned, .check, .fail, .load, .mix, .negate, .note, .size, .trap, .wide,
      .accented]
  | named => some [.twice]
  | bare => some []
  | absent => none
  | textParameter => some [.text]
  | fractionResult => some [.half]
  | twoResults => some [.pair]
  | errorFirst => some [.odd]

end SampleValue

/-- The functions that a session can bind. -/
inductive Code where
  | behavior (b : Behavior)
  /-- One of the functions of the set of services with a given number. -/
  | service (id : Nat)
  | sample (s : Sample)

/-- What the functions of a session act on. -/
structure Desk where
  console : Console := { now := 1000000000000 }
  services : Array Service := #[]
  /-- The lines of the log, the latest first. -/
  log : List (List String) := []
  /-- The places of the instances by their names. -/
  instances : List (String × Nat) := []

/-- The store of a session. -/
abbrev World := Store Code Desk

/-- What a function of a session does. -/
abbrev Action := EStateM HostFault World

namespace Action

/-- Notes a line in the log. -/
def note (line : List String) : Action Unit :=
  modify fun w => { w with host.log := line :: w.host.log }

/-- The place of the memory that a call sees. -/
def memoryPlace (c : HostCall Code) : Action Nat :=
  match c.memory with
  | some address => pure address
  | none => throw (.crashed .missing)

/-- The memory that a call sees. -/
def memory? (c : HostCall Code) : Action (Option Memory) := do
  let w ← get
  return c.memory.bind fun address => w.memories[address]?

/-- The memory that a call needs. -/
def memory (c : HostCall Code) : Action Memory := do
  match ← memory? c with
  | some m => return m
  | none => throw (.crashed .missing)

/-- An argument that a call needs. -/
def argument (c : HostCall Code) (i : Nat) : Action UInt64 :=
  match c.args[i]? with
  | some v => pure v
  | none => throw (.crashed (.index i c.args.length))

/-- An access to the memory, which breaks off with its trap. -/
def access {α : Type} (r : Except Trap α) : Action α :=
  match r with
  | .ok a => pure a
  | .error t => throw (.raised t)

/-- A check that may fail. -/
def require {α : Type} (r : Except HostFault α) : Action α :=
  match r with
  | .ok a => pure a
  | .error e => throw e

/-- Invokes an export of a named instance with arguments of the given types. -/
def reenter (invoker : Invoker Code Desk) (c : HostCall Code) (inst name : String)
    (types : List ValueType) : Action (Option UInt64) := do
  let words ← (List.range types.length).mapM (argument c)
  fun w =>
    match w.host.instances.lookup inst with
    | none => .error (.failed (.text "missing instance")) w
    | some address =>
      match invoker address name (resultValues types words) w with
      | .ok values w => .ok (values.head?.map (·.bits)) w
      | .error e w => .error e.toHostFault w

/-- What a stand-in does in a call. -/
def behave (invoker : Invoker Code Desk) (c : HostCall Code) : Behavior → Action (Option UInt64)
  | .nothing => return none
  | .sum => return some (c.args.foldl (· + ·) 0)
  | .constant w => return some w
  | .record => do
    note (c.args.map fun a => toString a.toNat)
    return none
  | .depths => return some ((UInt64.ofInt c.depth <<< 32) ||| UInt64.ofInt c.maxDepth)
  | .depth => return some (UInt64.ofInt c.depth)
  | .peek => do
    let a ← argument c 0
    let m ← memory c
    return some (← access (m.load a.toUInt32 0 4))
  | .poke => do
    let v ← argument c 1
    let a ← argument c 0
    let m ← memory c
    let m ← access (m.store a.toUInt32 0 4 v)
    let address ← memoryPlace c
    modify fun w => w.modifyMemory address fun _ => m
    return none
  | .grow => do
    let pages ← argument c 0
    let address ← memoryPlace c
    fun w =>
      match Store.growMemory address pages.toUInt32 w with
      | .ok before w => .ok (some before.toUInt64) w
      | .error e w => .error (.failed (.memory e)) w
  | .fail fault => throw fault
  | .reenter inst name types => reenter invoker c inst name types

/-- What a sample method does with its arguments. -/
def sample (c : HostCall Code) (s : Sample) (args : List Int) : Action (Option UInt64) := do
  let first := args.getD 0 0
  let second := args.getD 1 0
  let give (n : Int) : Action (Option UInt64) := pure (s.shape.encodeResult n)
  match s with
  | .add | .addUnsigned => give (first + second)
  | .check =>
    if first < 0 then throw (.failed (.text ("negative: " ++ toString first)))
    give (first + 1)
  | .fail => throw (.failed (.text "boom"))
  | .load => give (← access ((← memory c).load (UInt32.ofInt first) 0 8)).toNat
  | .mix => give (first + second + args.getD 2 0)
  | .negate => give (-first)
  | .note =>
    note [toString first]
    return none
  | .size => give (← memory c).size.toNat
  | .trap => if first = 0 then return none else throw (.trapped "" .unreachable)
  | .wide | .twice => give (2 * first)
  | .accented => give 7
  | .text | .half | .pair | .odd => return none

/-- Lets a set of services act. -/
def service {α : Type} (id : Nat) (act : Service.Action α) : Action α := fun w =>
  let put (console : Console) (s : Service) : World :=
    { w with host := { w.host with console, services := w.host.services.setIfInBounds id s } }
  match act (w.host.console, w.host.services[id]?.getD {}) with
  | .ok a (console, s) => .ok a (put console s)
  | .error e (console, s) => .error e (put console s)

end Action

/-- What the functions of a session do. None of them writes its result before it fails. -/
def host : Host Code Desk where
  call invoker c := EStateM.adaptExcept ({ fault := · }) <|
    match c.code with
    | .sample s => do Action.sample c s (← Action.require (s.shape.decodeArgs c.args))
    | .behavior b => do
      Action.require c.checkArity
      Action.behave invoker c b
    | .service id => do
      Action.require c.checkArity
      let memory ← Action.memory? c
      return some (← Action.service id (Service.call memory c.args))

end IntWasm.Session
