import IntWasm.Host.Bindings

/-!
# System services

Programs ask for services through seven functions that differ only in the number of their
parameters. The first argument is the number of the service; arguments that are left out are zero. A
service that does not exist answers `-1`.
-/

namespace IntWasm

/-- The world that services act on. -/
structure Console where
  /-- Where text is printed. -/
  output : Sink := {}
  /-- The time in nanoseconds. -/
  now : Int := 0
  /-- How many microseconds programs have slept. -/
  slept : Nat := 0
  deriving Repr, DecidableEq, Inhabited

/-- Moves the clock by a number of microseconds. The span is told in nanoseconds, a signed 64-bit
number that wraps around. -/
def Console.advance (console : Console) (micros : Int) : Console :=
  { console with now := console.now + (Int64.ofInt (micros * 1000)).toInt }

/-- The state of one set of services. -/
structure Service where
  /-- The time at which it was set up. -/
  started : Int := 0
  /-- The state of the random numbers. -/
  random : UInt64 := 0
  deriving Repr, DecidableEq, Inhabited

namespace Service

/-- The module under which services are imported. -/
def moduleName : String := "megos"

/-- Services that are set up at a given time with a seed for random numbers. -/
def new (now : Int) (seed : UInt64) : Service := { started := now, random := seed }

/-- A computation of a service. -/
abbrev Action := EStateM HostFault (Console × Service)

/-- The most nanoseconds that a span of time is told in. -/
def maxSpan : Int := 0x7fffffffffffffff

/-- The whole microseconds between two times, as far as a span can be told. -/
def elapsed (start now : Int) : Int :=
  (max (-maxSpan - 1) (min maxSpan (now - start))).tdiv 1000

/-- The next state of the random numbers. -/
def nextRandom (state : UInt64) : UInt64 := state * 6364136223846793005 + 1442695040888963407

/-- Prints bytes of the memory. Without a memory there is nothing to print. -/
def print (memory : Option Memory) (start length : UInt32) : Action Int32 :=
  match memory with
  | none => return -1
  | some m =>
    match m.read start length with
    | .error _ => throw (.trapped "" .memoryOutOfBounds)
    | .ok bytes => fun (console, service) =>
      match console.output.put bytes with
      | (output, true) => .ok 0 ({ console with output }, service)
      | (output, false) =>
        .error (.failed (.write .full)) ({ console with output }, service)

/-- Performs a service. -/
def perform (memory : Option Memory) (service : UInt32) (params : List UInt32) : Action Int32 := do
  let first := params.getD 0 0
  let second := params.getD 1 0
  match service.toNat with
  | 0 => throw (.failed (.exit first.toInt32))
  | 1 => print memory first second
  | 2 =>
    let (console, s) ← get
    return Int32.ofInt (elapsed s.started console.now)
  | 3 =>
    let (console, _) ← get
    return Int32.ofInt (console.now.fdiv 1000000000)
  | 4 =>
    modify fun (console, s) => ({ console with slept := console.slept + first.toNat }, s)
    return 0
  | 100 =>
    modify fun (console, s) => (console, { s with random := nextRandom s.random })
    let (_, s) ← get
    return (s.random >>> 33).toUInt32.toInt32
  | 101 =>
    modify fun (console, s) => (console, { s with random := first.toUInt64 })
    return 0
  | _ => return -1

/-- Performs the service that the words of a call ask for. -/
def call (memory : Option Memory) (args : List UInt64) : Action UInt64 := do
  let words := args.map (·.toUInt32)
  let answer ← perform memory (words.headD 0) words.tail
  return answer.toUInt32.toUInt64

/-- The signature of the function that takes a number of arguments for a service. -/
def signature (count : Nat) : FuncType :=
  { params := List.replicate (count + 1) .i32, results := [.i32] }

/-- Binds the functions through which services are asked for. -/
def bind {H : Type} (code : H) (b : Bindings H) : Bindings H :=
  (List.range 7).foldl
    (fun b n => b.defineFunction moduleName s!"svc{n}" { type := signature n, code }) b

end Service

/-- A function that is not a method refuses a call with another number of words than it has
parameters. -/
def HostCall.checkArity {H : Type} (c : HostCall H) : Except HostFault Unit :=
  if c.args.length = c.type.params.length then .ok ()
  else
    .error (.raisedError
      s!"expected {c.type.params.length} args; got {c.args.length}")

end IntWasm
