import IntWasm.Command.Basic
import IntWasm.Engine.Instantiate
import IntWasm.Host.Service
import IntWasm.Text.IntLiteral

/-!
# Running a program

The command instantiates a module with the system services, invokes one of its functions with the
other arguments and prints the results. Without a name it is the first of two usual entry points
that the module exports. Counters and the trace are reported however the run ends.
-/

namespace IntWasm.Command

/-- How to run a program. -/
structure RunOptions where
  /-- The function to invoke; the empty name stands for the usual entry points. -/
  invoke : String := ""
  /-- The path of a configuration. -/
  config : Option String := none
  traced : Bool := false
  counted : Bool := false
  /-- The seed of the random numbers. -/
  seed : UInt64 := 0
  deriving Repr, DecidableEq, Inhabited

/-- The store of a run. The only functions of the embedder are the services. -/
abbrev World := Store Unit (Console × Service)

/-- The functions that a program can import: the system services. -/
def services : Host Unit (Console × Service) where
  call _ c := do
    match c.checkArity with
    | .error e => throw { fault := e }
    | .ok _ => fun w =>
      let memory := c.memory.bind fun address => w.memories[address]?
      match Service.call memory c.args w.host with
      | .ok answer host => .ok (some answer) { w with host }
      | .error e host => .error { fault := e } { w with host }

/-- The functions that are tried as entry points. -/
def entryPoints : List String := ["_start", "main"]

/-- The function to invoke and its signature. -/
def entryPoint (w : World) (address : Nat) (name : String) : Except Failure (String × FuncType) :=
  if name ≠ "" then
    match Engine.functionType w address name with
    | .ok type => .ok (name, type)
    | .error e => .error e.toFailure
  else
    let found := entryPoints.findSome? fun name =>
      match Engine.functionType w address name with
      | .ok type => some (name, type)
      | .error _ => none
    match found with
    | some entry => .ok entry
    | none => .error (.text "module exports neither _start nor main; use --invoke")

/-- The number that an argument stands for, with or without a sign. -/
def parseNumber (bits : Nat) (literal : String) : Except Text.LiteralFault Int :=
  match Text.IntLiteral.signed bits literal.toList with
  | .ok n => .ok n
  | .error _ => (Text.IntLiteral.unsigned bits literal.toList).map fun n => (n : Int)

/-- The value that the argument at a given place stands for. -/
def parseArgument (index : Nat) (type : ValueType) (literal : String) : Except Failure Value :=
  let refuse (reason : String) : Failure := .text (s!"argument {index}: " ++ reason)
  let number (bits : Nat) : Except Failure Int :=
    (parseNumber bits literal).mapError fun e => refuse (e.message literal)
  if type = .i32 then (number 32).map fun n => .ofI32 (Int32.ofInt n)
  else if type = .i64 then (number 64).map fun n => .ofI64 (Int64.ofInt n)
  else .error (refuse ("unsupported type " ++ type.text))

/-- The values that arguments stand for, from the index `i` on. -/
def parseFrom (i : Nat) : List (ValueType × String) → Except Failure (List Value)
  | [] => .ok []
  | (type, literal) :: rest => do
    let v ← parseArgument i type literal
    let vs ← parseFrom (i + 1) rest
    return v :: vs

/-- The values that arguments stand for as the parameters of a function. -/
def parseArguments (type : FuncType) (args : List String) : Except Failure (List Value) :=
  if args.length ≠ type.params.length then
    .error (.text s!"expected {type.params.length} arguments, got {args.length}")
  else parseFrom 0 (type.params.zip args)

/-- A computation of a run. -/
abbrev Action := EStateM Failure World

/-- A part of a run that fails in its own way. -/
def Action.lift {ε α : Type} (fail : ε → Failure) (act : EStateM ε World α) : Action α := fun w =>
  match act w with
  | .ok a w => .ok a w
  | .error e w => .error (fail e) w

/-- A part of a run that does not change the world. -/
def Action.require {α : Type} (r : Except Failure α) : Action α :=
  match r with
  | .ok a => pure a
  | .error e => throw e

/-- Instantiates a module and invokes a function of it. -/
def execute (m : Module) (config : Config) (name : String) (args : List String) :
    Action (List Value) := do
  let resolver := (Service.bind () ({} : Bindings Unit)).resolver
  let address ← Action.lift InstantiateError.toFailure
    (Engine.instantiate services Engine.ampleFuel Engine.ampleFuel m (some resolver) config)
  let (name, type) ← Action.require (entryPoint (← get) address name)
  let values ← Action.require (parseArguments type args)
  Action.lift InvokeError.toFailure
    (Engine.invoke services Engine.ampleFuel Engine.ampleFuel address name values)

/-- The configuration in a file, or the default one. -/
def loadConfig (files : Files) (path : Option String) : Except Failure Config :=
  match path with
  | none => .ok {}
  | some path => do
    let bytes ← openFile files "" path
    match String.fromUTF8? ⟨bytes.toArray⟩ with
    | some text => (Config.parse text).mapError (·.toFailure)
    | none => .error .unreadableConfig

/-- The world at the beginning of a run: the time, the services and a trace. -/
def startingWorld (now : Int) (seed : UInt64) : World :=
  { host := ({ now }, .new now seed), traces := #[{}] }

/-- What is left behind by a run that began. -/
def reportRun (options : RunOptions) (w : World) (failure : Option Failure) (values : List Value) :
    Report :=
  { failure
    output := w.host.1.output.kept.toList ++ Text.utf8 (String.join (values.map (·.text ++ "\n")))
    diagnostics := if options.counted then w.counters.text else ""
    trace := (w.traces[0]?.map (·.kept.toList)).getD [] }

/-- Runs a module. -/
def runModule (options : RunOptions) (now : Int) (m : Module) (config : Config)
    (args : List String) : Report :=
  let config :=
    { config with counted := options.counted, trace := if options.traced then some 0 else none }
  match execute m config options.invoke args (startingWorld now options.seed) with
  | .ok values w => reportRun options w none values
  | .error e w => reportRun options w (some e) []

/-- Runs the program whose path is the first argument at a given time in nanoseconds. -/
def run (files : Files) (options : RunOptions) (now : Int) (args : List String) : Report :=
  match args with
  | [] => .failed (.text "expected at least one argument")
  | path :: args =>
    let loaded : Except Failure (Module × Config) := do
      let m ← loadModule files "" path
      let config ← loadConfig files options.config
      return (m, config)
    match loaded with
    | .error e => .failed e
    | .ok (m, config) => runModule options now m config args

end IntWasm.Command
