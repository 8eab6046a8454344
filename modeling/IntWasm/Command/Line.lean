import IntWasm.Command.Dump
import IntWasm.Command.Run
import IntWasm.Command.Validate

/-!
# Command lines

A command line names a command, its flags and its arguments. Flags may stand anywhere behind the
name of the command; behind `--` everything is an argument. A flag has a long name behind two
dashes and may have a letter behind one. A value follows as the next word or behind an equals sign.
-/

namespace IntWasm.Command

/-- A flag that a command knows. -/
structure Flag where
  name : String
  letter : Option Char := none
  takesValue : Bool := true
  deriving Repr, DecidableEq, Inhabited

/-- The flags that were given, with their values, and the arguments. -/
structure Words where
  flags : List (String × String) := []
  args : List String := []
  deriving Repr, DecidableEq, Inhabited

namespace Words

/-- The value of a flag; the last one counts. -/
def value? (w : Words) (name : String) : Option String :=
  (w.flags.reverse.find? (·.1 = name)).map (·.2)

/-- The value of a flag that names something; the empty name is none. -/
def named? (w : Words) (name : String) : Option String :=
  (w.value? name).filter (· ≠ "")

/-- Whether a flag without a value was given. -/
def has (w : Words) (name : String) : Bool := w.value? name = some "true"

/-- Words with one more flag in front. -/
def withFlag (name value : String) (w : Words) : Words :=
  { w with flags := (name, value) :: w.flags }

/-- Words with one more argument in front. -/
def withArg (arg : String) (w : Words) : Words := { w with args := arg :: w.args }

end Words

/-- The part of a word before the first equals sign, and the part behind it if there is one. -/
def splitValue : List Char → List Char × Option (List Char)
  | [] => ([], none)
  | '=' :: rest => ([], some rest)
  | c :: rest =>
    let (name, value) := splitValue rest
    (c :: name, value)

/-- The flag that a word with its dashes names, and the value in the same word if there is one. -/
def flagOf (known : List Flag) (word : List Char) : Except String (Flag × Option String) :=
  let found (flag : Option Flag) (value : Option (List Char)) (fault : String) :
      Except String (Flag × Option String) :=
    match flag with
    | some flag => .ok (flag, value.map String.ofList)
    | none => .error fault
  match word with
  | '-' :: '-' :: rest =>
    let (name, value) := splitValue rest
    found (known.find? (·.name = String.ofList name)) value
      ("unknown flag: --" ++ String.ofList name)
  | '-' :: letter :: rest =>
    let value := match rest with
      | [] => none
      | '=' :: value => some value
      | value => some value
    found (known.find? (·.letter = some letter)) value
      ("unknown shorthand flag: '" ++ letter.toString ++ "' in " ++ String.ofList word)
  | word => .error ("bad flag syntax: " ++ String.ofList word)

/-- Tells the flags from the arguments. -/
def readWords (known : List Flag) : List String → Except String Words
  | [] => .ok {}
  | "--" :: rest => .ok { args := rest }
  | word :: rest =>
    match word.toList with
    | '-' :: c :: cs => do
      let (flag, value) ← flagOf known ('-' :: c :: cs)
      match value, flag.takesValue, rest with
      | some value, _, rest => return (← readWords known rest).withFlag flag.name value
      | none, false, rest => return (← readWords known rest).withFlag flag.name "true"
      | none, true, value :: rest => return (← readWords known rest).withFlag flag.name value
      | none, true, [] => throw ("flag needs an argument: " ++ word)
    | _ => return (← readWords known rest).withArg word
termination_by words => words.length

/-- What a command line asks for. -/
inductive Order where
  | run (options : RunOptions) (trace : Option String) (args : List String)
  | dump (options : DumpOptions) (args : List String)
  | validate (args : List String)
  deriving Repr, DecidableEq, Inhabited

namespace Order

/-- The flags for running programs. -/
def runFlags : List Flag :=
  [{ name := "invoke", letter := some 'i' }, { name := "config", letter := some 'c' },
    { name := "trace", letter := some 't' }, { name := "metrics", takesValue := false },
    { name := "seed" }]

/-- The flags for dumping. -/
def dumpFlags : List Flag :=
  [{ name := "trace", letter := some 't' },
    { name := "stats", letter := some 's', takesValue := false }]

/-- The seed that a word stands for. -/
def seedOf (word : String) : Except String UInt64 :=
  match Text.IntLiteral.signed 64 word.toList with
  | .ok n => .ok (UInt64.ofInt n)
  | .error _ => .error ("invalid argument " ++ Text.quote word ++ " for \"--seed\" flag")

/-- The order on a command line. -/
def ofLine : List String → Except String Order
  | "run" :: rest => do
    let w ← readWords runFlags rest
    let seed ← seedOf ((w.value? "seed").getD "0")
    let trace := w.named? "trace"
    return .run
      { invoke := (w.value? "invoke").getD "", config := w.named? "config"
        traced := trace.isSome, counted := w.has "metrics", seed } trace w.args
  | "dump" :: rest => do
    let w ← readWords dumpFlags rest
    return .dump { trace := w.named? "trace", statistics := w.has "stats" } w.args
  | "validate" :: rest => do return .validate (← readWords [] rest).args
  | name :: _ => .error ("unknown command " ++ Text.quote name)
  | [] => .error "expected one of the commands run, dump and validate"

/-- The paths of the files that an order reads. -/
def paths : Order → List String
  | run options _ args => args.take 1 ++ options.config.toList
  | dump options args => args.take 1 ++ options.trace.toList
  | validate args => args.take 1

/-- Carries an order out at a given time in nanoseconds. -/
def perform (files : Files) (now : Int) : Order → Report
  | run options _ args => Command.run files options now args
  | dump options args => Command.dump files options args
  | validate args => Command.validate files args

end Order

/-- The status that a command ends with: the one that the program asked for, or one for a failure.
-/
def Report.status (r : Report) : UInt32 :=
  match r.failure with
  | none => 0
  | some (.trapped { cause := some (.exit code), .. }) => code.toUInt32
  | some _ => 1

/-- The text of the failure, unless the program asked to end. -/
def Report.complaint (r : Report) : Option String :=
  match r.failure with
  | none => none
  | some (.trapped { cause := some (.exit _), .. }) => none
  | some e => some (e.message ++ "\n")

end IntWasm.Command
