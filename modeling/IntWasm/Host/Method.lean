import IntWasm.Host.Bindings

/-!
# Methods as functions

A value of the embedder can be bound as a module: each of its methods becomes a function whose name
begins with a small letter. A method takes integers of 32 or 64 bits, after the thread if it wants
to see it, and gives at most one of them; besides that it may fail.
-/

namespace IntWasm

/-- The type of a parameter or result of a method. -/
inductive HostType where
  | int32
  | uint32
  | int64
  | uint64
  /-- A type that functions cannot have. -/
  | other (name : String)
  deriving Repr, DecidableEq, Inhabited

namespace HostType

/-- The name of a type. -/
def text : HostType → String
  | int32 => "int32"
  | uint32 => "uint32"
  | int64 => "int64"
  | uint64 => "uint64"
  | other name => name

/-- The type of the words that stand for values of a type. -/
def valueType? : HostType → Option ValueType
  | int32 | uint32 => some .i32
  | int64 | uint64 => some .i64
  | other _ => none

/-- The number that a word stands for. -/
def decode (w : UInt64) : HostType → Int
  | int32 => w.toUInt32.toInt32.toInt
  | uint32 => w.toUInt32.toNat
  | int64 => w.toInt64.toInt
  | uint64 | other _ => w.toNat

/-- The word for a number; what does not fit is cut off. -/
def encode (n : Int) : HostType → UInt64
  | int32 | uint32 => (UInt32.ofInt n).toUInt64
  | int64 | uint64 | other _ => UInt64.ofInt n

end HostType

/-- The shape of a method. -/
structure Method where
  name : String
  takesThread : Bool := false
  params : List HostType := []
  results : List HostType := []
  mayFail : Bool := false
  deriving Repr, DecidableEq, Inhabited

/-- Why a value cannot be bound as a module. -/
inductive MethodFault where
  /-- There is no value. -/
  | absent
  | parameter (function : String) (type : HostType)
  | resultCount (function : String) (count : Nat)
  | result (function : String) (type : HostType)
  deriving Repr, DecidableEq, Inhabited

/-- The text that is shown for a fault. -/
def MethodFault.message : MethodFault → String
  | absent => "host module value must not be nil"
  | parameter function type =>
    function ++ ": cannot export method with parameter type " ++ type.text
  | resultCount function count => s!"{function}: cannot export method with {count} results"
  | result function type => function ++ ": cannot export method with return type " ++ type.text

namespace Method

/-- The small letter for a capital one, of the Latin letters in the first 256 characters. -/
def lower (c : Char) : Char :=
  if c.isUpper || ('À' ≤ c && c ≤ 'Þ' && c ≠ '×') then Char.ofNat (c.toNat + 32) else c

/-- The name of the function that a method becomes. -/
def functionName (m : Method) : String :=
  match m.name.toList with
  | [] => ""
  | c :: rest => String.ofList (lower c :: rest)

/-- The types of words for parameters. -/
def paramTypes (function : String) : List HostType → Except MethodFault (List ValueType)
  | [] => .ok []
  | t :: rest =>
    match t.valueType? with
    | none => .error (.parameter function t)
    | some v => do return v :: (← paramTypes function rest)

/-- The signature of the function that a method becomes. -/
def signature (m : Method) (function : String) : Except MethodFault FuncType := do
  let params ← paramTypes function m.params
  match m.results with
  | [] => return { params }
  | [t] =>
    match t.valueType? with
    | none => throw (.result function t)
    | some v => return { params, results := [v] }
  | results => throw (.resultCount function results.length)

/-- The numbers that the words of a call stand for. There have to be as many of them as parameters.
-/
def decodeArgs (m : Method) (words : List UInt64) : Except HostFault (List Int) :=
  if m.params.length < words.length then .error (.crashed (.index m.params.length m.params.length))
  else if words.length < m.params.length then
    .error (.raisedText "reflect: Call with too few input arguments")
  else .ok (m.params.zipWith (fun t w => t.decode w) words)

/-- The word for the result of a method, if it has one. -/
def encodeResult (m : Method) (n : Int) : Option UInt64 := m.results.head?.map fun t => t.encode n

end Method

namespace Bindings

variable {H : Type}

/-- The functions that methods become, by their names. Each method comes with its code. -/
def methodFunctions (moduleName : String) :
    List (Method × H) → Except MethodFault (List (String × HostFunction H))
  | [] => .ok []
  | (m, code) :: rest => do
    let type ← m.signature (key moduleName m.functionName)
    let fns ← methodFunctions moduleName rest
    return (m.functionName, { type, code }) :: fns

/-- Binds the methods of a value, all of them or none. -/
def defineMethods (b : Bindings H) (moduleName : String) (methods : Option (List (Method × H))) :
    Except MethodFault (Bindings H) :=
  match methods with
  | none => .error .absent
  | some methods => do
    let fns ← methodFunctions moduleName methods
    return fns.foldl (fun b (name, f) => b.defineFunction moduleName name f) b

end Bindings

end IntWasm
