import IntWasm.Text.Utf8
import IntWasm.Trace.Entry
import IntWasm.Trap

/-!
# Threads

A thread carries the state of one invocation: how many functions are open, how many may be, the
memory that functions of the embedder see, and whether a trace is written. The first failure to
write the trace ends tracing for this thread and nothing else.
-/

namespace IntWasm

/-- The state of one invocation. -/
structure Thread where
  /-- The place of the memory in the store. -/
  memory : Option Nat := none
  /-- The number of open functions. -/
  depth : Int := 0
  /-- The most functions that may be open. -/
  maxDepth : Int
  traced : Bool := false
  /-- The first failure to write the trace. -/
  fault : Option EncodeFault := none
  deriving Repr, DecidableEq, Inhabited

namespace Thread

/-- The depth of calls that is used where none is given. -/
def defaultDepth : Int := 1024

/-- A new thread; a depth that is not positive stands for the usual one. -/
def new (memory : Option Nat) (maxDepth : Int) (traced : Bool) : Thread :=
  { memory, traced, maxDepth := if maxDepth ≤ 0 then defaultDepth else maxDepth }

/-- Writes an entry of the trace, unless the thread is not traced or has failed to write before. -/
@[inline] def emit (t : Thread) (e : TraceEntry) (out : Sink) : Thread × Sink :=
  if t.traced && t.fault.isNone then
    match e.write out with
    | .ok _ out => (t, out)
    | .error fault out => ({ t with fault := some fault }, out)
  else (t, out)

/-- Whether no further function may be opened. -/
def isFull (t : Thread) : Bool := t.maxDepth ≤ t.depth

/-- The thread with one more function open. -/
def opened (t : Thread) (moduleName : String) (function : UInt32) (type : FuncType) (out : Sink) :
    Thread × Sink :=
  ({ t with depth := t.depth + 1 }).emit (.enter (Text.utf8 moduleName) function type) out

/-- Opens a function, if there is room for one more. -/
def enter (t : Thread) (moduleName : String) (function : UInt32) (type : FuncType)
    (out : Sink) : Except Trap (Thread × Sink) :=
  if t.isFull then .error .stackExhausted else .ok (t.opened moduleName function type out)

/-- Closes the innermost function. -/
def leave (t : Thread) (out : Sink) : Thread × Sink :=
  ({ t with depth := t.depth - 1 }).emit .leave out

/-- Notes an instruction that is about to run. -/
def instruction (t : Thread) (ip : Int) (i : Instruction) (height : Int) (out : Sink) :
    Thread × Sink :=
  t.emit (.instruction ip i height) out

/-- Closes all functions because of a trap. -/
def trapped (t : Thread) (trap : Trap) (ip : Int) (out : Sink) : Thread × Sink :=
  ({ t with depth := 0 }).emit (.trap (Text.utf8 trap.text) ip) out

/-- Ends the invocation. The thread tells whether its trace was written. -/
def close (t : Thread) (out : Sink) : Thread × Sink :=
  t.emit .finish out

end Thread

end IntWasm
