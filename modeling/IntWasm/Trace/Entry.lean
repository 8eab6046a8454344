import IntWasm.Instruction.Decode
import IntWasm.Module.Read
import IntWasm.Module.Write

/-!
# Execution traces

A trace is a run of entries: calls and returns, instructions with the height of the operand stack
before them, traps, and an end for every invocation. Reading accepts a trace that stops right after
an end entry.
-/

namespace IntWasm

/-- One entry of a trace. Texts are kept as bytes. -/
inductive TraceEntry where
  /-- A function of a module is entered. -/
  | enter (moduleName : List UInt8) (function : UInt32) (type : FuncType)
  /-- The innermost function is left. -/
  | leave
  /-- An instruction runs. -/
  | instruction (ip : Int) (instruction : Instruction) (height : Int)
  /-- A trap ends all functions that were entered. -/
  | trap (text : List UInt8) (ip : Int)
  /-- An invocation has ended. -/
  | finish
  deriving Repr, DecidableEq, Inhabited

namespace TraceEntry

/-- The byte that an entry begins with. -/
def mark : TraceEntry → UInt8
  | enter .. => 1
  | leave => 2
  | instruction .. => 3
  | finish => 4
  | trap .. => 5

/-- The longest text that can be read back. -/
def maxText : Nat := 65536

/-! ## Writing -/

/-- Writes a text with its size in front. -/
def writeText (bs : List UInt8) : Writer EncodeFault Unit :=
  Writer.lift .write (Encoder.sized bs)

/-- Writes the low 32 bits of a number. -/
def writeNumber (i : Int) : Writer EncodeFault Unit :=
  Writer.lift .write (Leb128.writeU32 (UInt32.ofInt i))

/-- Writes an entry. -/
def write (e : TraceEntry) : Writer EncodeFault Unit := do
  Writer.lift .write (Writer.byte e.mark)
  match e with
  | enter moduleName function type =>
    writeText moduleName
    Writer.lift .write (Leb128.writeU32 function)
    Writer.lift .write type.write
  | leave | finish => pure ()
  | instruction ip i height =>
    writeNumber ip
    i.write
    writeNumber height
  | trap text ip =>
    writeText text
    writeNumber ip

/-! ## Reading -/

/-- Exactly `n` bytes; if none of them is there, the input has ended before them. -/
def readFull (n : Nat) : Reader ReadFault (List UInt8) := fun c =>
  if n ≤ c.rest.length then .ok (c.rest.take n) (c.advance n)
  else if c.rest.isEmpty then .error c.ending.fault c
  else .error c.ending.fault.inside (c.advance c.rest.length)

/-- Reads a text. -/
def readText : Reader Fault (List UInt8) := do
  let n ← Reader.u32
  if maxText < n.toNat then
    throw (.decode { kind := .invalid, detail := s!"trace string too long ({n} bytes)" })
  Reader.plain (readFull n.toNat)

/-- Reads the contents of an entry that begins with a given byte. -/
def readAfter (mark : UInt8) : Reader Fault TraceEntry :=
  match mark with
  | 1 => do
    let moduleName ← readText
    let function ← Reader.u32
    let type ← FuncType.read
    return enter moduleName function type
  | 2 => return leave
  | 3 => do
    let ip ← Reader.u32
    let i ← Instruction.read
    let height ← Reader.u32
    return instruction ip.toNat i height.toNat
  | 4 => return finish
  | 5 => do
    let text ← readText
    let ip ← Reader.u32
    return trap text ip.toNat
  | mark =>
    throw (.decode
      { kind := .invalid, detail := "unknown trace entry kind " ++ Text.hex mark.toNat })

/-- What is found at a place of a trace. -/
inductive Next where
  | entry (e : TraceEntry)
  /-- The trace stops here, where it may. -/
  | stop
  deriving Repr, DecidableEq, Inhabited

/-- Reads the next entry. After an end entry the trace may stop, whatever the source says. -/
def readNext (last : Option TraceEntry) : Reader Fault Next := fun c =>
  match Reader.byte c with
  | .error e c => if last = some finish then .ok .stop c else .error (.read e) c
  | .ok mark c =>
    match readAfter mark c with
    | .ok e c => .ok (.entry e) c
    | .error e c => .error e c

/-- The entries that can be read, and the fault that ended reading, if any; each entry takes at
least a byte. -/
def readAll : Nat → Option TraceEntry → Cursor → List TraceEntry × Option Fault × Cursor
  | 0, _, c => ([], none, c)
  | fuel + 1, last, c =>
    match readNext last c with
    | .error e c => ([], some e, c)
    | .ok .stop c => ([], none, c)
    | .ok (.entry e) c =>
      let (entries, fault, c) := readAll fuel (some e) c
      (e :: entries, fault, c)

/-- Reads a trace as far as it goes. -/
def scan (c : Cursor) : List TraceEntry × Option Fault × Cursor :=
  readAll (c.rest.length + 1) none c

/-- Reads a whole trace. -/
def decode (c : Cursor) : Except Fault (List TraceEntry) :=
  match scan c with
  | (entries, none, _) => .ok entries
  | (_, some e, _) => .error e

end TraceEntry

end IntWasm
