import IntWasm.DecodeError
import IntWasm.Instruction.Encode
import IntWasm.Leb128

/-!
# Reading instructions

There are two readers. `Instruction.ofBytes` takes the next instruction off the front of a body,
where the end of the bytes is always premature. `Instruction.read` takes one from a stream, where
the end of input before an instruction is an ordinary end.
-/

namespace IntWasm.Instruction

/-- The block type that a single byte stands for. -/
def blockTypeOf (b : UInt8) : Except DecodeError UInt64 :=
  match b with
  | 0x40 | 0x7f | 0x7e => .ok (blockCode b)
  | 0x7d => .error (.unsupported none "f32" "floating point")
  | 0x7c => .error (.unsupported none "f64" "floating point")
  | 0x7b => .error (.unsupported none "v128" "SIMD")
  | 0x70 | 0x6f => .error (.unsupported none "reference" "reference types")
  | _ =>
    .error { kind := .invalidValueType, detail := "invalid block type " ++ Text.hex b.toNat }

/-- A block type given by an index, which only blocks with parameters or several results need. -/
def indexedBlock (index : Int) : DecodeError :=
  .unsupported none ("block type " ++ toString index) "multi-value"

/-! ## From a body -/

/-- A number from the front of a body, and the bytes after it. -/
def number {α : Type} (r : Reader ReadFault α) (bytes : List UInt8) :
    Except Fault (α × List UInt8) :=
  match Leb128.decode r bytes with
  | (.ok a, n) => .ok (a, bytes.drop n)
  | (.error e, _) => .error (.read e)

/-- A block type from the front of a body. -/
def blockType (bytes : List UInt8) : Except Fault (UInt64 × List UInt8) :=
  match bytes with
  | [] => .error (.read .truncated)
  | b :: rest =>
    if b &&& 0x80 = 0 ∧ b &&& 0x40 ≠ 0 then
      match blockTypeOf b with
      | .ok type => .ok (type, rest)
      | .error e => .error (.decode e)
    else
      match number Leb128.s33 bytes with
      | .error e => .error e
      | .ok (index, _) =>
        if 0 ≤ index then .error (.decode (indexedBlock index))
        else .error (.decode
          { kind := .invalidValueType, detail := "invalid block type " ++ toString index })

/-- The labels of a branch table: as many as are announced, and one more. -/
def tableLabels : Nat → List UInt8 → Except Fault (List Int × List UInt8)
  | 0, bytes => .ok ([], bytes)
  | n + 1, bytes => do
    let (label, bytes) ← number Leb128.u32 bytes
    let (labels, bytes) ← tableLabels n bytes
    return (label.toNat :: labels, bytes)

/-- A byte that has to be zero because other values belong to a feature that is not supported. -/
def reserved (what feature : String) : List UInt8 → Except Fault (List UInt8)
  | [] => .error (.read .truncated)
  | b :: rest => if b = 0 then .ok rest else .error (.decode (.unsupported none what feature))

/-- The refusal of a byte that does not begin a supported instruction. -/
def refuseByte (opcode : UInt8) (rest : List UInt8) : Fault :=
  if Opcode.isLead opcode then
    match number Leb128.u32 rest with
    | .error e => e
    | .ok (sub, _) =>
      let r := Opcode.refusedAfter opcode sub
      .decode (.unsupported none r.name r.feature)
  else .decode (refusal none opcode)

/-- The immediate and the labels of an instruction from the front of a body. -/
def immediates (op : Opcode) (bytes : List UInt8) :
    Except Fault (UInt64 × List Int × List UInt8) :=
  match op with
  | .block | .loop | .ifThen => do
    let (type, bytes) ← blockType bytes
    return (type, [], bytes)
  | .br | .brIf | .call | .localGet | .localSet | .localTee | .globalGet | .globalSet => do
    let (index, bytes) ← number Leb128.u32 bytes
    return (index.toUInt64, [], bytes)
  | .brTable => do
    let (count, bytes) ← number Leb128.u32 bytes
    -- Each label takes a byte, so a count beyond that is refused before labels are read.
    if bytes.length < count.toNat then throw (.read .truncated)
    let (labels, bytes) ← tableLabels count.toNat bytes
    let (default, bytes) ← number Leb128.u32 bytes
    return (default.toUInt64, labels, bytes)
  | .callIndirect => do
    let (index, bytes) ← number Leb128.u32 bytes
    let bytes ← reserved "call_indirect table index" "reference types" bytes
    return (index.toUInt64, [], bytes)
  | .load _ | .store _ => do
    let (align, bytes) ← number Leb128.u32 bytes
    let (offset, bytes) ← number Leb128.u32 bytes
    return (memoryImmediate offset align, [], bytes)
  | .memorySize | .memoryGrow => do
    let bytes ← reserved "memory index" "multiple memories" bytes
    return (0, [], bytes)
  | .const .i32 => do
    let (value, bytes) ← number Leb128.s32 bytes
    return (value.toInt64.toUInt64, [], bytes)
  | .const .i64 => do
    let (value, bytes) ← number Leb128.s64 bytes
    return (value.toUInt64, [], bytes)
  | _ => return (0, [], bytes)

/-- The next instruction of a body and the bytes after it. -/
def ofBytes (bytes : List UInt8) : Except Fault (Instruction × List UInt8) :=
  match bytes with
  | [] => .error (.read .truncated)
  | opcode :: rest =>
    match Opcode.ofByte? opcode with
    | none => .error (refuseByte opcode rest)
    | some op => do
      let (immediate, labels, rest) ← immediates op rest
      return ({ opcode, immediate, labels }, rest)

/-! ## From a stream -/

/-- Reads a byte that has to be zero. -/
def readReserved (what feature : String) : Reader Fault Unit := do
  let b ← Reader.plain Reader.byte
  if b ≠ 0 then throw (.decode (.unsupported none what feature))

/-- Reads a block type. -/
def readBlockType : Reader Fault UInt64 := do
  let n ← Reader.plain Leb128.s64
  -- The type is read as a number with a sign, of which any spelling will do.
  if 0 ≤ n then throw (.decode (indexedBlock n.toInt))
  match blockTypeOf (n.toUInt64 &&& 0x7f).toUInt8 with
  | .ok type => return type
  | .error e => throw (.decode e)

/-- Reads an index as an immediate. -/
def readIndex : Reader Fault UInt64 := do
  return (← Reader.plain Leb128.u32).toUInt64

/-- Reads the immediate and the labels of an instruction. -/
def readImmediates (op : Opcode) : Reader Fault (UInt64 × List Int) :=
  match op with
  | .block | .loop | .ifThen => do return (← readBlockType, [])
  | .br | .brIf | .call | .localGet | .localSet | .localTee | .globalGet | .globalSet => do
    return (← readIndex, [])
  | .brTable => do
    let count ← Reader.plain Leb128.u32
    let labels ← Reader.times count.toNat fun _ => Reader.plain Leb128.u32
    return (← readIndex, labels.map fun l => (l.toNat : Int))
  | .callIndirect => do
    let index ← readIndex
    readReserved "call_indirect table index" "reference types"
    return (index, [])
  | .load _ | .store _ => do
    let align ← Reader.plain Leb128.u32
    let offset ← Reader.plain Leb128.u32
    return (memoryImmediate offset align, [])
  | .memorySize | .memoryGrow => do
    readReserved "memory index" "multiple memories"
    return (0, [])
  | .const .i32 => do return ((← Reader.plain Leb128.s32).toInt64.toUInt64, [])
  | .const .i64 => do return ((← Reader.plain Leb128.s64).toUInt64, [])
  | _ => return (0, [])

/-- Reads the next instruction of a stream. -/
def read : Reader Fault Instruction := do
  let opcode ← Reader.plain Reader.byte
  match Opcode.ofByte? opcode with
  | none => throw (.decode (refusal none opcode))
  | some op =>
    let (immediate, labels) ← readImmediates op
    return { opcode, immediate, labels }

end IntWasm.Instruction
