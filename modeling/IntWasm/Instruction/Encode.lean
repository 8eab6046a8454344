import IntWasm.DecodeError
import IntWasm.Instruction.Basic
import IntWasm.Leb128

/-!
# The bytes of instructions

An instruction is its opcode byte and its immediates. Only supported opcodes can be written, and a
body is written only as a whole, up to and including the instruction that closes it.
-/

namespace IntWasm

/-- Why instructions could not be written. -/
inductive EncodeFault where
  /-- An opcode is not supported. -/
  | opcode (error : DecodeError)
  /-- A body does not end with the instruction that closes it. -/
  | unfinished
  | write (fault : WriteFault)
  deriving Repr, DecidableEq, Inhabited

/-- The text that is shown for a fault. -/
def EncodeFault.message : EncodeFault → String
  | opcode error => error.message
  | unfinished => ReadFault.truncated.message
  | write fault => fault.message

namespace Instruction

/-- The bytes of a block type. -/
def blockTypeBytes (immediate : UInt64) : List UInt8 :=
  if immediate &&& blockMark = 0 then Leb128.encodeInt immediate.toUInt32.toNat
  else [immediate.toUInt8]

/-- The bytes of the immediates of an instruction. -/
def immediateBytes (op : Opcode) (i : Instruction) : List UInt8 :=
  match op with
  | .block | .loop | .ifThen => blockTypeBytes i.immediate
  | .br | .brIf | .call | .localGet | .localSet | .localTee | .globalGet | .globalSet =>
    Leb128.encodeU32 i.index
  | .brTable =>
    Leb128.encodeNat i.labels.length
      ++ i.labels.flatMap (fun l => Leb128.encodeU32 (UInt32.ofInt l))
      ++ Leb128.encodeU32 i.index
  | .callIndirect => Leb128.encodeU32 i.index ++ [0]
  | .load _ | .store _ => Leb128.encodeU32 i.align ++ Leb128.encodeU32 i.index
  | .memorySize | .memoryGrow => [0]
  | .const .i32 => Leb128.encodeS32 i.index.toInt32
  | .const .i64 => Leb128.encodeS64 i.immediate.toInt64
  | _ => []

/-- The refusal of an opcode that is not supported. -/
def refusal (offset : Option Nat) (opcode : UInt8) : DecodeError :=
  match Opcode.refused? opcode with
  | some r => .unsupported offset r.name r.feature
  | none => { offset, kind := .unknownOpcode, opcode := Text.hexPadded 2 opcode.toNat }

/-- The bytes of an instruction that stands at a position of its body. -/
def bytesAt (position : Nat) (i : Instruction) : Except DecodeError (List UInt8) :=
  match i.op? with
  | none => .error (refusal (some position) i.opcode)
  | some op => .ok (i.opcode :: i.immediateBytes op)

/-- Writes a single instruction. -/
def write (i : Instruction) : Writer EncodeFault Unit :=
  match i.bytesAt 0 with
  | .error e => throw (.opcode e)
  | .ok bytes => Writer.lift .write (Writer.bytes bytes)

/-- The bytes of a body, the first of which is at `position`. -/
def bodyBytes (position : Nat) : List Instruction → Except EncodeFault (List UInt8)
  | [] => .error .unfinished
  | i :: rest => do
    let bytes ← (i.bytesAt position).mapError .opcode
    if rest.isEmpty ∧ i.opcode = Opcode.close.byte then return bytes
    let more ← bodyBytes (position + bytes.length) rest
    return bytes ++ more

/-- Writes a body in one piece. Nothing is written if it has an unsupported opcode or is not
closed. -/
def writeBody (body : List Instruction) : Writer EncodeFault Unit :=
  match bodyBytes 0 body with
  | .error e => throw e
  | .ok bytes => Writer.lift .write (Writer.bytes bytes)

/-! ## Constant expressions -/

/-- The constant expression that gives a 32-bit integer. -/
def i32ConstExpr (v : Int32) : List UInt8 :=
  (Opcode.const .i32).byte :: Leb128.encodeS32 v ++ [Opcode.close.byte]

/-- The constant expression that gives a 64-bit integer. -/
def i64ConstExpr (v : Int64) : List UInt8 :=
  (Opcode.const .i64).byte :: Leb128.encodeS64 v ++ [Opcode.close.byte]

/-- The constant expression that reads a global. -/
def globalGetExpr (index : UInt32) : List UInt8 :=
  Opcode.globalGet.byte :: Leb128.encodeU32 index ++ [Opcode.close.byte]

end Instruction

end IntWasm
