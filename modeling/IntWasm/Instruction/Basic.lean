import IntWasm.Opcode

/-!
# Instructions

An instruction is an opcode byte, one number as its immediate and a list of labels. The immediate of
a block holds its type and, in bits 32 to 62, the operand stack height at its entry. The labels of a
block say where branches to it go on; those of a branch table are its cases.
-/

namespace IntWasm

/-- One instruction. -/
structure Instruction where
  /-- The byte that names the instruction. -/
  opcode : UInt8
  immediate : UInt64 := 0
  labels : List Int := []
  deriving Repr, DecidableEq, Inhabited

namespace Instruction

/-! ## Immediates -/

/-- The bit that marks a block type given by a value type or by nothing. -/
def blockMark : UInt64 := 0x8000000000000000

/-- The bits of an immediate that hold a block type. -/
def blockMask : UInt64 := 0x80000000ffffffff

/-- The bits of an immediate that hold a stack height. -/
def heightMask : UInt64 := 0x7fffffff00000000

/-- The block type of the byte `b`. -/
def blockCode (b : UInt8) : UInt64 := b.toUInt64 ||| blockMark

/-- A block that gives nothing. -/
def blockEmpty : UInt64 := blockCode 0x40

/-- A block that gives a 32-bit integer. -/
def blockI32 : UInt64 := blockCode 0x7f

/-- A block that gives a 64-bit integer. -/
def blockI64 : UInt64 := blockCode 0x7e

/-- The opcode, if it is a supported one. -/
def op? (i : Instruction) : Option Opcode := Opcode.ofByte? i.opcode

/-- The immediate as an index or an offset. -/
def index (i : Instruction) : UInt32 := i.immediate.toUInt32

/-- The alignment exponent of a memory access. -/
def align (i : Instruction) : UInt32 := (i.immediate >>> 32).toUInt32

/-- The operand stack height at the entry of a block, above the locals. -/
def height (i : Instruction) : Nat := ((i.immediate &&& heightMask) >>> 32).toNat

/-- The types of the values that a block gives. -/
def blockResults (i : Instruction) : List ValueType :=
  let type := i.immediate &&& blockMask
  if type = blockI32 then [.i32]
  else if type = blockI64 then [.i64]
  else []

/-- The number of values that a branch to a block carries. A loop is entered anew and takes none. -/
def arity (i : Instruction) : Nat :=
  if i.opcode = Opcode.loop.byte then 0 else i.blockResults.length

/-- Where a branch to a block goes on. -/
def continuation (i : Instruction) : Option Int := i.labels[0]?

/-- Where the second arm of a conditional begins. -/
def elseLabel (i : Instruction) : Option Int := i.labels[1]?

/-- The immediate of a memory access. -/
def memoryImmediate (offset align : UInt32) : UInt64 :=
  (align.toUInt64 <<< 32) ||| offset.toUInt64

end Instruction

/-- The alignment exponent that fits the width of a load. -/
def LoadForm.naturalAlign : LoadForm → UInt32
  | full .i32 | word _ => 2
  | full .i64 => 3
  | part _ .byte _ => 0
  | part _ .half _ => 1

/-- The alignment exponent that fits the width of a store. -/
def StoreForm.naturalAlign : StoreForm → UInt32
  | full .i32 | word => 2
  | full .i64 => 3
  | part _ .byte => 0
  | part _ .half => 1

namespace Instruction

/-- The alignment exponent that fits an access; other opcodes have that of the widest one. -/
def naturalAlign (opcode : UInt8) : UInt32 :=
  match Opcode.ofByte? opcode with
  | some (.load access) => access.naturalAlign
  | some (.store access) => access.naturalAlign
  | _ => 3

/-! ## Building instructions -/

/-- An instruction without immediates. -/
def plain (op : Opcode) : Instruction := { opcode := op.byte }

/-- A block, loop or conditional of a given type. -/
def opening (op : Opcode) (type : UInt64) : Instruction := { opcode := op.byte, immediate := type }

/-- An instruction whose immediate is an index. -/
def indexed (op : Opcode) (index : UInt32) : Instruction :=
  { opcode := op.byte, immediate := index.toUInt64 }

/-- A branch whose label may be any number. -/
def branch (op : Opcode) (label : Int) : Instruction :=
  { opcode := op.byte, immediate := UInt64.ofInt label }

/-- A branch table. The last label is for all other cases. -/
def branchTable (first : Int) (more : List Int) : Instruction :=
  let labels := first :: more
  { opcode := Opcode.brTable.byte
    immediate := UInt64.ofInt (labels.getLastD 0)
    labels := labels.dropLast }

/-- A memory access with a given alignment exponent. -/
def access (opcode : UInt8) (offset align : UInt32) : Instruction :=
  { opcode, immediate := memoryImmediate offset align }

/-- A constant of 32 bits. -/
def i32Const (v : Int32) : Instruction :=
  { opcode := (Opcode.const .i32).byte, immediate := v.toInt64.toUInt64 }

/-- A constant of 64 bits. -/
def i64Const (v : Int64) : Instruction :=
  { opcode := (Opcode.const .i64).byte, immediate := v.toUInt64 }

/-! ## Text -/

/-- The name of the opcode, as far as it is supported. -/
def opText (i : Instruction) : String :=
  match i.op? with
  | some op => op.text
  | none => "invalid"

/-- The text of a block's result. -/
def blockText (i : Instruction) : String :=
  match i.blockResults with
  | [t] => " (result " ++ t.text ++ ")"
  | _ => ""

/-- The text of a memory access: an offset other than zero and an alignment other than the natural
one are shown. -/
def accessText (i : Instruction) : String :=
  let offset := if i.index = 0 then "" else " offset=" ++ toString i.index.toNat
  let align :=
    if i.align = naturalAlign i.opcode then ""
    else " align=" ++ toString (if i.align < 32 then Nat.pow 2 i.align.toNat else 0)
  offset ++ align

/-- The text of an instruction. -/
def text (i : Instruction) : String :=
  i.opText ++
    match i.op? with
    | some .block | some .loop | some .ifThen => i.blockText
    | some .brTable =>
      String.join (i.labels.map fun l => " " ++ toString l) ++ " " ++ toString i.index.toNat
    | some .callIndirect => " (type " ++ toString i.index.toNat ++ ")"
    | some (.const .i32) => " " ++ toString i.index.toInt32.toInt
    | some (.const .i64) => " " ++ toString i.immediate.toInt64.toInt
    | some (.load _) | some (.store _) => i.accessText
    | some .br | some .brIf | some .call | some .localGet | some .localSet | some .localTee
    | some .globalGet | some .globalSet => " " ++ toString i.index.toNat
    | _ => ""

end Instruction

end IntWasm
