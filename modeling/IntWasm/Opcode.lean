import IntWasm.Types

/-!
# Opcodes

The instructions of the supported integer subset, grouped by what they do; their bytes and names;
and the names of the instructions that other parts of the format define. Main facts: a byte stands
for at most one opcode, and every opcode is found again from its byte.
-/

namespace IntWasm

/-- Whether an operation reads its bits as a signed or an unsigned number. -/
inductive Sign where
  | signed
  | unsigned
  deriving Repr, DecidableEq, Inhabited

/-- An access or number narrower than 32 bits. -/
inductive Part where
  | byte
  | half
  deriving Repr, DecidableEq, Inhabited

/-- What a load reads: a whole integer, a part of one, or 32 bits of a 64-bit integer. -/
inductive LoadForm where
  | full (type : IntType)
  | part (type : IntType) (part : Part) (sign : Sign)
  | word (sign : Sign)
  deriving Repr, DecidableEq, Inhabited

/-- What a store writes: a whole integer, a part of one, or 32 bits of a 64-bit integer. -/
inductive StoreForm where
  | full (type : IntType)
  | part (type : IntType) (part : Part)
  | word
  deriving Repr, DecidableEq, Inhabited

/-- Comparisons of two integers. -/
inductive Comparison where
  | eq
  | ne
  | lt (sign : Sign)
  | gt (sign : Sign)
  | le (sign : Sign)
  | ge (sign : Sign)
  deriving Repr, DecidableEq, Inhabited

/-- Counts of the bits of one integer. -/
inductive Count where
  | clz
  | ctz
  | popcnt
  deriving Repr, DecidableEq, Inhabited

/-- Operations on two integers of one width that give a third. -/
inductive Arith where
  | add
  | sub
  | mul
  | div (sign : Sign)
  | rem (sign : Sign)
  | and
  | or
  | xor
  | shl
  | shr (sign : Sign)
  | rotl
  | rotr
  deriving Repr, DecidableEq, Inhabited

/-- The supported instructions without their immediates. -/
inductive Opcode where
  | unreachable
  | nop
  | block
  | loop
  | ifThen
  | otherwise
  | close
  | br
  | brIf
  | brTable
  | ret
  | call
  | callIndirect
  | drop
  | select
  | localGet
  | localSet
  | localTee
  | globalGet
  | globalSet
  | load (access : LoadForm)
  | store (access : StoreForm)
  | memorySize
  | memoryGrow
  | const (type : IntType)
  | eqz (type : IntType)
  | compare (type : IntType) (relation : Comparison)
  | count (type : IntType) (what : Count)
  | arith (type : IntType) (operation : Arith)
  | wrap
  | extend (sign : Sign)
  | extendPart (type : IntType) (part : Part)
  | extendWord
  deriving Repr, DecidableEq, Inhabited

/-! ## Names -/

/-- The name of a width. -/
def IntType.text : IntType → String
  | i32 => "i32"
  | i64 => "i64"

/-- The ending of a signed or unsigned operation's name. -/
def Sign.suffix : Sign → String
  | signed => "_s"
  | unsigned => "_u"

/-- The number of bits of a part. -/
def Part.bits : Part → Nat
  | byte => 8
  | half => 16

/-- The name of a load. -/
def LoadForm.text : LoadForm → String
  | full type => type.text ++ ".load"
  | part type size sign => type.text ++ ".load" ++ toString size.bits ++ sign.suffix
  | word sign => "i64.load32" ++ sign.suffix

/-- The name of a store. -/
def StoreForm.text : StoreForm → String
  | full type => type.text ++ ".store"
  | part type size => type.text ++ ".store" ++ toString size.bits
  | word => "i64.store32"

/-- The name of a comparison. -/
def Comparison.text : Comparison → String
  | eq => "eq"
  | ne => "ne"
  | lt sign => "lt" ++ sign.suffix
  | gt sign => "gt" ++ sign.suffix
  | le sign => "le" ++ sign.suffix
  | ge sign => "ge" ++ sign.suffix

/-- The name of a count. -/
def Count.text : Count → String
  | clz => "clz"
  | ctz => "ctz"
  | popcnt => "popcnt"

/-- The name of an arithmetic operation. -/
def Arith.text : Arith → String
  | add => "add"
  | sub => "sub"
  | mul => "mul"
  | div sign => "div" ++ sign.suffix
  | rem sign => "rem" ++ sign.suffix
  | and => "and"
  | or => "or"
  | xor => "xor"
  | shl => "shl"
  | shr sign => "shr" ++ sign.suffix
  | rotl => "rotl"
  | rotr => "rotr"

/-- The name of an opcode in the text format. -/
def Opcode.text : Opcode → String
  | unreachable => "unreachable"
  | nop => "nop"
  | block => "block"
  | loop => "loop"
  | ifThen => "if"
  | otherwise => "else"
  | close => "end"
  | br => "br"
  | brIf => "br_if"
  | brTable => "br_table"
  | ret => "return"
  | call => "call"
  | callIndirect => "call_indirect"
  | drop => "drop"
  | select => "select"
  | localGet => "local.get"
  | localSet => "local.set"
  | localTee => "local.tee"
  | globalGet => "global.get"
  | globalSet => "global.set"
  | load access => access.text
  | store access => access.text
  | memorySize => "memory.size"
  | memoryGrow => "memory.grow"
  | const type => type.text ++ ".const"
  | eqz type => type.text ++ ".eqz"
  | compare type relation => type.text ++ "." ++ relation.text
  | count type what => type.text ++ "." ++ what.text
  | arith type operation => type.text ++ "." ++ operation.text
  | wrap => "i32.wrap_i64"
  | extend sign => "i64.extend_i32" ++ sign.suffix
  | extendPart type part => type.text ++ ".extend" ++ toString part.bits ++ "_s"
  | extendWord => "i64.extend32_s"

/-! ## Bytes -/

/-- The place of a comparison among the ten of one width. -/
def Comparison.index : Comparison → UInt8
  | eq => 0
  | ne => 1
  | lt .signed => 2
  | lt .unsigned => 3
  | gt .signed => 4
  | gt .unsigned => 5
  | le .signed => 6
  | le .unsigned => 7
  | ge .signed => 8
  | ge .unsigned => 9

/-- The place of a count among the three of one width. -/
def Count.index : Count → UInt8
  | clz => 0
  | ctz => 1
  | popcnt => 2

/-- The place of an arithmetic operation among the fifteen of one width. -/
def Arith.index : Arith → UInt8
  | add => 0
  | sub => 1
  | mul => 2
  | div .signed => 3
  | div .unsigned => 4
  | rem .signed => 5
  | rem .unsigned => 6
  | and => 7
  | or => 8
  | xor => 9
  | shl => 10
  | shr .signed => 11
  | shr .unsigned => 12
  | rotl => 13
  | rotr => 14

/-- The byte of a load. -/
def LoadForm.byte : LoadForm → UInt8
  | full .i32 => 0x28
  | full .i64 => 0x29
  | part .i32 .byte .signed => 0x2c
  | part .i32 .byte .unsigned => 0x2d
  | part .i32 .half .signed => 0x2e
  | part .i32 .half .unsigned => 0x2f
  | part .i64 .byte .signed => 0x30
  | part .i64 .byte .unsigned => 0x31
  | part .i64 .half .signed => 0x32
  | part .i64 .half .unsigned => 0x33
  | word .signed => 0x34
  | word .unsigned => 0x35

/-- The byte of a store. -/
def StoreForm.byte : StoreForm → UInt8
  | full .i32 => 0x36
  | full .i64 => 0x37
  | part .i32 .byte => 0x3a
  | part .i32 .half => 0x3b
  | part .i64 .byte => 0x3c
  | part .i64 .half => 0x3d
  | word => 0x3e

/-- The byte that stands for an opcode in a binary. -/
def Opcode.byte : Opcode → UInt8
  | unreachable => 0x00
  | nop => 0x01
  | block => 0x02
  | loop => 0x03
  | ifThen => 0x04
  | otherwise => 0x05
  | close => 0x0b
  | br => 0x0c
  | brIf => 0x0d
  | brTable => 0x0e
  | ret => 0x0f
  | call => 0x10
  | callIndirect => 0x11
  | drop => 0x1a
  | select => 0x1b
  | localGet => 0x20
  | localSet => 0x21
  | localTee => 0x22
  | globalGet => 0x23
  | globalSet => 0x24
  | load access => access.byte
  | store access => access.byte
  | memorySize => 0x3f
  | memoryGrow => 0x40
  | const .i32 => 0x41
  | const .i64 => 0x42
  | eqz .i32 => 0x45
  | compare .i32 relation => 0x46 + relation.index
  | eqz .i64 => 0x50
  | compare .i64 relation => 0x51 + relation.index
  | count .i32 what => 0x67 + what.index
  | arith .i32 operation => 0x6a + operation.index
  | count .i64 what => 0x79 + what.index
  | arith .i64 operation => 0x7c + operation.index
  | wrap => 0xa7
  | extend .signed => 0xac
  | extend .unsigned => 0xad
  | extendPart .i32 .byte => 0xc0
  | extendPart .i32 .half => 0xc1
  | extendPart .i64 .byte => 0xc2
  | extendPart .i64 .half => 0xc3
  | extendWord => 0xc4

/-! ## Finding an opcode by its byte -/

namespace Opcode

/-- Both widths. -/
def widths : List IntType := [.i32, .i64]

/-- Both readings of bits. -/
def signs : List Sign := [.signed, .unsigned]

/-- Both narrow sizes. -/
def parts : List Part := [.byte, .half]

/-- All comparisons. -/
def comparisons : List Comparison :=
  [.eq, .ne] ++ signs.flatMap fun s => [.lt s, .gt s, .le s, .ge s]

/-- All arithmetic operations. -/
def ariths : List Arith :=
  [.add, .sub, .mul, .and, .or, .xor, .shl, .rotl, .rotr]
    ++ signs.flatMap fun s => [.div s, .rem s, .shr s]

/-- All supported opcodes. -/
def all : List Opcode :=
  [unreachable, nop, block, loop, ifThen, otherwise, close, br, brIf, brTable, ret, call,
    callIndirect, drop, select, localGet, localSet, localTee, globalGet, globalSet, memorySize,
    memoryGrow, wrap, extendWord, store .word]
  ++ signs.flatMap (fun s => [extend s, load (.word s)])
  ++ widths.flatMap fun t =>
    [load (.full t), store (.full t), const t, eqz t, count t .clz, count t .ctz, count t .popcnt]
    ++ comparisons.map (compare t)
    ++ ariths.map (arith t)
    ++ parts.flatMap fun p => [store (.part t p), extendPart t p]
      ++ signs.map fun s => load (.part t p s)

/-- The opcode of every byte that stands for one. -/
@[irreducible] def table : Array (Option Opcode) :=
  Array.ofFn fun (i : Fin 256) => all.find? fun op => op.byte = UInt8.ofNat i.val

/-- The opcode that a byte stands for. -/
def ofByte? (b : UInt8) : Option Opcode :=
  (table[b.toNat]?).join

end Opcode

/-! ## What other parts of the format define -/

namespace Opcode

/-- An instruction that the engine refuses: its name and the feature that it belongs to. -/
structure Refused where
  name : String
  feature : String
  deriving Repr, DecidableEq, Inhabited

/-- The opcodes of other features that have one byte, with that byte. -/
def refusedBytes : List (UInt8 × Refused) :=
  [(0x06, ⟨"try", "exception handling"⟩),
    (0x07, ⟨"catch", "exception handling"⟩),
    (0x08, ⟨"throw", "exception handling"⟩),
    (0x09, ⟨"rethrow", "exception handling"⟩),
    (0x0a, ⟨"throw_ref", "exception handling"⟩),
    (0x12, ⟨"return_call", "tail calls"⟩),
    (0x13, ⟨"return_call_indirect", "tail calls"⟩),
    (0x14, ⟨"call_ref", "typed function references"⟩),
    (0x15, ⟨"return_call_ref", "typed function references"⟩),
    (0x18, ⟨"delegate", "exception handling"⟩),
    (0x19, ⟨"catch_all", "exception handling"⟩),
    (0x1c, ⟨"select t", "reference types"⟩),
    (0x25, ⟨"table.get", "reference types"⟩),
    (0x26, ⟨"table.set", "reference types"⟩),
    (0xd0, ⟨"ref.null", "reference types"⟩),
    (0xd1, ⟨"ref.is_null", "reference types"⟩),
    (0xd2, ⟨"ref.func", "reference types"⟩)]

/-- The opcodes on floating-point numbers, with their bytes. -/
def floatBytes : List (UInt8 × String) :=
  [(0x2a, "f32.load"), (0x2b, "f64.load"), (0x38, "f32.store"), (0x39, "f64.store"),
    (0x43, "f32.const"), (0x44, "f64.const"),
    (0x5b, "f32.eq"), (0x5c, "f32.ne"), (0x5d, "f32.lt"), (0x5e, "f32.gt"), (0x5f, "f32.le"),
    (0x60, "f32.ge"), (0x61, "f64.eq"), (0x62, "f64.ne"), (0x63, "f64.lt"), (0x64, "f64.gt"),
    (0x65, "f64.le"), (0x66, "f64.ge"),
    (0x8b, "f32.abs"), (0x8c, "f32.neg"), (0x8d, "f32.ceil"), (0x8e, "f32.floor"),
    (0x8f, "f32.trunc"), (0x90, "f32.nearest"), (0x91, "f32.sqrt"), (0x92, "f32.add"),
    (0x93, "f32.sub"), (0x94, "f32.mul"), (0x95, "f32.div"), (0x96, "f32.min"), (0x97, "f32.max"),
    (0x98, "f32.copysign"), (0x99, "f64.abs"), (0x9a, "f64.neg"), (0x9b, "f64.ceil"),
    (0x9c, "f64.floor"), (0x9d, "f64.trunc"), (0x9e, "f64.nearest"), (0x9f, "f64.sqrt"),
    (0xa0, "f64.add"), (0xa1, "f64.sub"), (0xa2, "f64.mul"), (0xa3, "f64.div"), (0xa4, "f64.min"),
    (0xa5, "f64.max"), (0xa6, "f64.copysign"), (0xa8, "i32.trunc_f32_s"),
    (0xa9, "i32.trunc_f32_u"), (0xaa, "i32.trunc_f64_s"), (0xab, "i32.trunc_f64_u"),
    (0xae, "i64.trunc_f32_s"), (0xaf, "i64.trunc_f32_u"), (0xb0, "i64.trunc_f64_s"),
    (0xb1, "i64.trunc_f64_u"), (0xb2, "f32.convert_i32_s"), (0xb3, "f32.convert_i32_u"),
    (0xb4, "f32.convert_i64_s"), (0xb5, "f32.convert_i64_u"), (0xb6, "f32.demote_f64"),
    (0xb7, "f64.convert_i32_s"), (0xb8, "f64.convert_i32_u"), (0xb9, "f64.convert_i64_s"),
    (0xba, "f64.convert_i64_u"), (0xbb, "f64.promote_f32"), (0xbc, "i32.reinterpret_f32"),
    (0xbd, "i64.reinterpret_f64"), (0xbe, "f32.reinterpret_i32"), (0xbf, "f64.reinterpret_i64")]

/-- The refused instruction that a single byte stands for. -/
def refused? (b : UInt8) : Option Refused :=
  match refusedBytes.lookup b with
  | some r => some r
  | none => (floatBytes.lookup b).map fun name => ⟨name, "floating point"⟩

/-- The lead byte of the conversions and bulk operations. -/
def miscLead : UInt8 := 0xfc

/-- The lead byte of the vector instructions. -/
def vectorLead : UInt8 := 0xfd

/-- The lead byte of the atomic instructions. -/
def atomicLead : UInt8 := 0xfe

/-- Whether another number follows a byte to name a refused instruction. -/
def isLead (b : UInt8) : Bool := b = miscLead || b = vectorLead || b = atomicLead

/-- The instructions behind the first lead byte in the order of their numbers. -/
def misc : List Refused :=
  ["i32.trunc_sat_f32_s", "i32.trunc_sat_f32_u", "i32.trunc_sat_f64_s", "i32.trunc_sat_f64_u",
      "i64.trunc_sat_f32_s", "i64.trunc_sat_f32_u", "i64.trunc_sat_f64_s",
      "i64.trunc_sat_f64_u"].map (⟨·, "floating point"⟩)
    ++ ["memory.init", "data.drop", "memory.copy", "memory.fill", "table.init", "elem.drop",
      "table.copy"].map (⟨·, "bulk memory"⟩)
    ++ ["table.grow", "table.size", "table.fill"].map (⟨·, "reference types"⟩)

/-- The instruction that a lead byte and a number stand for. -/
def refusedAfter (lead : UInt8) (number : UInt32) : Refused :=
  if lead = miscLead then misc.getD number.toNat ⟨s!"0xfc {number}", "bulk memory"⟩
  else if lead = vectorLead then ⟨s!"simd 0xfd {number}", "SIMD"⟩
  else ⟨s!"atomic 0xfe {number}", "threads"⟩

/-- The name of the instruction that a byte stands for, supported or not. -/
def nameOf (b : UInt8) : String :=
  match ofByte? b, refused? b with
  | some op, _ => op.text
  | none, some r => r.name
  | none, none => "<unknown opcode " ++ Text.hexPadded 2 b.toNat ++ ">"

end Opcode

end IntWasm
