import IntWasm.Bytes.Cursor
import IntWasm.Bytes.Sink

/-!
# Integers in groups of seven bits

An integer is a run of bytes, least significant group first; every byte but the last has its high
bit set. Reading is strict: an integer of `bits` bits has at most `bits / 7` bytes, rounded up, and
the spare bits of a last byte at that limit are zero (unsigned) or repeat the sign (signed).
Writing gives the shortest run.
-/

namespace IntWasm.Leb128

/-- The most bytes that an integer of `bits` bits may have. -/
def maxBytes (bits : Nat) : Nat := (bits + 6) / 7

/-- The payload bits that the last byte of an integer of full length may use. -/
def lastBits (bits : Nat) : Nat := bits - 7 * (maxBytes bits - 1)

/-- The first byte of an integer may be missing because the input has ended; a later one may not. -/
def nextByte (first : Bool) : Reader ReadFault UInt8 :=
  if first then Reader.byte else Reader.innerByte

/-- Puts the group of a byte into a word, behind the groups of `place` bytes. -/
def putGroup (b : UInt8) (place : Nat) (word : UInt64) : UInt64 :=
  word ||| (b &&& 0x7f).toUInt64 <<< (7 * place).toUInt64

/-- Copies the sign that the group of a byte shows into the bits behind that group, if there are
any. -/
def putSign (b : UInt8) (place : Nat) (word : UInt64) : UInt64 :=
  let shift := 7 * (place + 1)
  if shift < 64 ∧ b &&& 0x40 ≠ 0 then word ||| 0xffffffffffffffff <<< shift.toUInt64 else word

/-- Reads an unsigned integer of at most `left` more bytes, the last of which may use `used` bits.
The groups of the bytes before, of which there are `place`, are in the word already. -/
def unsignedWordFrom (used : Nat) : Nat → Nat → UInt64 → Reader ReadFault UInt64
  | 0, _, _ => throw .tooLong
  | left + 1, place, word => do
    let b ← nextByte (place = 0)
    if left = 0 ∧ b &&& 0x80 ≠ 0 then throw .tooLong
    if left = 0 ∧ b >>> used.toUInt8 ≠ 0 then throw .tooLarge
    if b &&& 0x80 = 0 then return putGroup b place word
    else unsignedWordFrom used left (place + 1) (putGroup b place word)

/-- The bits of a last byte that have to be alike: the sign and its copies. -/
def signMask (used : Nat) : UInt8 := 0x7f &&& ~~~(((1 : UInt8) <<< (used - 1).toUInt8) - 1)

/-- Reads a signed integer of at most `left` more bytes, the last of which may use `used` bits, into
a word in two's complement. The groups of the bytes before, of which there are `place`, are in the
word already. -/
def signedWordFrom (used : Nat) : Nat → Nat → UInt64 → Reader ReadFault UInt64
  | 0, _, _ => throw .tooLong
  | left + 1, place, word => do
    let b ← nextByte (place = 0)
    if left = 0 ∧ b &&& 0x80 ≠ 0 then throw .tooLong
    let upper := b &&& signMask used
    if left = 0 ∧ upper ≠ 0 ∧ upper ≠ signMask used then throw .signBits
    if b &&& 0x80 = 0 then return putSign b place (putGroup b place word)
    else signedWordFrom used left (place + 1) (putGroup b place word)

/-- Reads an unsigned integer of `bits` bits, which are at most 64. -/
def unsignedWord (bits : Nat) : Reader ReadFault UInt64 :=
  unsignedWordFrom (lastBits bits) (maxBytes bits) 0 0

/-- Reads a signed integer of `bits` bits, which are at most 64. -/
def signedWord (bits : Nat) : Reader ReadFault Int64 := do
  return (← signedWordFrom (lastBits bits) (maxBytes bits) 0 0).toInt64

/-- Reads an unsigned 32-bit integer. -/
def u32 : Reader ReadFault UInt32 := do
  return (← unsignedWord 32).toUInt32

/-- Reads an unsigned 64-bit integer. -/
def u64 : Reader ReadFault UInt64 :=
  unsignedWord 64

/-- Reads a signed 32-bit integer. -/
def s32 : Reader ReadFault Int32 := do
  return (← signedWord 32).toInt32

/-- Reads a signed 33-bit integer, the range of block types. -/
def s33 : Reader ReadFault Int := do
  return (← signedWord 33).toInt

/-- Reads a signed 64-bit integer. -/
def s64 : Reader ReadFault Int64 :=
  signedWord 64

/-- Reads an integer from the front of a byte string: its value, or the fault, and the number of
bytes used. An end of input is always a truncation here. -/
def decode {α : Type} (r : Reader ReadFault α) (bytes : List UInt8) : Except ReadFault α × Nat :=
  match r { rest := bytes } with
  | .ok a c => (.ok a, c.consumed)
  | .error e c => (.error e.inside, c.consumed)

/-- The byte with payload `n % 128`, marked if another byte follows. -/
def lowByte (n : Nat) (more : Bool) : UInt8 :=
  UInt8.ofNat (n % 128 + if more then 128 else 0)

/-- The shortest run of bytes for an unsigned number. -/
def encodeNat (n : Nat) : List UInt8 :=
  if n < 128 then [lowByte n false]
  else lowByte n true :: encodeNat (n / 128)
termination_by n

/-- The shortest run of bytes for a signed number. -/
def encodeInt (i : Int) : List UInt8 :=
  if -64 ≤ i ∧ i < 64 then [lowByte (i % 128).toNat false]
  else lowByte (i % 128).toNat true :: encodeInt (i / 128)
termination_by i.natAbs
decreasing_by omega

/-- The bytes of an unsigned 32-bit integer. -/
def encodeU32 (n : UInt32) : List UInt8 := encodeNat n.toNat

/-- The bytes of an unsigned 64-bit integer. -/
def encodeU64 (n : UInt64) : List UInt8 := encodeNat n.toNat

/-- The bytes of a signed 32-bit integer. -/
def encodeS32 (n : Int32) : List UInt8 := encodeInt n.toInt

/-- The bytes of a signed 64-bit integer. -/
def encodeS64 (n : Int64) : List UInt8 := encodeInt n.toInt

/-- Writes an unsigned 32-bit integer. -/
def writeU32 (n : UInt32) : Writer WriteFault Unit := Writer.bytes (encodeU32 n)

end IntWasm.Leb128
