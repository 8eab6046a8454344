import IntWasm.Opcode
import IntWasm.Trap

/-!
# Integer operations

The functions that numeric instructions compute, on bit vectors of either width. Operands are kept
in 64-bit words; a 32-bit operation looks at the low half of its words and leaves the high half of
its result zero.
-/

namespace IntWasm

/-- The number of bits of a width. -/
def IntType.bits : IntType → Nat
  | i32 => 32
  | i64 => 64

/-- The integer of `n` bits in a word. -/
def ofWord (n : Nat) (w : UInt64) : BitVec n := w.toBitVec.setWidth n

/-- The word that holds an integer, with zeros above it. -/
def toWord {n : Nat} (x : BitVec n) : UInt64 := UInt64.ofBitVec (x.setWidth 64)

/-- The word for a truth value. -/
def boolWord (b : Bool) : UInt64 := if b then 1 else 0

namespace Numeric

variable {n : Nat}

/-- The quotient, rounded toward zero. -/
def div (sign : Sign) (a b : BitVec n) : Except Trap (BitVec n) :=
  if b = 0 then .error .divideByZero
  else
    match sign with
    | .unsigned => .ok (a / b)
    | .signed =>
      if a = BitVec.intMin n ∧ b = BitVec.allOnes n then .error .integerOverflow
      else .ok (a.sdiv b)

/-- The remainder, with the sign of the dividend. -/
def rem (sign : Sign) (a b : BitVec n) : Except Trap (BitVec n) :=
  if b = 0 then .error .divideByZero
  else
    match sign with
    | .unsigned => .ok (a % b)
    | .signed => if b = BitVec.allOnes n then .ok 0 else .ok (a.srem b)

/-- The result of an arithmetic operation. Counts of shifts and rotations are taken modulo the
width. -/
def arith (op : Arith) (a b : BitVec n) : Except Trap (BitVec n) :=
  match op with
  | .add => .ok (a + b)
  | .sub => .ok (a - b)
  | .mul => .ok (a * b)
  | .div sign => div sign a b
  | .rem sign => rem sign a b
  | .and => .ok (a &&& b)
  | .or => .ok (a ||| b)
  | .xor => .ok (a ^^^ b)
  | .shl => .ok (a <<< (b.toNat % n))
  | .shr .signed => .ok (a.sshiftRight (b.toNat % n))
  | .shr .unsigned => .ok (a >>> (b.toNat % n))
  | .rotl => .ok (a.rotateLeft (b.toNat % n))
  | .rotr => .ok (a.rotateRight (b.toNat % n))

/-- The truth of a comparison. -/
def compare (relation : Comparison) (a b : BitVec n) : Bool :=
  match relation with
  | .eq => a == b
  | .ne => a != b
  | .lt .signed => a.slt b
  | .lt .unsigned => a.ult b
  | .gt .signed => b.slt a
  | .gt .unsigned => b.ult a
  | .le .signed => a.sle b
  | .le .unsigned => a.ule b
  | .ge .signed => b.sle a
  | .ge .unsigned => b.ule a

/-- The result of a count. -/
def count (what : Count) (a : BitVec n) : BitVec n :=
  match what with
  | .clz => a.clz
  | .ctz => a.ctz
  | .popcnt => a.cpop

/-- The low `bits` bits as a signed number of the full width. -/
def signExtend (bits : Nat) (a : BitVec n) : BitVec n :=
  (a.setWidth bits).signExtend n

/-! ## On words -/

/-- An arithmetic operation on words. -/
def arithWord (type : IntType) (op : Arith) (a b : UInt64) : Except Trap UInt64 := do
  return toWord (← arith op (ofWord type.bits a) (ofWord type.bits b))

/-- A comparison of words. -/
def compareWord (type : IntType) (relation : Comparison) (a b : UInt64) : UInt64 :=
  boolWord (compare relation (ofWord type.bits a) (ofWord type.bits b))

/-- Whether a word is zero. -/
def eqzWord (type : IntType) (a : UInt64) : UInt64 := boolWord (ofWord type.bits a == 0)

/-- A count of the bits of a word. -/
def countWord (type : IntType) (what : Count) (a : UInt64) : UInt64 :=
  toWord (count what (ofWord type.bits a))

/-- A word with its low `bits` bits extended as a signed number. -/
def signExtendWord (type : IntType) (bits : Nat) (a : UInt64) : UInt64 :=
  toWord (signExtend bits (ofWord type.bits a))

/-- The low half of a word. -/
def wrapWord (a : UInt64) : UInt64 := toWord (ofWord 32 a)

/-- The low half of a word, extended to 64 bits. -/
def extendWord (sign : Sign) (a : UInt64) : UInt64 :=
  match sign with
  | .signed => toWord ((ofWord 32 a).signExtend 64)
  | .unsigned => toWord (ofWord 32 a)

end Numeric

end IntWasm
