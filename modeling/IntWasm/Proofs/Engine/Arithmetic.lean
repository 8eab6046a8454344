import IntWasm.Proofs.Engine.Dispatch
import IntWasm.Proofs.Opcode
import IntWasm.Proofs.Outcome
import Mathlib.Tactic.Ring

/-!
# What numeric instructions compute

A numeric instruction reads its operands as numbers below `2 ^ n`, where `n` is the number of their
bits, and gives an integer of which the low bits are kept. The functions that it computes are
written down here over natural numbers and integers, without words or bit vectors, and a step of the
machine is shown to compute them. Main statement: `numeric_instructions_compute`.
-/

namespace IntWasm

/-! ## Numbers and words -/

/-- The number that the low `n` bits of a word write down. -/
def residue (n : Nat) (w : UInt64) : Nat := w.toNat % 2 ^ n

/-- The word whose low `n` bits write down an integer modulo `2 ^ n`, with zeros above. -/
def numeral (n : Nat) (v : Int) : UInt64 := UInt64.ofNat (v % 2 ^ n).toNat

/-- The integer that the `n` bits of a number stand for. -/
def Sign.read (n : Nat) : Sign → Nat → Int
  | unsigned, a => a
  | signed, a => if a < 2 ^ (n - 1) then a else a - 2 ^ n

/-- The bits of a number, the lowest first. -/
def bitsOf (n a : Nat) : List Bool := (List.range n).map a.testBit

/-- The integer that a word stands for. -/
def IntType.read (type : IntType) (sign : Sign) (w : UInt64) : Int :=
  sign.read type.bits (residue type.bits w)

/-! ## Functions on numbers -/

/-- The quotient, rounded toward zero. -/
def Sign.quotient (n : Nat) (sign : Sign) (a b : Nat) : Except Trap Int :=
  if b = 0 then .error .divideByZero
  else if sign = signed ∧ sign.read n a = -2 ^ (n - 1) ∧ sign.read n b = -1
    then .error .integerOverflow
  else .ok ((sign.read n a).tdiv (sign.read n b))

/-- What is left of a dividend by the quotient. -/
def Sign.remainder (n : Nat) (sign : Sign) (a b : Nat) : Except Trap Int :=
  if b = 0 then .error .divideByZero else .ok ((sign.read n a).tmod (sign.read n b))

/-- An operation on two numbers of `n` bits. -/
def Arith.result (n : Nat) (op : Arith) (a b : Nat) : Except Trap Int :=
  match op with
  | add => .ok (a + b)
  | sub => .ok (a - b)
  | mul => .ok (a * b)
  | div sign => sign.quotient n a b
  | rem sign => sign.remainder n a b
  | and => .ok (a &&& b : Nat)
  | or => .ok (a ||| b : Nat)
  | xor => .ok (a ^^^ b : Nat)
  | shl => .ok (a * 2 ^ (b % n))
  | shr sign => .ok (sign.read n a / 2 ^ (b % n))
  | rotl => .ok (a * 2 ^ (b % n) + a / 2 ^ (n - b % n))
  | rotr => .ok (a / 2 ^ (b % n) + a * 2 ^ (n - b % n))

/-- Whether two numbers of `n` bits are related. -/
def Comparison.result (n : Nat) (relation : Comparison) (a b : Nat) : Bool :=
  match relation with
  | eq => a = b
  | ne => a ≠ b
  | lt sign => sign.read n a < sign.read n b
  | gt sign => sign.read n a > sign.read n b
  | le sign => sign.read n a ≤ sign.read n b
  | ge sign => sign.read n a ≥ sign.read n b

/-- The number of zeros before the highest one, of zeros before the lowest one, or of ones. -/
def Count.result (n : Nat) (what : Count) (a : Nat) : Nat :=
  match what with
  | clz => (bitsOf n a).reverse.findIdx id
  | ctz => (bitsOf n a).findIdx id
  | popcnt => (bitsOf n a).count true

namespace Opcode

/-- The number of bits of each operand of a numeric instruction. -/
def operandBits : Opcode → Nat
  | eqz type | compare type _ | count type _ | arith type _ | extendPart type _ => type.bits
  | extend _ => 32
  | _ => 64

/-- The number of bits of the result of a numeric instruction. -/
def resultBits : Opcode → Nat
  | count type _ | arith type _ | extendPart type _ => type.bits
  | extend _ | extendWord => 64
  | _ => 32

/-- The integer that a numeric instruction gives for its only operand. -/
def unary? : Opcode → Option (Nat → Int)
  | eqz _ => some fun a => if a = 0 then 1 else 0
  | count type what => some fun a => what.result type.bits a
  | wrap => some fun a => a
  | extend sign => some (sign.read 32)
  | extendPart _ part => some fun a => Sign.signed.read part.bits (a % 2 ^ part.bits)
  | extendWord => some fun a => Sign.signed.read 32 (a % 2 ^ 32)
  | _ => none

/-- The integer that a numeric instruction gives for two operands, the lower one first. -/
def binary? : Opcode → Option (Nat → Nat → Except Trap Int)
  | compare type relation => some fun a b => .ok (if relation.result type.bits a b then 1 else 0)
  | arith type operation => some (operation.result type.bits)
  | _ => none

end Opcode

/-! ## Bit vectors -/

/-- An integer type has bits. -/
theorem IntType.bits_pos (type : IntType) : 0 < type.bits := by cases type <;> decide

/-- An integer type fits a word of the stack. -/
theorem IntType.bits_le (type : IntType) : type.bits ≤ 64 := by cases type <;> decide

/-- The low bits of a word are its residue. -/
theorem toNat_ofWord (n : Nat) (w : UInt64) : (ofWord n w).toNat = residue n w := by
  rw [ofWord, BitVec.toNat_setWidth, UInt64.toNat_toBitVec, residue]

/-- A residue is less than the modulus. -/
theorem residue_lt (n : Nat) (w : UInt64) : residue n w < 2 ^ n := Nat.mod_lt _ (Nat.two_pow_pos n)

/-- The bits of an integer are its residue. -/
theorem toNat_ofInt_emod (n : Nat) (v : Int) : (BitVec.ofInt n v).toNat = (v % 2 ^ n).toNat := by
  rw [BitVec.toNat_ofInt]
  norm_cast

/-- The word of an integer's low bits. -/
theorem toWord_ofInt {n : Nat} (v : Int) : toWord (BitVec.ofInt n v) = numeral n v := by
  apply UInt64.toNat_inj.mp
  rw [toWord, numeral, UInt64.toNat_ofBitVec, BitVec.toNat_setWidth, UInt64.toNat_ofNat',
    toNat_ofInt_emod]

/-- Bits are put on the stack as the number that they write. -/
theorem toWord_eq_numeral {n : Nat} (x : BitVec n) : toWord x = numeral n x.toNat := by
  rw [← toWord_ofInt, BitVec.ofInt_natCast, BitVec.ofNat_toNat, BitVec.setWidth_eq]

/-- Reading bits with a sign is two's complement. -/
theorem Sign.read_signed {n : Nat} (hn : 0 < n) (x : BitVec n) :
    signed.read n x.toNat = x.toInt := by
  have hhalf : 2 ^ n = 2 * 2 ^ (n - 1) := by
    rw [← Nat.pow_succ', Nat.succ_eq_add_one, Nat.sub_add_cancel hn]
  rw [BitVec.toInt_eq_toNat_cond, read]
  by_cases hlow : x.toNat < 2 ^ (n - 1)
  · rw [if_pos hlow, if_pos (by omega)]
  · rw [if_neg hlow, if_neg (by omega)]
    norm_cast

/-- Reading bits without a sign is the number that they write. -/
theorem Sign.read_unsigned (n a : Nat) : unsigned.read n a = a := rfl

namespace Numeric

variable {n : Nat}

/-- All ones are minus one. -/
theorem eq_allOnes_iff (hn : 0 < n) (x : BitVec n) :
    x = BitVec.allOnes n ↔ Sign.signed.read n x.toNat = -1 := by
  rw [Sign.read_signed hn, ← BitVec.toInt_inj, BitVec.toInt_allOnes, if_pos hn]

/-- The top bit alone is the least integer. -/
theorem eq_intMin_iff (hn : 0 < n) (x : BitVec n) :
    x = BitVec.intMin n ↔ Sign.signed.read n x.toNat = -2 ^ (n - 1) := by
  have hlt : 2 ^ (n - 1) < 2 ^ n := Nat.pow_lt_pow_right (by decide) (by omega)
  rw [Sign.read_signed hn, ← BitVec.toInt_inj, BitVec.toInt_intMin, Nat.mod_eq_of_lt hlt]
  norm_cast

/-- Division is that of the integers that are read, or the same trap. -/
theorem div_eq (hn : 0 < n) (sign : Sign) (x y : BitVec n) :
    div sign x y = (sign.quotient n x.toNat y.toNat).map (BitVec.ofInt n) := by
  have hzero : y = 0 ↔ y.toNat = 0 := by rw [← BitVec.toNat_inj]; rfl
  unfold div Sign.quotient
  by_cases hy : y.toNat = 0
  · rw [if_pos (hzero.mpr hy), if_pos hy]
    rfl
  · rw [if_neg (mt hzero.mp hy), if_neg hy]
    cases sign with
    | unsigned =>
      simp only [reduceCtorEq, false_and, if_false, Sign.read_unsigned, Except.map,
        ← Int.ofNat_tdiv, BitVec.ofInt_natCast, ← BitVec.toNat_udiv, BitVec.ofNat_toNat,
        BitVec.setWidth_eq]
    | signed =>
      simp only [true_and, eq_allOnes_iff hn, eq_intMin_iff hn]
      split
      · rfl
      · refine congrArg Except.ok (BitVec.eq_of_toInt_eq ?_)
        rw [BitVec.toInt_sdiv, BitVec.toInt_ofInt, Sign.read_signed hn, Sign.read_signed hn]

/-- The remainder is that of the integers that are read, or the same trap. -/
theorem rem_eq (hn : 0 < n) (sign : Sign) (x y : BitVec n) :
    rem sign x y = (sign.remainder n x.toNat y.toNat).map (BitVec.ofInt n) := by
  have hzero : y = 0 ↔ y.toNat = 0 := by rw [← BitVec.toNat_inj]; rfl
  unfold rem Sign.remainder
  by_cases hy : y.toNat = 0
  · rw [if_pos (hzero.mpr hy), if_pos hy]
    rfl
  · rw [if_neg (mt hzero.mp hy), if_neg hy]
    cases sign with
    | unsigned =>
      simp only [Sign.read_unsigned, Except.map, ← Int.ofNat_tmod, BitVec.ofInt_natCast,
        ← BitVec.toNat_umod, BitVec.ofNat_toNat, BitVec.setWidth_eq]
    | signed =>
      by_cases hminus : y = BitVec.allOnes n
      · rw [if_pos hminus, (eq_allOnes_iff hn y).mp hminus, Int.tmod_neg, Int.tmod_one]
        simp [Except.map]
      · simp only [hminus, if_false, Except.map, Sign.read_signed hn]
        rw [← BitVec.toInt_srem, BitVec.ofInt_toInt]

/-- The bits that a shift moves out at one end are those that a rotation moves in at the other. -/
theorem rotated_eq {a k : Nat} (ha : a < 2 ^ n) (hk : k ≤ n) :
    a <<< k % 2 ^ n ||| a >>> (n - k) = (a * 2 ^ k + a / 2 ^ (n - k)) % 2 ^ n := by
  have hsplit : 2 ^ n = 2 ^ k * 2 ^ (n - k) := by rw [← Nat.pow_add, Nat.add_sub_cancel' hk]
  have hlow : a / 2 ^ (n - k) < 2 ^ k := Nat.div_lt_of_lt_mul (by rwa [Nat.mul_comm, ← hsplit])
  have hhigh : a * 2 ^ k % 2 ^ n = (a % 2 ^ (n - k)) <<< k := by
    rw [hsplit, Nat.shiftLeft_eq, Nat.mul_comm a, Nat.mul_mod_mul_left, Nat.mul_comm]
  have hsmall : a / 2 ^ (n - k) % 2 ^ n = a / 2 ^ (n - k) :=
    Nat.mod_eq_of_lt (hlow.trans_le (Nat.pow_le_pow_right (by decide) hk))
  have hmod : a % 2 ^ (n - k) + 1 ≤ 2 ^ (n - k) := Nat.mod_lt _ (Nat.two_pow_pos _)
  have hfits : (a % 2 ^ (n - k)) <<< k + a / 2 ^ (n - k) < 2 ^ n :=
    calc (a % 2 ^ (n - k)) <<< k + a / 2 ^ (n - k)
        < (a % 2 ^ (n - k)) * 2 ^ k + 2 ^ k := by rw [Nat.shiftLeft_eq]; omega
      _ = (a % 2 ^ (n - k) + 1) * 2 ^ k := by ring
      _ ≤ 2 ^ (n - k) * 2 ^ k := Nat.mul_le_mul_right _ hmod
      _ = 2 ^ n := by rw [hsplit, Nat.mul_comm]
  rw [Nat.add_mod, hsmall, hhigh, Nat.mod_eq_of_lt hfits, Nat.shiftLeft_eq a, hhigh,
    Nat.shiftRight_eq_div_pow, Nat.shiftLeft_add_eq_or_of_lt hlow]

/-- The bits of a natural number are its residue. -/
theorem toNat_ofInt_natCast (a : Nat) : (BitVec.ofInt n a).toNat = a % 2 ^ n := by
  rw [BitVec.ofInt_natCast, BitVec.toNat_ofNat]

/-- Rotating left multiplies, and what leaves at the top comes in at the bottom. -/
theorem rotateLeft_eq (hn : 0 < n) (x : BitVec n) (k : Nat) :
    x.rotateLeft (k % n) =
      BitVec.ofInt n (x.toNat * 2 ^ (k % n) + x.toNat / 2 ^ (n - k % n) : Nat) := by
  apply BitVec.eq_of_toNat_eq
  rw [BitVec.toNat_rotateLeft, Nat.mod_mod, toNat_ofInt_natCast]
  exact rotated_eq x.isLt (Nat.mod_lt k hn).le

/-- Rotating right divides, and what leaves at the bottom comes in at the top. -/
theorem rotateRight_eq (hn : 0 < n) (x : BitVec n) (k : Nat) :
    x.rotateRight (k % n) =
      BitVec.ofInt n (x.toNat / 2 ^ (k % n) + x.toNat * 2 ^ (n - k % n) : Nat) := by
  have hk := (Nat.mod_lt k hn).le
  apply BitVec.eq_of_toNat_eq
  have hrotated := rotated_eq x.isLt (Nat.sub_le n (k % n))
  rw [Nat.sub_sub_self hk] at hrotated
  rw [BitVec.toNat_rotateRight, Nat.mod_mod, toNat_ofInt_natCast, Nat.or_comm,
    hrotated, Nat.add_comm]

/-- Shifting left multiplies by a power of two. -/
theorem shiftLeft_eq (x : BitVec n) (k : Nat) :
    x <<< k = BitVec.ofInt n (x.toNat * 2 ^ k : Nat) := by
  apply BitVec.eq_of_toNat_eq
  rw [BitVec.toNat_shiftLeft, Nat.shiftLeft_eq, toNat_ofInt_natCast]

/-- Shifting right divides by a power of two. -/
theorem ushiftRight_eq (x : BitVec n) (k : Nat) :
    x >>> k = BitVec.ofInt n (x.toNat / 2 ^ k : Nat) := by
  apply BitVec.eq_of_toNat_eq
  rw [BitVec.toNat_ushiftRight, Nat.shiftRight_eq_div_pow, toNat_ofInt_natCast, Nat.mod_eq_of_lt]
  exact (Nat.div_le_self _ _).trans_lt x.isLt

/-- Shifting right with a sign divides the integer and rounds down. -/
theorem sshiftRight_eq (hn : 0 < n) (x : BitVec n) (k : Nat) :
    x.sshiftRight k = BitVec.ofInt n (Sign.signed.read n x.toNat / 2 ^ k) := by
  rw [Sign.read_signed hn]
  have hshift : (x.sshiftRight k).toInt = x.toInt / 2 ^ k := by
    rw [BitVec.toInt_sshiftRight, Int.shiftRight_eq_div_pow]
    norm_cast
  rw [← hshift, BitVec.ofInt_toInt]

/-- Operations on bit vectors compute integers modulo `2 ^ n`. -/
theorem arith_eq (hn : 0 < n) (op : Arith) (x y : BitVec n) :
    arith op x y = (op.result n x.toNat y.toNat).map (BitVec.ofInt n) := by
  have hself (z : BitVec n) : BitVec.ofInt n z.toNat = z := by
    rw [BitVec.ofInt_natCast, BitVec.ofNat_toNat, BitVec.setWidth_eq]
  cases op with
  | add => exact congrArg Except.ok (by rw [BitVec.ofInt_add, hself, hself])
  | sub =>
    refine congrArg Except.ok ?_
    rw [Int.sub_eq_add_neg, BitVec.ofInt_add, BitVec.ofInt_neg, hself, hself, BitVec.sub_eq_add_neg]
  | mul => exact congrArg Except.ok (by rw [BitVec.ofInt_mul, hself, hself])
  | div sign => exact div_eq hn sign x y
  | rem sign => exact rem_eq hn sign x y
  | and => exact congrArg Except.ok (by rw [← BitVec.toNat_and, hself])
  | or => exact congrArg Except.ok (by rw [← BitVec.toNat_or, hself])
  | xor => exact congrArg Except.ok (by rw [← BitVec.toNat_xor, hself])
  | shl => exact congrArg Except.ok (by rw [shiftLeft_eq]; norm_cast)
  | shr sign =>
    cases sign with
    | unsigned => exact congrArg Except.ok (by rw [ushiftRight_eq, Sign.read_unsigned]; norm_cast)
    | signed => exact congrArg Except.ok (sshiftRight_eq hn x _)
  | rotl => exact congrArg Except.ok (by rw [rotateLeft_eq hn]; norm_cast)
  | rotr => exact congrArg Except.ok (by rw [rotateRight_eq hn]; norm_cast)

/-- Words are compared as the numbers that they are read as. -/
theorem compare_eq (hn : 0 < n) (relation : Comparison) (x y : BitVec n) :
    compare relation x y = relation.result n x.toNat y.toNat := by
  have hequal : (x == y) = decide (x.toNat = y.toNat) := by
    rw [Bool.eq_iff_iff, beq_iff_eq, decide_eq_true_iff, BitVec.toNat_inj]
  cases relation with
  | eq => exact hequal
  | ne => simp [compare, Comparison.result, bne, hequal]
  | lt sign =>
    cases sign with
    | unsigned => simp [compare, Comparison.result, BitVec.ult_eq_decide, Sign.read_unsigned]
    | signed => simp [compare, Comparison.result, BitVec.slt_eq_decide, Sign.read_signed hn]
  | gt sign =>
    cases sign with
    | unsigned => simp [compare, Comparison.result, BitVec.ult_eq_decide, Sign.read_unsigned]
    | signed => simp [compare, Comparison.result, BitVec.slt_eq_decide, Sign.read_signed hn]
  | le sign =>
    cases sign with
    | unsigned => simp [compare, Comparison.result, BitVec.ule_eq_decide, Sign.read_unsigned]
    | signed => simp [compare, Comparison.result, BitVec.sle_eq_decide, Sign.read_signed hn]
  | ge sign =>
    cases sign with
    | unsigned => simp [compare, Comparison.result, BitVec.ule_eq_decide, Sign.read_unsigned]
    | signed => simp [compare, Comparison.result, BitVec.sle_eq_decide, Sign.read_signed hn]

/-- A number of n bits has n bits. -/
theorem length_bitsOf (a : Nat) : (bitsOf n a).length = n := by simp [bitsOf]

/-- The bits of a number, from the least one on. -/
theorem getElem_bitsOf {a i : Nat} (hi : i < (bitsOf n a).length) :
    (bitsOf n a)[i] = a.testBit i := by
  simp [bitsOf]

/-- A bit list of which nothing is one below a place, and which is one there or ends there. -/
theorem findIdx_eq {bits : List Bool} {k : Nat} (hk : k ≤ bits.length)
    (hbelow : ∀ i (hi : i < bits.length), i < k → bits[i] = false)
    (hat : ∀ hlt : k < bits.length, bits[k] = true) : bits.findIdx id = k := by
  by_cases hlt : k < bits.length
  · exact (List.findIdx_eq hlt).mpr ⟨hat hlt, fun j hj => hbelow j (hj.trans hlt) hj⟩
  · obtain rfl : k = bits.length := by omega
    refine List.findIdx_eq_length.mpr fun b hb => ?_
    obtain ⟨i, hi, rfl⟩ := List.getElem_of_mem hb
    exact hbelow i hi hi

/-- Leading zeros are counted from the top to the first bit that is set. -/
theorem clz_eq (hn : 0 < n) (x : BitVec n) :
    x.clz.toNat = (bitsOf n x.toNat).reverse.findIdx id := by
  have hle : x.clz.toNat ≤ n := by
    have hbound := BitVec.le_def.mp (BitVec.clz_le (x := x))
    rwa [BitVec.natCast_eq_ofNat, BitVec.toNat_ofNat,
      Nat.mod_eq_of_lt Nat.lt_two_pow_self] at hbound
  refine (findIdx_eq (by simpa [length_bitsOf] using hle) (fun i hi hbelow => ?_)
    fun hlt => ?_).symm
  · rw [List.length_reverse, length_bitsOf] at hi
    rw [List.getElem_reverse, getElem_bitsOf, length_bitsOf]
    refine Nat.testBit_lt_two_pow (BitVec.toNat_lt_two_pow_sub_clz.trans_le ?_)
    exact Nat.pow_le_pow_right (by decide) (by omega)
  · rw [List.length_reverse, length_bitsOf] at hlt
    have hne : x ≠ 0#n := by
      rintro rfl
      rw [BitVec.clz_eq_iff_eq_zero.mpr rfl, BitVec.natCast_eq_ofNat, BitVec.toNat_ofNat,
        Nat.mod_eq_of_lt Nat.lt_two_pow_self] at hlt
      exact hlt.false
    rw [List.getElem_reverse, getElem_bitsOf, length_bitsOf]
    exact BitVec.getLsbD_true_clz_of_ne_zero hn hne

/-- Trailing zeros are counted from the bottom to the first bit that is set. -/
theorem ctz_eq (x : BitVec n) : x.ctz.toNat = (bitsOf n x.toNat).findIdx id := by
  have hle : x.ctz.toNat ≤ n := by
    have hbound := BitVec.le_def.mp (BitVec.clz_le (x := x.reverse))
    rwa [BitVec.natCast_eq_ofNat, BitVec.toNat_ofNat,
      Nat.mod_eq_of_lt Nat.lt_two_pow_self] at hbound
  refine (findIdx_eq (by simpa [length_bitsOf] using hle) (fun i hi hbelow => ?_)
    fun hlt => ?_).symm
  · rw [getElem_bitsOf]
    exact BitVec.getLsbD_false_of_lt_ctz hbelow
  · rw [length_bitsOf] at hlt
    have hne : x ≠ 0#n := by
      refine BitVec.ctz_lt_iff_ne_zero.mp (BitVec.lt_def.mpr ?_)
      rwa [BitVec.natCast_eq_ofNat, BitVec.toNat_ofNat, Nat.mod_eq_of_lt Nat.lt_two_pow_self]
    rw [getElem_bitsOf]
    exact BitVec.getLsbD_true_ctz_of_ne_zero hne

/-- The population count is the number of bits that are set. -/
theorem cpop_eq (x : BitVec n) : x.cpop.toNat = (bitsOf n x.toNat).count true := by
  have hlow (k : Nat) : x.cpopNatRec k 0 = ((List.range k).map x.toNat.testBit).count true := by
    induction k with
    | zero => rfl
    | succ k ih =>
      rw [BitVec.cpopNatRec_succ, BitVec.cpopNatRec_eq, ih, List.range_succ, List.map_append,
        List.count_append, List.map_singleton, BitVec.testBit_toNat]
      cases x.getLsbD k <;> rfl
  rw [BitVec.toNat_cpop, hlow n, bitsOf]

/-- All three counts are those of the list of bits. -/
theorem count_eq (hn : 0 < n) (what : Count) (x : BitVec n) :
    (count what x).toNat = what.result n x.toNat := by
  cases what with
  | clz => exact clz_eq hn x
  | ctz => exact ctz_eq x
  | popcnt => exact cpop_eq x

/-- A signed number of fewer bits is taken for the same number. -/
theorem signExtend_eq {m : Nat} (hm : 0 < m) (hmn : m ≤ n) (x : BitVec m) :
    x.signExtend n = BitVec.ofInt n (Sign.signed.read m x.toNat) := by
  rw [Sign.read_signed hm, ← BitVec.toInt_signExtend_of_le hmn, BitVec.ofInt_toInt]

/-! ## Words -/

/-- A residue of fewer bits is taken from one of more. -/
theorem residue_mod {m : Nat} (hmn : m ≤ n) (w : UInt64) : residue n w % 2 ^ m = residue m w :=
  Nat.mod_mod_of_dvd _ (Nat.pow_dvd_pow 2 hmn)

/-- A truth value is the number 1 or 0. -/
theorem boolWord_eq (b : Bool) : boolWord b = numeral 32 (if b then 1 else 0) := by cases b <;> rfl

/-- Arithmetic on words is arithmetic on their residues. -/
theorem arithWord_eq (type : IntType) (op : Arith) (a b : UInt64) :
    arithWord type op a b =
      numeral type.bits <$> op.result type.bits (residue type.bits a) (residue type.bits b) := by
  rw [arithWord, arith_eq type.bits_pos, toNat_ofWord, toNat_ofWord]
  cases op.result type.bits (residue type.bits a) (residue type.bits b) with
  | error t => rfl
  | ok v => exact congrArg Except.ok (toWord_ofInt v)

/-- A comparison of words is one of their residues. -/
theorem compareWord_eq (type : IntType) (relation : Comparison) (a b : UInt64) :
    compareWord type relation a b = numeral 32
      (if relation.result type.bits (residue type.bits a) (residue type.bits b) then 1 else 0) := by
  rw [compareWord, boolWord_eq, compare_eq type.bits_pos, toNat_ofWord, toNat_ofWord]

/-- A word is zero if its residue is, whatever stands above the type's bits. -/
theorem eqzWord_eq (type : IntType) (a : UInt64) :
    eqzWord type a = numeral 32 (if residue type.bits a = 0 then 1 else 0) := by
  have hzero : (ofWord type.bits a == 0) = decide (residue type.bits a = 0) := by
    rw [Bool.eq_iff_iff, beq_iff_eq, decide_eq_true_iff, ← toNat_ofWord, ← BitVec.toNat_inj]
    rfl
  rw [eqzWord, boolWord_eq, hzero]
  simp only [decide_eq_true_eq]

/-- A count on a word is that of its residue's bits. -/
theorem countWord_eq (type : IntType) (what : Count) (a : UInt64) :
    countWord type what a = numeral type.bits (what.result type.bits (residue type.bits a)) := by
  rw [countWord, toWord_eq_numeral, count_eq type.bits_pos, toNat_ofWord]

/-- Sign extension reads the low bits with a sign. -/
theorem signExtendWord_eq_numeral {type : IntType} {bits : Nat} (hpos : 0 < bits)
    (hle : bits ≤ type.bits) (a : UInt64) :
    signExtendWord type bits a =
      numeral type.bits (Sign.signed.read bits (residue type.bits a % 2 ^ bits)) := by
  rw [signExtendWord, signExtend, signExtend_eq hpos hle, toWord_ofInt, BitVec.toNat_setWidth,
    toNat_ofWord]

/-- Wrapping keeps the number modulo 2 to the 32. -/
theorem wrapWord_eq (a : UInt64) : wrapWord a = numeral 32 (residue 64 a) := by
  rw [wrapWord, toWord_eq_numeral, toNat_ofWord, numeral, numeral,
    ← residue_mod (n := 64) (by decide) a]
  norm_cast
  rw [Nat.mod_mod]

/-- Extension reads 32 bits as the sign says. -/
theorem extendWord_eq (sign : Sign) (a : UInt64) :
    extendWord sign a = numeral 64 (sign.read 32 (residue 32 a)) := by
  cases sign with
  | signed => rw [extendWord, signExtend_eq (by decide) (by decide), toWord_ofInt, toNat_ofWord]
  | unsigned =>
    have hlt : residue 32 a < 2 ^ 64 := (residue_lt 32 a).trans (by decide)
    have hint : ((residue 32 a : Int) % 2 ^ 64).toNat = residue 32 a := by
      rw [Int.emod_eq_of_lt (by omega) (by exact_mod_cast hlt), Int.toNat_natCast]
    have hint' : ((residue 32 a : Int) % 2 ^ 32).toNat = residue 32 a := by
      rw [Int.emod_eq_of_lt (by omega) (by exact_mod_cast residue_lt 32 a), Int.toNat_natCast]
    rw [extendWord, toWord_eq_numeral, toNat_ofWord, Sign.read, numeral, numeral, hint, hint']

end Numeric

/-! ## Steps -/

namespace Activation

variable {H σ : Type} {f : Activation} {rest : List UInt64}

/-- An instruction with one operand replaces it by the value of its function. -/
theorem step_unary {inst : Instance H} {i : Instruction} {op : Opcode} {g : Nat → Int} {a : UInt64}
    (hop : i.op? = some op) (hg : op.unary? = some g) (hoperands : f.operands = a :: rest)
    (hroom : rest.length < f.room) (s : Store H σ) :
    step inst f i s =
      .ok (.go { f with operands := numeral op.resultBits (g (residue op.operandBits a)) :: rest })
        s := by
  have hpart (part : Part) : 0 < part.bits ∧ ∀ type : IntType, part.bits ≤ type.bits := by
    cases part <;> exact ⟨by decide, fun type => by cases type <;> decide⟩
  rw [step_of_op hop]
  cases op with
  | eqz type =>
    obtain rfl := Option.some.inj hg
    simp only [stepLocal, unary_eq hoperands hroom, Numeric.eqzWord_eq]
    rfl
  | count type what =>
    obtain rfl := Option.some.inj hg
    simp only [stepLocal, unary_eq hoperands hroom, Numeric.countWord_eq]
    rfl
  | wrap =>
    obtain rfl := Option.some.inj hg
    simp only [stepLocal, unary_eq hoperands hroom, Numeric.wrapWord_eq]
    rfl
  | extend sign =>
    obtain rfl := Option.some.inj hg
    simp only [stepLocal, unary_eq hoperands hroom, Numeric.extendWord_eq]
    rfl
  | extendPart type part =>
    obtain rfl := Option.some.inj hg
    simp only [stepLocal, unary_eq hoperands hroom,
      Numeric.signExtendWord_eq_numeral (hpart part).1 ((hpart part).2 type)]
    rfl
  | extendWord =>
    obtain rfl := Option.some.inj hg
    simp only [stepLocal, unary_eq hoperands hroom,
      @Numeric.signExtendWord_eq_numeral .i64 32 (by decide) (by decide)]
    rfl
  | _ => cases hg

/-- An instruction with two operands replaces them by the value of its function, or traps as that
does. -/
theorem step_binary {inst : Instance H} {i : Instruction} {op : Opcode}
    {g : Nat → Nat → Except Trap Int} {a b : UInt64} (hop : i.op? = some op)
    (hg : op.binary? = some g) (hoperands : f.operands = b :: a :: rest)
    (hroom : rest.length < f.room) (s : Store H σ) :
    step inst f i s =
      match g (residue op.operandBits a) (residue op.operandBits b) with
      | .ok v => .ok (.go { f with operands := numeral op.resultBits v :: rest }) s
      | .error t => .error (.trap t) s := by
  rw [step_of_op hop]
  cases op with
  | compare type relation =>
    obtain rfl := Option.some.inj hg
    simp only [stepLocal, binary_eq hoperands hroom, Numeric.compareWord_eq]
    rfl
  | arith type operation =>
    obtain rfl := Option.some.inj hg
    simp only [stepLocal, binary_eq hoperands hroom, Numeric.arithWord_eq, Opcode.operandBits]
    cases operation.result type.bits (residue type.bits a) (residue type.bits b) <;> rfl
  | _ => cases hg

end Activation

/-! ## Division and rotation -/

namespace Numeric

variable {n : Nat}

/-- A number is determined by what it stands for. -/
theorem read_emod {sign : Sign} {c : Nat} (hc : c < 2 ^ n) :
    (sign.read n c % 2 ^ n).toNat = c := by
  have hint : (c : Int) % 2 ^ n = c := Int.emod_eq_of_lt (by omega) (by exact_mod_cast hc)
  cases sign with
  | unsigned => rw [Sign.read, hint, Int.toNat_natCast]
  | signed =>
    rw [Sign.read]
    split
    · rw [hint, Int.toNat_natCast]
    · rw [Int.sub_emod_right, hint, Int.toNat_natCast]

/-- A numeral's residue is the integer's. -/
theorem residue_numeral (hn : n ≤ 64) (v : Int) : residue n (numeral n v) = (v % 2 ^ n).toNat := by
  have hpow : 2 ^ n ≤ 2 ^ 64 := Nat.pow_le_pow_right (by decide) hn
  have hlt := (BitVec.ofInt n v).isLt
  rw [toNat_ofInt_emod] at hlt
  rw [residue, numeral, UInt64.toNat_ofNat', Nat.mod_eq_of_lt (hlt.trans_le hpow),
    Nat.mod_eq_of_lt hlt]

/-- The word of an integer stands for it if some number of as many bits does. -/
theorem read_numeral {type : IntType} {sign : Sign} {c : Nat} (hc : c < 2 ^ type.bits) :
    type.read sign (numeral type.bits (sign.read type.bits c)) = sign.read type.bits c := by
  rw [IntType.read, residue_numeral type.bits_le, read_emod hc]

/-- A quotient that is defined is rounded towards zero, and its bits write it. -/
theorem quotient_eq_ok (hn : 0 < n) {sign : Sign} {x y : BitVec n} {v : Int}
    (hv : sign.quotient n x.toNat y.toNat = .ok v) :
    v = (sign.read n x.toNat).tdiv (sign.read n y.toNat) ∧
    ∃ z : BitVec n, v = sign.read n z.toNat := by
  unfold Sign.quotient at hv
  split at hv
  · cases hv
  · split at hv
    · cases hv
    · next hfits =>
      obtain rfl := Except.ok.inj hv
      refine ⟨rfl, ?_⟩
      cases sign with
      | unsigned => exact ⟨x / y, by simp [Sign.read_unsigned]⟩
      | signed =>
        rw [← eq_intMin_iff hn, ← eq_allOnes_iff hn, ← BitVec.neg_one_eq_allOnes] at hfits
        refine ⟨x.sdiv y, ?_⟩
        rw [Sign.read_signed hn, Sign.read_signed hn, Sign.read_signed hn,
          BitVec.toInt_sdiv_of_ne_or_ne]
        exact not_and_or.mp fun hboth => hfits ⟨rfl, hboth⟩

/-- A remainder that is defined goes with the quotient rounded towards zero, and its bits write it.
-/
theorem remainder_eq_ok (hn : 0 < n) {sign : Sign} {x y : BitVec n} {v : Int}
    (hv : sign.remainder n x.toNat y.toNat = .ok v) :
    v = (sign.read n x.toNat).tmod (sign.read n y.toNat) ∧
    ∃ z : BitVec n, v = sign.read n z.toNat := by
  unfold Sign.remainder at hv
  split at hv
  · cases hv
  · obtain rfl := Except.ok.inj hv
    refine ⟨rfl, ?_⟩
    cases sign with
    | unsigned => exact ⟨x % y, by simp [Sign.read_unsigned, ← Int.ofNat_tmod]⟩
    | signed =>
      refine ⟨x.srem y, ?_⟩
      rw [Sign.read_signed hn, Sign.read_signed hn, Sign.read_signed hn, BitVec.toInt_srem]

/-- A quotient stands for the quotient of what the operands stand for. -/
theorem read_div {type : IntType} {sign : Sign} {a b q : UInt64}
    (hq : arithWord type (.div sign) a b = .ok q) :
    type.read sign q = (type.read sign a).tdiv (type.read sign b) := by
  rw [arithWord_eq, except_map_eq_ok] at hq
  obtain ⟨v, hv, rfl⟩ := hq
  simp only [Arith.result, ← toNat_ofWord] at hv
  obtain ⟨htdiv, z, rfl⟩ := quotient_eq_ok type.bits_pos hv
  rw [read_numeral z.isLt, htdiv, IntType.read, IntType.read, toNat_ofWord, toNat_ofWord]

/-- A remainder stands for the remainder of what the operands stand for. -/
theorem read_rem {type : IntType} {sign : Sign} {a b r : UInt64}
    (hr : arithWord type (.rem sign) a b = .ok r) :
    type.read sign r = (type.read sign a).tmod (type.read sign b) := by
  rw [arithWord_eq, except_map_eq_ok] at hr
  obtain ⟨v, hv, rfl⟩ := hr
  simp only [Arith.result, ← toNat_ofWord] at hv
  obtain ⟨htmod, z, rfl⟩ := remainder_eq_ok type.bits_pos hv
  rw [read_numeral z.isLt, htmod, IntType.read, IntType.read, toNat_ofWord, toNat_ofWord]

/-- Rotating back undoes a rotation to the left. -/
theorem rotateRight_rotateLeft (x : BitVec n) (k : Nat) : (x.rotateLeft k).rotateRight k = x := by
  apply BitVec.eq_of_getElem_eq
  intro i hi
  have hk := Nat.mod_lt k (show 0 < n by omega)
  simp only [BitVec.getElem_rotateRight, BitVec.getElem_rotateLeft]
  split
  · rw [dif_neg (by omega)]
    congr 1
    omega
  · rw [dif_pos (by omega)]
    congr 1
    omega

/-- Rotating back undoes a rotation to the right. -/
theorem rotateLeft_rotateRight (x : BitVec n) (k : Nat) : (x.rotateRight k).rotateLeft k = x := by
  apply BitVec.eq_of_getElem_eq
  intro i hi
  have hk := Nat.mod_lt k (show 0 < n by omega)
  simp only [BitVec.getElem_rotateRight, BitVec.getElem_rotateLeft]
  split
  · rw [dif_neg (by omega)]
    congr 1
    omega
  · rw [dif_pos (by omega)]
    congr 1
    omega

/-- Only division and remainder trap, on a divisor of zero, and signed division does if the quotient
does not fit. -/
theorem arithWord_eq_error_iff {type : IntType} {op : Arith} {a b : UInt64} {t : Trap} :
    arithWord type op a b = .error t ↔
      (∃ sign, (op = .div sign ∨ op = .rem sign) ∧ residue type.bits b = 0 ∧ t = .divideByZero) ∨
      (op = .div .signed ∧ type.read .signed a = -2 ^ (type.bits - 1) ∧ type.read .signed b = -1 ∧
        t = .integerOverflow) := by
  have hzero : Sign.read type.bits .signed 0 ≠ -1 := by cases type <;> decide
  have hmap (r : Except Trap Int) : numeral type.bits <$> r = .error t ↔ r = .error t := by
    cases r <;> simp [Functor.map, Except.map]
  rw [arithWord_eq, hmap]
  cases op with
  | div sign =>
    simp only [Arith.result, Sign.quotient, IntType.read]
    by_cases hb : residue type.bits b = 0
    · simp [hb, hzero, eq_comm]
    · cases sign with
      | unsigned => simp [hb]
      | signed =>
        by_cases hover : Sign.signed.read type.bits (residue type.bits a) = -2 ^ (type.bits - 1) ∧
            Sign.signed.read type.bits (residue type.bits b) = -1
        · simp [hb, hover, eq_comm (a := t)]
        · simp [hb, hover, ← and_assoc]
  | rem sign =>
    simp only [Arith.result, Sign.remainder]
    by_cases hb : residue type.bits b = 0 <;> simp [hb, eq_comm]
  | _ => simp [Arith.result]

/-- A rotation to the left always gives a word. -/
theorem arithWord_rotl (type : IntType) (a b : UInt64) :
    arithWord type .rotl a b =
      .ok (toWord ((ofWord type.bits a).rotateLeft (residue type.bits b % type.bits))) := by
  rw [← toNat_ofWord]
  rfl

/-- A rotation to the right always gives a word. -/
theorem arithWord_rotr (type : IntType) (a b : UInt64) :
    arithWord type .rotr a b =
      .ok (toWord ((ofWord type.bits a).rotateRight (residue type.bits b % type.bits))) := by
  rw [← toNat_ofWord]
  rfl

/-- Bits that are put on the stack are read back. -/
theorem ofWord_toWord (hn : n ≤ 64) (x : BitVec n) : ofWord n (toWord x) = x := by
  apply BitVec.eq_of_toNat_eq
  rw [toNat_ofWord, toWord_eq_numeral, residue_numeral hn]
  norm_cast
  exact Nat.mod_eq_of_lt x.isLt

/-- Rotations by the same count are inverse to each other. -/
theorem arithWord_rotr_rotl (type : IntType) (a b : UInt64) :
    (arithWord type .rotl a b >>= fun c => arithWord type .rotr c b) =
        .ok (numeral type.bits (residue type.bits a)) ∧
      (arithWord type .rotr a b >>= fun c => arithWord type .rotl c b) =
        .ok (numeral type.bits (residue type.bits a)) := by
  have hself : toWord (ofWord type.bits a) = numeral type.bits (residue type.bits a) := by
    rw [toWord_eq_numeral, toNat_ofWord]
  simp only [arithWord_rotl, arithWord_rotr, bind, Except.bind, ofWord_toWord type.bits_le,
    rotateRight_rotateLeft, rotateLeft_rotateRight, hself, and_self]

/-- The low bits of the second operand of a shift or a rotation are its count. -/
theorem arithWord_congr_count {type : IntType} {op : Arith} {b b' : UInt64}
    (hop : op ∈ [.shl, .shr .signed, .shr .unsigned, .rotl, .rotr])
    (hcount : residue type.bits b % type.bits = residue type.bits b' % type.bits) (a : UInt64) :
    arithWord type op a b = arithWord type op a b' := by
  rw [arithWord_eq, arithWord_eq]
  simp only [List.mem_cons, List.not_mem_nil, or_false] at hop
  rcases hop with rfl | rfl | rfl | rfl | rfl <;> simp only [Arith.result, hcount]

/-- What the quotient and the remainder of two words stand for. -/
structure Divides (type : IntType) (sign : Sign) (a b : UInt64) : Prop where
  truncates : ∀ q, arithWord type (.div sign) a b = .ok q →
    type.read sign q = (type.read sign a).tdiv (type.read sign b)
  leaves : residue type.bits b ≠ 0 → ∃ r, arithWord type (.rem sign) a b = .ok r ∧
    (type.read sign r).natAbs < (type.read sign b).natAbs ∧
    (0 ≤ type.read sign a → 0 ≤ type.read sign r) ∧ (type.read sign a ≤ 0 → type.read sign r ≤ 0)
  adds_up : ∀ q, arithWord type (.div sign) a b = .ok q →
    ∃ r, arithWord type (.rem sign) a b = .ok r ∧
    type.read sign a = type.read sign b * type.read sign q + type.read sign r
  leaves_nothing : sign = .signed → type.read sign b = -1 → arithWord type (.rem sign) a b = .ok 0

/-- A divisor that is not zero modulo the type's size is not read as zero. -/
theorem read_ne_zero {type : IntType} {b : UInt64} (hb : residue type.bits b ≠ 0) (sign : Sign) :
    type.read sign b ≠ 0 := by
  intro hzero
  have hback := @read_emod type.bits sign _ (residue_lt type.bits b)
  rw [show sign.read type.bits (residue type.bits b) = 0 from hzero] at hback
  exact hb (by simpa using hback.symm)

/-- A remainder by a divisor that is not zero never traps, not even that of the least integer by
minus one. -/
theorem exists_rem {type : IntType} {b : UInt64} (hb : residue type.bits b ≠ 0) (sign : Sign)
    (a : UInt64) : ∃ r, arithWord type (.rem sign) a b = .ok r := by
  rw [arithWord_eq]
  simp [Arith.result, Sign.remainder, hb]

/-- Quotient and remainder satisfy the division equation wherever both are defined. -/
theorem divides (type : IntType) (sign : Sign) (a b : UInt64) : Divides type sign a b where
  truncates _ := read_div
  leaves hb := by
    obtain ⟨r, hr⟩ := exists_rem hb sign a
    have hne := read_ne_zero hb sign
    refine ⟨r, hr, ?_⟩
    rw [read_rem hr]
    refine ⟨?_, fun hnonneg => Int.tmod_nonneg _ hnonneg, fun hnonpos => ?_⟩
    · rw [Int.natAbs_tmod]
      exact Nat.mod_lt _ (Int.natAbs_pos.mpr hne)
    · have hneg := Int.tmod_nonneg (type.read sign b) (Int.neg_nonneg.mpr hnonpos)
      rw [Int.neg_tmod] at hneg
      exact Int.neg_nonneg.mp hneg
  adds_up q hq := by
    have hb : residue type.bits b ≠ 0 := by
      intro hzero
      have htraps : arithWord type (.div sign) a b = .error .divideByZero :=
        arithWord_eq_error_iff.mpr (.inl ⟨sign, .inl rfl, hzero, rfl⟩)
      rw [htraps] at hq
      cases hq
    obtain ⟨r, hr⟩ := exists_rem hb sign a
    exact ⟨r, hr, by rw [read_div hq, read_rem hr, Int.mul_tdiv_add_tmod]⟩
  leaves_nothing hsigned hminus := by
    subst hsigned
    have hb : residue type.bits b ≠ 0 := by
      intro hzero
      rw [IntType.read, hzero] at hminus
      cases type <;> exact absurd hminus (by decide)
    rw [IntType.read] at hminus
    rw [arithWord_eq, Arith.result, Sign.remainder, if_neg hb, hminus, Int.tmod_neg, Int.tmod_one]
    cases type <;> rfl

end Numeric

/-- Numeric instructions compute functions on integers modulo `2 ^ n`. A step takes the operands of
its instruction, of which only the low bits count, and puts the one result in their place; or it
traps, which only divisions do, as far as their divisor is zero or a signed quotient does not fit.
Quotients are rounded toward zero, and what they leave has the sign of the dividend. Counts of
shifts and rotations are taken modulo `n`, and the two rotations are inverse to each other. -/
theorem numeric_instructions_compute {H σ : Type} :
    (∀ (inst : Instance H) (f : Activation) (i : Instruction) (op : Opcode) (g : Nat → Int)
      (a : UInt64) (rest : List UInt64) (s : Store H σ), i.op? = some op → op.unary? = some g →
      f.operands = a :: rest → rest.length < f.room →
      Activation.step inst f i s =
        .ok (.go { f with
          operands := numeral op.resultBits (g (residue op.operandBits a)) :: rest }) s) ∧
    (∀ (inst : Instance H) (f : Activation) (i : Instruction) (op : Opcode)
      (g : Nat → Nat → Except Trap Int) (a b : UInt64) (rest : List UInt64) (s : Store H σ),
      i.op? = some op → op.binary? = some g → f.operands = b :: a :: rest → rest.length < f.room →
      Activation.step inst f i s =
        match g (residue op.operandBits a) (residue op.operandBits b) with
        | .ok v => .ok (.go { f with operands := numeral op.resultBits v :: rest }) s
        | .error t => .error (.trap t) s) ∧
    ∀ (type : IntType) (op : Arith) (a b : UInt64),
      Numeric.arithWord type op a b =
        numeral type.bits <$> op.result type.bits (residue type.bits a) (residue type.bits b) ∧
      (∀ t, Numeric.arithWord type op a b = .error t ↔
        (∃ sign, (op = .div sign ∨ op = .rem sign) ∧ residue type.bits b = 0 ∧ t = .divideByZero) ∨
        (op = .div .signed ∧ type.read .signed a = -2 ^ (type.bits - 1) ∧ type.read .signed b = -1 ∧
          t = .integerOverflow)) ∧
      (∀ sign, Numeric.Divides type sign a b) ∧
      (op ∈ [.shl, .shr .signed, .shr .unsigned, .rotl, .rotr] → ∀ b',
        residue type.bits b % type.bits = residue type.bits b' % type.bits →
        Numeric.arithWord type op a b = Numeric.arithWord type op a b') ∧
      (Numeric.arithWord type .rotl a b >>= fun c => Numeric.arithWord type .rotr c b) =
        .ok (numeral type.bits (residue type.bits a)) ∧
      (Numeric.arithWord type .rotr a b >>= fun c => Numeric.arithWord type .rotl c b) =
        .ok (numeral type.bits (residue type.bits a)) :=
  ⟨fun _ _ _ _ _ _ _ s hop hg hoperands hroom => Activation.step_unary hop hg hoperands hroom s,
    fun _ _ _ _ _ _ _ _ s hop hg hoperands hroom => Activation.step_binary hop hg hoperands hroom s,
    fun type op a b => ⟨Numeric.arithWord_eq type op a b, fun _ => Numeric.arithWord_eq_error_iff,
      fun sign => Numeric.divides type sign a b,
      fun hop _ hcount => Numeric.arithWord_congr_count hop hcount a,
      Numeric.arithWord_rotr_rotl type a b⟩⟩

/-- An activation with given operands and room for one more. -/
private def Activation.reckoning (operands : List UInt64) : Activation where
  function := default
  locals := #[]
  operands
  labels := []
  base := 0
  room := operands.length + 1
  labelsBelow := 0
  callers := 0

/-- Of minus seven by two, minus one is left; the least number by minus one traps; and a one has 31
zeros before it, whatever the high half of its word is. -/
theorem numeric_instructions_compute_minus_seven :
    let inst : Instance Unit := { config := default }
    let s : Store Unit Unit := { host := () }
    (∃ f, Activation.step inst (.reckoning [2, 0xfffffff9])
      { opcode := (Opcode.arith .i32 (.rem .signed)).byte } s = .ok (.go f) s ∧
      f.operands = [0xffffffff]) ∧
    Activation.step inst (.reckoning [0xffffffff, 0x80000000])
      { opcode := (Opcode.arith .i32 (.div .signed)).byte } s = .error (.trap .integerOverflow) s ∧
    ∃ f, Activation.step inst (.reckoning [0xff00000000000001])
      { opcode := (Opcode.count .i32 .clz).byte } s = .ok (.go f) s ∧ f.operands = [31] := by
  intro inst s
  have hop (op : Opcode) : ({ opcode := op.byte } : Instruction).op? = some op :=
    Opcode.ofByte?_byte op
  obtain ⟨hunary, hbinary, -⟩ := numeric_instructions_compute (H := Unit) (σ := Unit)
  have hrem := hbinary inst (.reckoning [2, 0xfffffff9]) _ _ _ 0xfffffff9 2 [] s
    (hop (.arith .i32 (.rem .signed))) rfl rfl (by decide)
  have hdiv := hbinary inst (.reckoning [0xffffffff, 0x80000000]) _ _ _ 0x80000000 0xffffffff [] s
    (hop (.arith .i32 (.div .signed))) rfl rfl (by decide)
  have hclz := hunary inst (.reckoning [0xff00000000000001]) _ _ _ 0xff00000000000001 [] s
    (hop (.count .i32 .clz)) rfl rfl (by decide)
  exact ⟨⟨_, hrem.trans rfl, rfl⟩, hdiv.trans rfl, _, hclz, rfl⟩

end IntWasm
