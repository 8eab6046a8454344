import IntWasm.Leb128

/-!
# Appending integers to a byte string

An integer is taken apart from its lowest seven bits on, and each group is put behind what is there
already. The run ends as soon as nothing is left of the integer but zeros, or copies of the sign
that its last group shows.
-/

namespace IntWasm.Leb128

/-- The lowest seven bits of a word. -/
def lowGroup (n : UInt64) : UInt8 := (n &&& 0x7f).toUInt8

/-- Shifting out a group divides. -/
theorem toNat_shiftRight_seven (n : UInt64) : (n >>> 7).toNat = n.toNat / 128 := by
  rw [UInt64.toNat_shiftRight]
  exact Nat.shiftRight_eq_div_pow n.toNat 7

/-- Shifting out a group divides and rounds down. -/
theorem toInt_shiftRight_seven (n : Int64) : (n >>> 7).toInt = n.toInt / 128 := by
  show ((n >>> 7).toBitVec).toInt = n.toBitVec.toInt / 128
  rw [Int64.toBitVec_shiftRight]
  show (n.toBitVec.sshiftRight 7).toInt = n.toBitVec.toInt / 128
  rw [BitVec.toInt_sshiftRight, Int.shiftRight_eq_div_pow]
  rfl

/-- Appends the shortest run for an unsigned integer. -/
def appendU64 (out : List UInt8) (n : UInt64) : List UInt8 :=
  if n >>> 7 = 0 then out ++ [lowGroup n]
  else appendU64 (out ++ [lowGroup n ||| 0x80]) (n >>> 7)
termination_by n.toNat
decreasing_by
  rename_i hmore
  have hhigh := toNat_shiftRight_seven n
  have hne : (n >>> 7).toNat ≠ 0 := fun h => hmore (UInt64.toNat_inj.mp h)
  omega

/-- Whether the bits above a group are more than copies of the sign that the group shows. -/
def needsMore (group : UInt8) (high : Int64) : Bool :=
  let sign := group &&& 0x40
  (high ≠ -1 ∨ sign = 0) ∧ (high ≠ 0 ∨ sign ≠ 0)

/-- Appends the shortest run for a signed integer. -/
def appendS64 (out : List UInt8) (n : Int64) : List UInt8 :=
  if needsMore (lowGroup n.toUInt64) (n >>> 7) then
    appendS64 (out ++ [lowGroup n.toUInt64 ||| 0x80]) (n >>> 7)
  else out ++ [lowGroup n.toUInt64]
termination_by n.toInt.natAbs
decreasing_by
  rename_i hmore
  have hhigh := toInt_shiftRight_seven n
  have hzero : n.toInt ≠ 0 := by
    intro h
    obtain rfl : n = 0 := Int64.toInt_inj.mp h
    exact absurd hmore (by decide)
  have hminus : n.toInt ≠ -1 := by
    intro h
    obtain rfl : n = -1 := Int64.toInt_inj.mp h
    exact absurd hmore (by decide)
  omega

/-- Writes an unsigned 64-bit integer. -/
def writeU64 (n : UInt64) : Writer WriteFault Unit := Writer.bytes (appendU64 [] n)

/-- Writes a signed 64-bit integer. -/
def writeS64 (n : Int64) : Writer WriteFault Unit := Writer.bytes (appendS64 [] n)

/-- Writes a signed 32-bit integer, which has the run of the same number of 64 bits. -/
def writeS32 (n : Int32) : Writer WriteFault Unit := writeS64 n.toInt64

end IntWasm.Leb128
