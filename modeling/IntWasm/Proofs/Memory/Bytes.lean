import IntWasm.Proofs.Memory.Pages
import Mathlib.Algebra.BigOperators.Intervals

/-!
# Single bytes of a memory

What replacing bytes and storing a number do to each byte, and the number that a run of bytes
spells, the least significant byte first. Main statements: `byteAt_setBytes`, `byteAt_storeWord` and
`toNat_loadWord`.
-/

namespace IntWasm

open Finset

/-! ## Runs of bytes -/

/-- The entry at an index of a list that lies from `start` on. -/
def placed {α : Type} (start : Nat) (entries : List α) (i : Nat) : Option α :=
  if start ≤ i then entries[i - start]? else none

/-- No entries are placed nowhere. -/
theorem placed_nil {α : Type} (start i : Nat) : placed start ([] : List α) i = none := by
  simp [placed]

/-- The first entry is placed at the start, the others behind it. -/
theorem placed_cons {α : Type} (start : Nat) (entry : α) (more : List α) (i : Nat) :
    placed start (entry :: more) i = if i = start then some entry
      else placed (start + 1) more i := by
  unfold placed
  rcases lt_trichotomy i start with hbefore | rfl | hbehind
  · rw [if_neg (by omega), if_neg (by omega), if_neg (by omega)]
  · simp
  · have hindex : i - start = i - (start + 1) + 1 := by omega
    rw [if_pos (by omega), if_neg (by omega), if_pos (by omega), hindex, List.getElem?_cons_succ]

/-- Outside there are zeros. -/
theorem byteAt_of_size_le {bytes : ByteArray} {i : Nat} (hsize : bytes.size ≤ i) :
    byteAt bytes i = 0 := by
  rw [byteAt, dif_neg (by omega)]

/-- Setting a byte changes it and no other. -/
theorem byteAt_setByte (bytes : ByteArray) {i : Nat} (b : UInt8) (hi : i < bytes.size) (j : Nat) :
    byteAt (setByte bytes i b) j = if j = i then b else byteAt bytes j := by
  have hsize : (bytes.set i b hi).size = bytes.size := Array.size_set ..
  by_cases hj : j < bytes.size
  · have hentry : (bytes.set i b hi)[j] = if i = j then b else bytes[j] := Array.getElem_set ..
    simp only [setByte, byteAt, dif_pos hi, hsize, dif_pos hj, hentry, eq_comm]
  · simp only [setByte, byteAt, dif_pos hi, hsize, dif_neg hj]
    rw [if_neg (by omega)]

/-- A run of bytes is put where it says; all other bytes stay. -/
theorem byteAt_setBytes {bytes : ByteArray} {start : Nat} {new : List UInt8}
    (hfits : start + new.length ≤ bytes.size) (i : Nat) :
    byteAt (setBytes bytes start new) i = (placed start new i).getD (byteAt bytes i) := by
  induction new generalizing bytes start with
  | nil => rw [setBytes, placed_nil, Option.getD_none]
  | cons b new ih =>
    rw [List.length_cons] at hfits
    rw [setBytes, ih (by rw [size_setByte]; omega), byteAt_setByte bytes b (by omega), placed_cons]
    by_cases hi : i = start
    · subst hi
      simp [placed]
    · simp only [if_neg hi]

/-- Bytes are the same if they are as many and the same at each index. -/
theorem eq_of_byteAt {a b : ByteArray} (hsize : a.size = b.size)
    (hbytes : ∀ i < a.size, byteAt a i = byteAt b i) : a = b := by
  refine ByteArray.ext (Array.ext hsize fun i ha hb => ?_)
  have hi := hbytes i ha
  rw [byteAt, byteAt, dif_pos (show i < a.size from ha), dif_pos (show i < b.size from hb)] at hi
  exact hi

/-- Bytes that are appended come behind. -/
theorem byteAt_append (a b : ByteArray) (i : Nat) :
    byteAt (a ++ b) i = if i < a.size then byteAt a i else byteAt b (i - a.size) := by
  have hsize : (a ++ b).size = a.size + b.size := ByteArray.size_append
  unfold byteAt
  by_cases hi : i < a.size
  · rw [if_pos hi, dif_pos (by omega), dif_pos hi, ByteArray.getElem_append_left hi]
  · rw [if_neg hi]
    by_cases hlast : i < a.size + b.size
    · rw [dif_pos (by omega), dif_pos (by omega), ByteArray.getElem_append_right (by omega)]
    · rw [dif_neg (by omega), dif_neg (by omega)]

/-- A page of zeros has zeros. -/
theorem byteAt_zeroPage (i : Nat) : byteAt zeroPage i = 0 := by
  unfold byteAt
  split
  · exact Array.getElem_replicate ..
  · rfl

/-! ## Numbers -/

/-- A byte of a number; the least significant one is number zero. -/
def byteOf (n k : Nat) : UInt8 := UInt8.ofNat (n / 256 ^ k)

/-- The number that `width` bytes from an index on spell, the least significant first. -/
def littleEndian (bytes : ByteArray) (start width : Nat) : Nat :=
  ∑ k ∈ range width, (byteAt bytes (start + k)).toNat * 256 ^ k

/-- The next byte of a number. -/
theorem byteOf_succ (n k : Nat) : byteOf n (k + 1) = byteOf (n / 256) k := by
  rw [byteOf, byteOf, Nat.div_div_eq_div_mul, pow_succ']

/-- A byte of a number is a digit to the base 256. -/
theorem toNat_byteOf (n k : Nat) : (byteOf n k).toNat = n / 256 ^ k % 256 := UInt8.toNat_ofNat'

/-- The first byte counts least. -/
theorem littleEndian_succ (bytes : ByteArray) (start width : Nat) :
    littleEndian bytes start (width + 1) =
      (byteAt bytes start).toNat + 256 * littleEndian bytes (start + 1) width := by
  have hbyte (k : Nat) : (byteAt bytes (start + (k + 1))).toNat * 256 ^ (k + 1) =
      256 * ((byteAt bytes (start + 1 + k)).toNat * 256 ^ k) := by
    rw [show start + (k + 1) = start + 1 + k by omega]
    ring
  simp only [littleEndian, sum_range_succ', hbyte, ← mul_sum, Nat.add_zero, pow_zero, mul_one]
  exact Nat.add_comm _ _

/-- As many bytes write numbers below that power of 256. -/
theorem littleEndian_lt (bytes : ByteArray) (start width : Nat) :
    littleEndian bytes start width < 256 ^ width := by
  induction width generalizing start with
  | zero => exact Nat.one_pos
  | succ width ih =>
    have hbyte := (byteAt bytes start).toNat_lt
    have hmore := ih (start + 1)
    rw [littleEndian_succ, pow_succ']
    omega

/-- Each byte that is read is found in the number. -/
theorem byteOf_littleEndian (bytes : ByteArray) (start : Nat) {width k : Nat} (hk : k < width) :
    byteOf (littleEndian bytes start width) k = byteAt bytes (start + k) := by
  induction width generalizing start k with
  | zero => omega
  | succ width ih =>
    have hbyte := (byteAt bytes start).toNat_lt
    cases k with
    | zero =>
      change byteOf _ 0 = byteAt bytes start
      refine UInt8.toNat_inj.1 ?_
      rw [toNat_byteOf, littleEndian_succ, pow_zero, Nat.div_one]
      omega
    | succ k =>
      have hrest : littleEndian bytes start (width + 1) / 256 =
          littleEndian bytes (start + 1) width := by
        rw [littleEndian_succ]
        omega
      rw [byteOf_succ, hrest, ih (start + 1) (by omega)]
      congr 1
      omega

/-- Bytes that are the low ones of a number spell it modulo their width. -/
theorem littleEndian_of_bytes {bytes : ByteArray} {start width n : Nat}
    (hbytes : ∀ k < width, byteAt bytes (start + k) = byteOf n k) :
    littleEndian bytes start width = n % 256 ^ width := by
  induction width with
  | zero => exact (Nat.mod_one n).symm
  | succ width ih =>
    have hlow := ih fun k hk => hbytes k (by omega)
    rw [littleEndian] at hlow
    rw [littleEndian, sum_range_succ, hlow, hbytes width (by omega), toNat_byteOf, Nat.mod_pow_succ,
      Nat.mul_comm]

/-- A word that is read is the number that the bytes spell. -/
theorem toNat_loadWord (bytes : ByteArray) (start : Nat) {width : Nat} (hwidth : width ≤ 8) :
    (loadWord bytes start width).toNat = littleEndian bytes start width := by
  induction width generalizing start with
  | zero => rfl
  | succ width ih =>
    have hbyte : (byteAt bytes start).toNat < 2 ^ 8 := (byteAt bytes start).toNat_lt
    have hmore := littleEndian_lt bytes (start + 1) width
    have hpow : 256 ^ width ≤ 256 ^ 7 := Nat.pow_le_pow_right (by decide) (by omega)
    have hshift : (loadWord bytes (start + 1) width <<< 8).toNat =
        2 ^ 8 * littleEndian bytes (start + 1) width := by
      rw [UInt64.toNat_shiftLeft, ih (start + 1) (by omega), Nat.shiftLeft_eq]
      change _ * 2 ^ 8 % 2 ^ 64 = _
      omega
    rw [loadWord, UInt64.toNat_or, UInt8.toNat_toUInt64, hshift, Nat.or_comm,
      ← Nat.two_pow_add_eq_or_of_lt hbyte, littleEndian_succ, Nat.add_comm]

/-- A number that is stored lies at its place, the least significant byte first; all other bytes
stay. -/
theorem byteAt_storeWord {bytes : ByteArray} {start width : Nat} {w : UInt64}
    (hfits : start + width ≤ bytes.size) (i : Nat) :
    byteAt (storeWord bytes start w width) i =
      if start ≤ i ∧ i < start + width then byteOf w.toNat (i - start) else byteAt bytes i := by
  induction width generalizing bytes start w with
  | zero => rw [storeWord, if_neg (by omega)]
  | succ width ih =>
    have hshift : (w >>> 8).toNat = w.toNat / 256 := by
      rw [UInt64.toNat_shiftRight, Nat.shiftRight_eq_div_pow]
      rfl
    rw [storeWord, ih (by rw [size_setByte]; omega), byteAt_setByte bytes _ (by omega), hshift]
    rcases lt_trichotomy i start with hbefore | rfl | hbehind
    · rw [if_neg (by omega), if_neg (by omega), if_neg (by omega)]
    · rw [if_neg (by omega), if_pos rfl, if_pos (by omega), Nat.sub_self]
      exact UInt8.toNat_inj.1 (by rw [toNat_byteOf]; simp)
    · have hindex : i - start = i - (start + 1) + 1 := by omega
      rw [if_neg (show ¬i = start by omega), hindex, byteOf_succ]
      exact if_congr (by omega) rfl rfl

end IntWasm
