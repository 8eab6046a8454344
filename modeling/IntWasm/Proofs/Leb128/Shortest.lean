import IntWasm.Proofs.Leb128.Runs

/-!
# The runs that are written

The run that is written for a number is a run for it, and no run for a number that is at least as
large is shorter. So what is written is always read back, and writing anew what was read never takes
more bytes. Main statements: `Leb128.spellsUnsigned_encodeNat`, `Leb128.spellsSigned_encodeS64` and
`Leb128.length_encodeNat_le_of_le`.
-/

namespace IntWasm.Leb128

/-! ## Single bytes -/

/-- A byte has seven bits of the number and one that says whether more follow. -/
theorem toNat_lowByte (n : Nat) (more : Bool) :
    (lowByte n more).toNat = n % 128 + if more then 128 else 0 := by
  have hmod : n % 128 < 128 := Nat.mod_lt _ (by decide)
  have hlt : (n % 128 + if more then 128 else 0) < 256 := by
    split <;> omega
  rw [lowByte, UInt8.toNat_ofNat', Nat.mod_eq_of_lt hlt]

/-- The top bit says whether more bytes follow. -/
@[simp] theorem continues_lowByte (n : Nat) (more : Bool) : continues (lowByte n more) = more := by
  have hmod : n % 128 < 128 := Nat.mod_lt _ (by decide)
  unfold continues
  rw [toNat_lowByte]
  cases more
  · simpa using hmod
  · simp

/-- The other bits are those of the number. -/
@[simp] theorem group_lowByte (n : Nat) (more : Bool) : group (lowByte n more) = n % 128 := by
  unfold group
  rw [toNat_lowByte]
  cases more <;> simp

/-! ## Unsigned numbers -/

/-- A number of one group is its own byte. -/
theorem encodeNat_of_lt {n : Nat} (hlt : n < 128) : encodeNat n = [lowByte n false] := by
  rw [encodeNat, if_pos hlt]

/-- The lowest group of a larger number stands in front of the run of the others. -/
theorem encodeNat_of_le {n : Nat} (hle : 128 ≤ n) :
    encodeNat n = lowByte n true :: encodeNat (n / 128) := by
  rw [encodeNat, if_neg (Nat.not_lt.mpr hle)]

/-- What is written is a run. -/
theorem isRun_encodeNat (n : Nat) : IsRun (encodeNat n) := by
  induction n using Nat.strongRecOn with
  | ind n ih =>
    by_cases hlt : n < 128
    · rw [encodeNat_of_lt hlt]
      exact continues_lowByte n false
    · have hle : 128 ≤ n := Nat.not_lt.mp hlt
      have hsmaller : n / 128 < n := by omega
      rw [encodeNat_of_le hle, isRun_cons]
      exact .inr ⟨continues_lowByte n true, ih (n / 128) hsmaller⟩

/-- What is written has the value. -/
theorem unsignedValue_encodeNat (n : Nat) : unsignedValue (encodeNat n) = n := by
  induction n using Nat.strongRecOn with
  | ind n ih =>
    by_cases hlt : n < 128
    · rw [encodeNat_of_lt hlt, unsignedValue, unsignedValue, group_lowByte]
      omega
    · have hle : 128 ≤ n := Nat.not_lt.mp hlt
      have hsmaller : n / 128 < n := by omega
      rw [encodeNat_of_le hle, unsignedValue, group_lowByte, ih (n / 128) hsmaller]
      omega

/-- The number of a run has at most seven bits for each of its bytes. -/
theorem unsignedValue_lt (run : List UInt8) : unsignedValue run < 128 ^ run.length := by
  induction run with
  | nil => simp [unsignedValue]
  | cons b run ih =>
    have hgroup := group_lt b
    rw [unsignedValue, List.length_cons, Nat.pow_succ]
    omega

/-- A number of seven bits for each of a number of bytes is written with no more bytes. -/
theorem length_encodeNat_le {n k : Nat} (hlt : n < 128 ^ (k + 1)) :
    (encodeNat n).length ≤ k + 1 := by
  induction k generalizing n with
  | zero =>
    have hsmall : n < 128 := by simpa using hlt
    rw [encodeNat_of_lt hsmall]
    simp
  | succ k ih =>
    by_cases hsmall : n < 128
    · rw [encodeNat_of_lt hsmall]
      simp
    · have hle : 128 ≤ n := Nat.not_lt.mp hsmall
      have hrest : n / 128 < 128 ^ (k + 1) := by
        rw [Nat.pow_succ] at hlt
        exact Nat.div_lt_of_lt_mul (by rwa [Nat.mul_comm] at hlt)
      have htail := ih hrest
      rw [encodeNat_of_le hle, List.length_cons]
      omega

/-- No run for a number is shorter than what is written for a number that is not larger. -/
theorem length_encodeNat_le_of_le {n : Nat} {run : List UInt8} (hrun : IsRun run)
    (hle : n ≤ unsignedValue run) : (encodeNat n).length ≤ run.length := by
  have hpos := hrun.length_pos
  obtain ⟨k, hk⟩ := Nat.exists_eq_add_one.mpr hpos
  have hvalue := unsignedValue_lt run
  rw [hk] at hvalue ⊢
  apply length_encodeNat_le
  omega

/-- What is written for a number of 32 bits is read as that number. -/
theorem spellsUnsigned_encodeNat {n : Nat} (hlt : n < 2 ^ 32) :
    SpellsUnsigned 32 n (encodeNat n) where
  isRun := isRun_encodeNat n
  length_le := by
    have hroom : n < 128 ^ (4 + 1) := by omega
    exact length_encodeNat_le hroom
  value_eq := unsignedValue_encodeNat n
  value_lt := hlt

/-- What is written for a number is not longer than any run that stands for a number at least as
large. -/
theorem SpellsUnsigned.length_encodeNat_le {bits m n : Nat} {run : List UInt8}
    (hrun : SpellsUnsigned bits n run) (hle : m ≤ n) : (encodeNat m).length ≤ run.length := by
  apply length_encodeNat_le_of_le hrun.isRun
  rwa [hrun.value_eq]

/-! ## Signed numbers -/

/-- The group of the lowest seven bits of a signed number. -/
theorem group_lowByte_emod (i : Int) (more : Bool) :
    (group (lowByte (i % 128).toNat more) : Int) = i % 128 := by
  rw [group_lowByte]
  omega

/-- A number of seven bits with its sign is one byte. -/
theorem encodeInt_of_small {i : Int} (hsmall : -64 ≤ i ∧ i < 64) :
    encodeInt i = [lowByte (i % 128).toNat false] := by
  rw [encodeInt, if_pos hsmall]

/-- A larger number is its lowest seven bits and the rest. -/
theorem encodeInt_of_large {i : Int} (hlarge : ¬ (-64 ≤ i ∧ i < 64)) :
    encodeInt i = lowByte (i % 128).toNat true :: encodeInt (i / 128) := by
  rw [encodeInt, if_neg hlarge]

/-- What is written is a run. -/
theorem isRun_encodeInt (i : Int) : IsRun (encodeInt i) := by
  induction i using encodeInt.induct with
  | case1 i hsmall =>
    rw [encodeInt_of_small hsmall]
    exact continues_lowByte _ false
  | case2 i hlarge ih =>
    rw [encodeInt_of_large hlarge, isRun_cons]
    exact .inr ⟨continues_lowByte _ true, ih⟩

/-- What is written has the value. -/
theorem signedValue_encodeInt (i : Int) : signedValue (encodeInt i) = i := by
  induction i using encodeInt.induct with
  | case1 i hsmall =>
    have hgroup := group_lowByte_emod i false
    rw [encodeInt_of_small hsmall, signedValue, signedGroup]
    split <;> omega
  | case2 i hlarge ih =>
    have hgroup := group_lowByte_emod i true
    rw [encodeInt_of_large hlarge, signedValue_cons (isRun_encodeInt _), ih]
    omega

/-- A number of seven bits for each of a number of bytes, the sign among them, is written with no
more bytes. -/
theorem length_encodeInt_le {i : Int} {k : Nat} (hle : -64 * 128 ^ k ≤ i) (hlt : i < 64 * 128 ^ k) :
    (encodeInt i).length ≤ k + 1 := by
  induction k generalizing i with
  | zero =>
    have hsmall : -64 ≤ i ∧ i < 64 := by omega
    rw [encodeInt_of_small hsmall]
    simp
  | succ k ih =>
    by_cases hsmall : -64 ≤ i ∧ i < 64
    · rw [encodeInt_of_small hsmall]
      simp
    · rw [pow_succ] at hle hlt
      have hlow : -64 * 128 ^ k ≤ i / 128 := by omega
      have hhigh : i / 128 < 64 * 128 ^ k := by omega
      have htail := ih hlow hhigh
      rw [encodeInt_of_large hsmall, List.length_cons]
      omega

/-- What is written for a number of 32 bits with a sign is read as that number. -/
theorem spellsSigned_encodeS32 (n : Int32) : SpellsSigned 32 n.toInt (encodeS32 n) where
  isRun := isRun_encodeInt _
  length_le := by
    have hle := n.le_toInt
    have hlt := n.toInt_lt
    exact length_encodeInt_le (k := 4) (by omega) (by omega)
  value_eq := signedValue_encodeInt _
  le_value := n.le_toInt
  value_lt := n.toInt_lt

/-- What is written for a number of 64 bits with a sign is read as that number. -/
theorem spellsSigned_encodeS64 (n : Int64) : SpellsSigned 64 n.toInt (encodeS64 n) where
  isRun := isRun_encodeInt _
  length_le := by
    have hle := n.le_toInt
    have hlt := n.toInt_lt
    exact length_encodeInt_le (k := 9) (by omega) (by omega)
  value_eq := signedValue_encodeInt _
  le_value := n.le_toInt
  value_lt := n.toInt_lt

end IntWasm.Leb128
