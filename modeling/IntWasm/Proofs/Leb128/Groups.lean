import IntWasm.Leb128
import IntWasm.Proofs.Outcome
import Mathlib.Data.Nat.Bitwise
import Mathlib.Tactic.Ring

/-!
# Words and numbers

The readers shift the groups of an integer into a word of 64 bits. What they read is the number that
the groups add up to, taken modulo 2 ^ 64, and they fail where adding up the groups fails. Main
statements: `unsignedWord_eq` and `signedWord_eq`.
-/

namespace IntWasm.Leb128

/-! ## Numbers -/

/-- The seven payload bits of a byte. -/
def group (b : UInt8) : Nat := b.toNat % 128

/-- Whether another byte follows. -/
def continues (b : UInt8) : Bool := 128 ≤ b.toNat

/-- A group read as a number of seven bits in two's complement. -/
def signedGroup (b : UInt8) : Int :=
  if 64 ≤ group b then (group b : Int) - 128 else group b

/-- Reads an unsigned integer of at most `left` more bytes, the last of which may use `used` bits.
-/
def unsignedGroups (used : Nat) : Nat → Bool → Reader ReadFault Nat
  | 0, _ => throw .tooLong
  | left + 1, first => do
    let b ← nextByte first
    if left = 0 ∧ continues b then throw .tooLong
    if left = 0 ∧ Nat.pow 2 used ≤ b.toNat then throw .tooLarge
    if continues b then
      let high ← unsignedGroups used left false
      return group b + 128 * high
    else return group b

/-- The payload of a last byte whose bits from `used - 1` on are all alike. -/
def signFits (used : Nat) (b : UInt8) : Bool :=
  let upper := group b / Nat.pow 2 (used - 1)
  upper = 0 ∨ upper = Nat.pow 2 (8 - used) - 1

/-- Reads a signed integer of at most `left` more bytes, the last of which may use `used` bits. -/
def signedGroups (used : Nat) : Nat → Bool → Reader ReadFault Int
  | 0, _ => throw .tooLong
  | left + 1, first => do
    let b ← nextByte first
    if left = 0 ∧ continues b then throw .tooLong
    if left = 0 ∧ ¬ signFits used b then throw .signBits
    if continues b then
      let high ← signedGroups used left false
      return group b + 128 * high
    else return signedGroup b

/-- Reads an unsigned integer of `bits` bits. -/
def unsigned (bits : Nat) : Reader ReadFault Nat :=
  unsignedGroups (lastBits bits) (maxBytes bits) true

/-- Reads a signed integer of `bits` bits. -/
def signed (bits : Nat) : Reader ReadFault Int :=
  signedGroups (lastBits bits) (maxBytes bits) true

/-! ## Bytes -/

/-- The highest bit of a byte says whether another one follows. -/
theorem high_eq_zero_iff (b : UInt8) : b &&& 0x80 = 0 ↔ continues b = false := by
  have hbits : ∀ n < 256, UInt8.ofNat n &&& 0x80 = 0 ↔ continues (UInt8.ofNat n) = false := by
    decide +kernel
  simpa using hbits b.toNat b.toNat_lt

/-- The sign that a group shows is its highest bit. -/
theorem sign_eq_zero_iff (b : UInt8) : b &&& 0x40 = 0 ↔ group b < 64 := by
  have hbit : (b &&& 0x40).toNat = (b.toNat.testBit 6).toNat * 2 ^ 6 := by
    rw [UInt8.toNat_and]
    exact Nat.and_two_pow b.toNat 6
  have hsixth : b.toNat.testBit 6 = decide (b.toNat / 64 % 2 = 1) := by
    rw [Nat.testBit_eq_decide_div_mod_eq]
  rw [← UInt8.toNat_inj, hbit, hsixth, group]
  by_cases hone : b.toNat / 64 % 2 = 1
  · simp [hone]
    omega
  · simp [hone]
    omega

/-- Masking a byte leaves its group. -/
theorem toNat_payload (b : UInt8) : (b &&& 0x7f).toUInt64.toNat = group b := by
  rw [UInt8.toNat_toUInt64, UInt8.toNat_and]
  exact Nat.and_two_pow_sub_one_eq_mod b.toNat 7

/-- Shifting out the bits that a last byte may use leaves nothing exactly if it uses no others. -/
theorem shiftRight_eq_zero_iff {used : Nat} (hused : used ≤ 7) (b : UInt8) :
    b >>> used.toUInt8 = 0 ↔ b.toNat < 2 ^ used := by
  have hshift : used.toUInt8.toNat = used :=
    UInt8.toNat_ofNat_of_lt (Nat.lt_of_le_of_lt hused (by decide))
  rw [← UInt8.toNat_inj, UInt8.toNat_shiftRight, hshift, Nat.mod_eq_of_lt (by omega),
    Nat.shiftRight_eq_div_pow]
  exact Nat.div_eq_zero_iff_lt (Nat.two_pow_pos used)

/-- The masked bits of a last byte are alike exactly if its group repeats the sign. -/
theorem signMask_iff {used : Nat} (hpos : 0 < used) (hused : used ≤ 7) (b : UInt8) :
    (b &&& signMask used ≠ 0 ∧ b &&& signMask used ≠ signMask used) ↔ ¬ signFits used b = true := by
  have hbits : ∀ k < 8, 0 < k → ∀ n < 256,
      (UInt8.ofNat n &&& signMask k ≠ 0 ∧ UInt8.ofNat n &&& signMask k ≠ signMask k) ↔
        ¬ signFits k (UInt8.ofNat n) = true := by
    decide +kernel
  simpa using hbits used (by omega) hpos b.toNat b.toNat_lt

/-! ## Words -/

section

variable {word : UInt64} {place : Nat}

/-- A shift within a word is what it says. -/
theorem toNat_toUInt64_mod_64 {shift : Nat} (hshift : shift < 64) :
    shift.toUInt64.toNat % 64 = shift := by
  have hsmall : shift.toUInt64.toNat = shift :=
    UInt64.toNat_ofNat_of_lt (Nat.lt_trans hshift (by decide))
  rw [hsmall, Nat.mod_eq_of_lt hshift]

/-- A group that is put behind the groups of a word is added to them at its place. -/
theorem toNat_putGroup (hplace : 7 * place < 64) (hlow : word.toNat < 2 ^ (7 * place)) (b : UInt8) :
    (putGroup b place word).toNat = word.toNat + 2 ^ (7 * place) * group b % 2 ^ 64 := by
  rw [putGroup, UInt64.toNat_or, UInt64.toNat_shiftLeft, toNat_toUInt64_mod_64 hplace,
    toNat_payload, Nat.shiftLeft_eq, Nat.mul_comm]
  -- What is shifted in is a multiple of the place, also where it loses bits.
  obtain ⟨rest, hrest⟩ : 2 ^ (7 * place) ∣ 2 ^ (7 * place) * group b % 2 ^ 64 :=
    (Nat.dvd_mod_iff (Nat.pow_dvd_pow 2 (Nat.le_of_lt hplace))).mpr (Nat.dvd_mul_right _ _)
  rw [hrest, Nat.or_comm, ← Nat.two_pow_add_eq_or_of_lt hlow, Nat.add_comm]

/-- The word with one more group. -/
theorem putGroup_eq_ofNat (hplace : 7 * place < 64) (hlow : word.toNat < 2 ^ (7 * place))
    (b : UInt8) :
    putGroup b place word = UInt64.ofNat (word.toNat + 2 ^ (7 * place) * group b) := by
  have hadded := toNat_putGroup hplace hlow b
  have hlt := (putGroup b place word).toNat_lt
  rw [← UInt64.toNat_inj, UInt64.toNat_ofNat']
  omega

/-- Before the last place that a word has, a group loses no bits, and the groups go up to the next
place. -/
theorem toNat_putGroup_lt (hplace : 7 * (place + 1) < 64) (hlow : word.toNat < 2 ^ (7 * place))
    (b : UInt8) :
    (putGroup b place word).toNat = word.toNat + 2 ^ (7 * place) * group b ∧
      (putGroup b place word).toNat < 2 ^ (7 * (place + 1)) := by
  have hnext : 2 ^ (7 * (place + 1)) = 2 ^ (7 * place) * 128 := by rw [Nat.mul_succ, Nat.pow_add]
  have hgroup : 2 ^ (7 * place) * (group b + 1) ≤ 2 ^ (7 * place) * 128 :=
    Nat.mul_le_mul_left _ (Nat.mod_lt _ (by decide))
  have hle : 2 ^ (7 * (place + 1)) ≤ 2 ^ 64 :=
    Nat.pow_le_pow_right (by decide) (Nat.le_of_lt hplace)
  rw [Nat.mul_succ] at hgroup
  rw [toNat_putGroup (by omega) hlow, Nat.mod_eq_of_lt (by omega)]
  exact ⟨rfl, by omega⟩

/-- Copies of a sign that is set take the rest of the word. -/
theorem toNat_or_ones {shift : Nat} (hshift : shift < 64) (hlow : word.toNat < 2 ^ shift) :
    (word ||| 0xffffffffffffffff <<< shift.toUInt64).toNat = word.toNat + (2 ^ 64 - 2 ^ shift) := by
  have hpos : 0 < 2 ^ shift := Nat.two_pow_pos shift
  have hle : 2 ^ shift ≤ 2 ^ 63 := Nat.pow_le_pow_right (by decide) (by omega)
  have hones : (0xffffffffffffffff <<< shift.toUInt64 : UInt64).toNat = 2 ^ 64 - 2 ^ shift := by
    rw [UInt64.toNat_shiftLeft, toNat_toUInt64_mod_64 hshift, Nat.shiftLeft_eq]
    show 0xffffffffffffffff * 2 ^ shift % 2 ^ 64 = 2 ^ 64 - 2 ^ shift
    omega
  obtain ⟨rest, hrest⟩ : 2 ^ shift ∣ 2 ^ 64 - 2 ^ shift :=
    Nat.dvd_sub (Nat.pow_dvd_pow 2 (Nat.le_of_lt hshift)) (Nat.dvd_refl _)
  rw [UInt64.toNat_or, hones, hrest, Nat.or_comm, ← Nat.two_pow_add_eq_or_of_lt hlow, Nat.add_comm]

/-- A word is that of a number that is the same modulo 2 ^ 64. -/
theorem eq_ofInt_of_emod {i : Int} (hsame : (word.toNat : Int) = i % 2 ^ 64) :
    word = UInt64.ofInt i := by
  rw [UInt64.ofInt, ← hsame, Int.toNat_natCast, UInt64.ofNat_toNat]

/-- The word with the last group of a signed integer and the copies of its sign. -/
theorem putSign_eq_ofInt (hplace : 7 * place < 64) (hlow : word.toNat < 2 ^ (7 * place))
    (b : UInt8) :
    putSign b place (putGroup b place word) =
      UInt64.ofInt (word.toNat + 2 ^ (7 * place) * signedGroup b) := by
  have hnext : 2 ^ (7 * (place + 1)) = 2 ^ (7 * place) * 128 := by rw [Nat.mul_succ, Nat.pow_add]
  have hadded := toNat_putGroup hplace hlow b
  have hlt := (putGroup b place word).toNat_lt
  have hvalue : (word.toNat + 2 ^ (7 * place) * signedGroup b : Int) =
      word.toNat + (2 ^ (7 * place) * group b : Nat) -
        if 64 ≤ group b then ((2 ^ (7 * (place + 1)) : Nat) : Int) else 0 := by
    rw [hnext, signedGroup]
    split <;> push_cast <;> ring
  apply eq_ofInt_of_emod
  rw [hvalue]
  clear hvalue
  generalize 2 ^ (7 * place) * group b = shifted at hadded ⊢
  by_cases hsign : 64 ≤ group b
  · have hset : ¬ b &&& 0x40 = 0 := fun h => absurd ((sign_eq_zero_iff b).mp h) (by omega)
    rw [if_pos hsign]
    by_cases hshift : 7 * (place + 1) < 64
    · have hbelow := (toNat_putGroup_lt hshift hlow b).2
      have hextended := toNat_or_ones hshift hbelow
      have hle : 2 ^ (7 * (place + 1)) ≤ 2 ^ 64 := Nat.pow_le_pow_right (by decide) (by omega)
      rw [putSign, if_pos ⟨hshift, hset⟩, hextended]
      generalize 2 ^ (7 * (place + 1)) = next at hbelow hextended hle ⊢
      omega
    · -- the group ends the word: what its sign stands for is a multiple of 2 ^ 64
      obtain ⟨k, hk⟩ : 2 ^ 64 ∣ 2 ^ (7 * (place + 1)) := Nat.pow_dvd_pow 2 (by omega)
      rw [putSign, if_neg fun h => hshift h.1, hk]
      omega
  · have hclear : b &&& 0x40 = 0 := (sign_eq_zero_iff b).mpr (by omega)
    rw [putSign, if_neg fun h => h.2 hclear, if_neg hsign]
    omega

/-- The word of a number has it in two's complement. -/
theorem toInt64_ofInt (i : Int) : (UInt64.ofInt i).toInt64 = Int64.ofInt i := by
  apply Int64.toInt_inj.mp
  rw [Int64.toInt_ofInt, UInt64.ofInt, UInt64.toInt64_ofNat', Int64.toInt_ofNat',
    Int.toNat_of_nonneg (by omega)]
  exact Int.emod_bmod i (2 ^ 64)

end

/-! ## Reading -/

/-- What comes after a fault does not matter. -/
theorem throw_bind {α β : Type} (e : ReadFault) (next : α → Reader ReadFault β) :
    (throw e >>= next) = throw e := rfl

/-- Mapping does not change a failure. -/
theorem map_throw {α β : Type} (f : α → β) (e : ReadFault) :
    f <$> (throw e : Reader ReadFault α) = throw e := rfl

section

variable {used left place : Nat} {word : UInt64}

/-- The unsigned readers take the number that the groups add up to modulo 2 ^ 64, behind the groups
that were read before. -/
theorem unsignedWordFrom_eq (hpos : 0 < used) (hused : used ≤ 7)
    (hfits : 7 * (place + left) + used ≤ 64) (hlow : word.toNat < 2 ^ (7 * place)) :
    unsignedWordFrom used (left + 1) place word = (do
      let n ← unsignedGroups used (left + 1) (place = 0)
      return UInt64.ofNat (word.toNat + 2 ^ (7 * place) * n)) := by
  induction left generalizing place word with
  | zero =>
    rw [unsignedWordFrom, unsignedGroups, bind_assoc]
    refine bind_congr fun b => ?_
    simp only [putGroup_eq_ofNat (show 7 * place < 64 by omega) hlow, high_eq_zero_iff, ne_eq,
      shiftRight_eq_zero_iff hused, Nat.not_lt]
    by_cases hb : continues b = true
    · simp [hb, throw_bind, map_throw]
    · by_cases hlast : 2 ^ used ≤ b.toNat <;> simp [hb, hlast, map_throw]
  | succ left ih =>
    rw [unsignedWordFrom, unsignedGroups, bind_assoc]
    refine bind_congr fun b => ?_
    obtain ⟨hadded, hlt⟩ := toNat_putGroup_lt (show 7 * (place + 1) < 64 by omega) hlow b
    have hsum (n : Nat) : word.toNat + 2 ^ (7 * place) * group b + 2 ^ (7 * (place + 1)) * n =
        word.toNat + 2 ^ (7 * place) * (group b + 128 * n) := by
        rw [Nat.mul_succ, Nat.pow_add]; ring
    have hrest := @ih (place + 1) (putGroup b place word) (by omega) hlt
    simp only [hadded, hsum, Nat.add_one_ne_zero, decide_false] at hrest
    simp only [Nat.add_one_ne_zero, false_and, if_false, high_eq_zero_iff, hrest]
    rw [putGroup_eq_ofNat (show 7 * place < 64 by omega) hlow]
    by_cases hb : continues b = true <;> simp [hb]

/-- The signed readers take the number that the groups add up to modulo 2 ^ 64, behind the groups
that were read before. -/
theorem signedWordFrom_eq (hpos : 0 < used) (hused : used ≤ 7)
    (hfits : 7 * (place + left) + used ≤ 64) (hlow : word.toNat < 2 ^ (7 * place)) :
    signedWordFrom used (left + 1) place word = (do
      let i ← signedGroups used (left + 1) (place = 0)
      return UInt64.ofInt (word.toNat + 2 ^ (7 * place) * i)) := by
  induction left generalizing place word with
  | zero =>
    rw [signedWordFrom, signedGroups, bind_assoc]
    refine bind_congr fun b => ?_
    simp only [putSign_eq_ofInt (show 7 * place < 64 by omega) hlow, high_eq_zero_iff, ne_eq]
    have hmask := signMask_iff hpos hused b
    by_cases hb : continues b = true
    · simp [hb, throw_bind, map_throw]
    · by_cases hlast : signFits used b = true <;> simp [hb, hlast, hmask, map_throw]
  | succ left ih =>
    rw [signedWordFrom, signedGroups, bind_assoc]
    refine bind_congr fun b => ?_
    obtain ⟨hadded, hlt⟩ := toNat_putGroup_lt (show 7 * (place + 1) < 64 by omega) hlow b
    have hsum (i : Int) : ((word.toNat + 2 ^ (7 * place) * group b : Nat) : Int) +
        2 ^ (7 * (place + 1)) * i = word.toNat + 2 ^ (7 * place) * (group b + 128 * i) := by
      rw [Nat.mul_succ, pow_add]
      push_cast
      ring
    have hrest := @ih (place + 1) (putGroup b place word) (by omega) hlt
    simp only [hadded, hsum, Nat.add_one_ne_zero, decide_false] at hrest
    simp only [Nat.add_one_ne_zero, false_and, if_false, high_eq_zero_iff, hrest,
      putSign_eq_ofInt (show 7 * place < 64 by omega) hlow]
    by_cases hb : continues b = true <;> simp [hb]

end

/-- The last byte of an integer may use some of its bits. -/
theorem lastBits_pos {bits : Nat} (hbits : 0 < bits) : 0 < lastBits bits := by
  unfold lastBits maxBytes
  omega

/-- The last byte has seven bits at most. -/
theorem lastBits_le (bits : Nat) : lastBits bits ≤ 7 := by
  unfold lastBits maxBytes
  omega

/-- A number has at least one byte. -/
theorem maxBytes_eq_succ {bits : Nat} (hbits : 0 < bits) :
    maxBytes bits = (maxBytes bits - 1) + 1 := by
  unfold maxBytes
  omega

section

variable {bits : Nat} (hpos : 0 < bits) (hle : bits ≤ 64)

include hpos hle

/-- The word that is read for an unsigned integer of at most 64 bits is the number that its groups
add up to. -/
theorem unsignedWord_eq : unsignedWord bits = (do return UInt64.ofNat (← unsigned bits)) := by
  have hfits : 7 * (0 + (maxBytes bits - 1)) + lastBits bits ≤ 64 := by
    unfold lastBits maxBytes
    omega
  rw [unsignedWord, unsigned, maxBytes_eq_succ hpos,
    unsignedWordFrom_eq (lastBits_pos hpos) (lastBits_le bits) hfits (by simp)]
  simp

/-- The word that is read for a signed integer of at most 64 bits is the number that its groups add
up to. -/
theorem signedWord_eq : signedWord bits = (do return Int64.ofInt (← signed bits)) := by
  have hfits : 7 * (0 + (maxBytes bits - 1)) + lastBits bits ≤ 64 := by
    unfold lastBits maxBytes
    omega
  rw [signedWord, signed, maxBytes_eq_succ hpos,
    signedWordFrom_eq (lastBits_pos hpos) (lastBits_le bits) hfits (by simp)]
  simp [toInt64_ofInt]

end

/-- Shifting in a word reads the number of 32 bits. -/
theorem u32_eq : u32 = (do return (← unsigned 32).toUInt32) := by
  rw [u32, unsignedWord_eq (by decide) (by decide)]
  simp

/-- Shifting in a word reads the number of 64 bits. -/
theorem u64_eq : u64 = (do return (← unsigned 64).toUInt64) :=
  unsignedWord_eq (by decide) (by decide)

/-- Shifting in a word reads the signed number of 32 bits. -/
theorem s32_eq : s32 = (do return (← signed 32).toInt32) := by
  rw [s32, signedWord_eq (by decide) (by decide)]
  simp

/-- Shifting in a word reads the signed number of 64 bits. -/
theorem s64_eq : s64 = (do return (← signed 64).toInt64) :=
  signedWord_eq (by decide) (by decide)

end IntWasm.Leb128
