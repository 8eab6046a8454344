import IntWasm.Leb128.Append
import IntWasm.Proofs.Bytes.Writing
import IntWasm.Proofs.Leb128.Shortest
import IntWasm.Proofs.Leb128.Strict
import Mathlib.Data.Nat.Bitwise

/-!
# Appended runs

Shifting the groups of an integer out of its word appends the run of the integer as a number,
whatever was there before. What is appended is read back by the readers of the width and by those of
32 bits if the number fits, and no other byte string that is read as the same integer is shorter.
Main statement: `Leb128.appended_runs_are_inverted`.
-/

namespace IntWasm.Leb128

/-! ## Groups of a word -/

/-- The low group is the number modulo 128. -/
theorem toNat_lowGroup (n : UInt64) : (lowGroup n).toNat = n.toNat % 128 := by
  have hmask : n.toNat &&& 127 = n.toNat % 128 := Nat.and_two_pow_sub_one_eq_mod n.toNat 7
  rw [lowGroup, UInt64.toNat_toUInt8, UInt64.toNat_and]
  show (n.toNat &&& 127) % 256 = n.toNat % 128
  omega

/-- It is the byte of a number's last group. -/
theorem lowGroup_eq (n : UInt64) : lowGroup n = lowByte n.toNat false := by
  apply UInt8.toNat_inj.mp
  rw [toNat_lowGroup, toNat_lowByte]
  simp

/-- Setting the highest bit of a group announces another byte. -/
theorem lowGroup_or (n : UInt64) : lowGroup n ||| 0x80 = lowByte n.toNat true := by
  have hlow : n.toNat % 128 < 2 ^ 7 := Nat.mod_lt _ (by decide)
  have hor : 2 ^ 7 * 1 + n.toNat % 128 = 2 ^ 7 * 1 ||| n.toNat % 128 :=
    Nat.two_pow_add_eq_or_of_lt hlow 1
  apply UInt8.toNat_inj.mp
  rw [UInt8.toNat_or, toNat_lowGroup, toNat_lowByte, Nat.or_comm]
  show 2 ^ 7 * 1 ||| n.toNat % 128 = n.toNat % 128 + 128
  omega

/-- A word has the lowest group of the signed number that it stands for. -/
theorem toNat_toUInt64_mod (n : Int64) : n.toUInt64.toNat % 128 = (n.toInt % 128).toNat := by
  have hbits : n.toInt = Int.bmod n.toUInt64.toNat (2 ^ 64) := BitVec.toInt_eq_toNat_bmod n.toBitVec
  rw [hbits, Int.bmod_def]
  split <;> omega

/-- A byte depends on the lowest group of its number only. -/
theorem lowByte_mod (n : Nat) (more : Bool) : lowByte (n % 128) more = lowByte n more := by
  simp [lowByte]

/-- More groups follow exactly if a number does not fit into seven bits with its sign. -/
theorem needsMore_iff (n : Int64) :
    needsMore (lowGroup n.toUInt64) (n >>> 7) = true ↔ ¬ (-64 ≤ n.toInt ∧ n.toInt < 64) := by
  have hgroup := toNat_lowGroup n.toUInt64
  rw [toNat_toUInt64_mod] at hgroup
  have hhigh := toInt_shiftRight_seven n
  have hminus : n >>> 7 = -1 ↔ n.toInt / 128 = -1 := by
    rw [← hhigh]
    exact Int64.toInt_inj.symm
  have hzero : n >>> 7 = 0 ↔ n.toInt / 128 = 0 := by
    rw [← hhigh]
    exact Int64.toInt_inj.symm
  simp only [needsMore, decide_eq_true_eq, ne_eq, sign_eq_zero_iff, group, hminus, hzero, hgroup]
  omega

/-! ## Appending -/

/-- The induction is on the groups that are still to be shifted out. -/
theorem appendU64_eq (out : List UInt8) (n : UInt64) : appendU64 out n = out ++ encodeU64 n := by
  unfold encodeU64
  induction out, n using appendU64.induct with
  | case1 out n hlast =>
    have hsmall : n.toNat < 128 := by
      have hhigh := toNat_shiftRight_seven n
      rw [hlast] at hhigh
      change 0 = n.toNat / 128 at hhigh
      omega
    rw [appendU64, if_pos hlast, encodeNat_of_lt hsmall, lowGroup_eq]
  | case2 out n hmore ih =>
    have hlarge : 128 ≤ n.toNat := by
      have hhigh := toNat_shiftRight_seven n
      have hne : (n >>> 7).toNat ≠ 0 := fun h => hmore (UInt64.toNat_inj.mp h)
      omega
    rw [appendU64, if_neg hmore, ih, encodeNat_of_le hlarge, toNat_shiftRight_seven, lowGroup_or,
      List.append_assoc, List.singleton_append]

/-- What is appended is the shortest spelling. -/
theorem appendS64_eq (out : List UInt8) (n : Int64) : appendS64 out n = out ++ encodeS64 n := by
  unfold encodeS64
  have hlow (n : Int64) (more : Bool) :
      lowByte n.toUInt64.toNat more = lowByte (n.toInt % 128).toNat more := by
    rw [← lowByte_mod, toNat_toUInt64_mod]
  induction out, n using appendS64.induct with
  | case1 out n hmore ih =>
    rw [appendS64, if_pos hmore, ih, encodeInt_of_large ((needsMore_iff n).mp hmore),
      toInt_shiftRight_seven, lowGroup_or, hlow, List.append_assoc, List.singleton_append]
  | case2 out n hlast =>
    have hsmall : -64 ≤ n.toInt ∧ n.toInt < 64 := by
      by_contra hlarge
      exact hlast ((needsMore_iff n).mpr hlarge)
    rw [appendS64, if_neg hlast, encodeInt_of_small hsmall, lowGroup_eq, hlow]

/-! ## Reading what was appended -/

/-- No run for a signed number is shorter than what is written for the number. -/
theorem length_encodeInt_signedValue_le {run : List UInt8} (hrun : IsRun run) :
    (encodeInt (signedValue run)).length ≤ run.length := by
  obtain ⟨hlow, hhigh⟩ := signedValue_bounds hrun
  have hlength := length_encodeInt_le hlow hhigh
  have hpos := hrun.length_pos
  omega

/-- What is written for a signed number is not longer than any run that stands for it. -/
theorem SpellsSigned.length_encodeInt_le {bits : Nat} {i : Int} {run : List UInt8}
    (hrun : SpellsSigned bits i run) : (encodeInt i).length ≤ run.length := by
  have hle := length_encodeInt_signedValue_le hrun.isRun
  rwa [hrun.value_eq] at hle

/-- What is written for a number of 64 bits is read as that number. -/
theorem spellsUnsigned_encodeU64 (n : UInt64) : SpellsUnsigned 64 n.toNat (encodeU64 n) where
  isRun := isRun_encodeNat _
  length_le := by
    have hlt := n.toNat_lt
    have hroom : n.toNat < 128 ^ (9 + 1) := by omega
    exact length_encodeNat_le hroom
  value_eq := unsignedValue_encodeNat _
  value_lt := n.toNat_lt

/-- A run that an appending function puts behind any byte string for an integer: it does not depend
on what it is put behind, the readers of the integer's width and of 32 bits read it back from the
front of any input, and nothing shorter is read as the integer. -/
structure Inverts {α β : Type} (append : List UInt8 → α → List UInt8) (wide : Reader ReadFault α)
    (narrow : Reader ReadFault β) (widen : β → α) (v : α) (run : List UInt8) : Prop where
  append_eq : ∀ out, append out v = out ++ run
  decode_wide : ∀ rest, decode wide (run ++ rest) = (.ok v, run.length)
  decode_narrow : ∀ w, widen w = v → ∀ rest, decode narrow (run ++ rest) = (.ok w, run.length)
  length_narrow : ∀ w, widen w = v → run.length ≤ 5
  le_of_wide : ∀ bytes n, decode wide bytes = (.ok v, n) → run.length ≤ bytes.length
  le_of_narrow : ∀ w, widen w = v → ∀ bytes n, decode narrow bytes = (.ok w, n) →
    run.length ≤ bytes.length

/-- A run is the shortest for an integer if the readers take it and no run that they take is
shorter. -/
theorem inverts_of_reads {α β : Type} {append : List UInt8 → α → List UInt8}
    {wide : Reader ReadFault α} {narrow : Reader ReadFault β} {widen : β → α}
    {P : α → List UInt8 → Prop} {Q : β → List UInt8 → Prop}
    (hwide : ∀ {c c' : Cursor} {a : α}, wide c = .ok a c' ↔
      ∃ run rest, c.rest = run ++ rest ∧ P a run ∧
        { c with rest, consumed := c.consumed + run.length } = c')
    (hnarrow : ∀ {c c' : Cursor} {b : β}, narrow c = .ok b c' ↔
      ∃ run rest, c.rest = run ++ rest ∧ Q b run ∧
        { c with rest, consumed := c.consumed + run.length } = c')
    {v : α} {run : List UInt8} (happend : ∀ out, append out v = out ++ run) (hrun : P v run)
    (hfits : ∀ w, widen w = v → Q w run ∧ run.length ≤ 5)
    (hleWide : ∀ other, P v other → run.length ≤ other.length)
    (hleNarrow : ∀ w, widen w = v → ∀ other, Q w other → run.length ≤ other.length) :
    Inverts append wide narrow widen v run where
  append_eq := happend
  decode_wide rest := (decode_eq_ok_iff hwide).mpr ⟨run, rest, rfl, hrun, rfl⟩
  decode_narrow w hw rest := (decode_eq_ok_iff hnarrow).mpr ⟨run, rest, rfl, (hfits w hw).1, rfl⟩
  length_narrow w hw := (hfits w hw).2
  le_of_wide bytes n h := by
    obtain ⟨other, rest, rfl, hother, -⟩ := (decode_eq_ok_iff hwide).mp h
    have hle := hleWide other hother
    rw [List.length_append]
    omega
  le_of_narrow w hw bytes n h := by
    obtain ⟨other, rest, rfl, hother, -⟩ := (decode_eq_ok_iff hnarrow).mp h
    have hle := hleNarrow w hw other hother
    rw [List.length_append]
    omega

/-- Reading inverts appending. -/
theorem inverts_appendU64 (v : UInt64) :
    Inverts appendU64 u64 u32 UInt32.toUInt64 v (encodeU64 v) := by
  refine inverts_of_reads u64_eq_ok_iff u32_eq_ok_iff (appendU64_eq · v)
    (spellsUnsigned_encodeU64 v) ?_ (fun _ hother => hother.length_encodeNat_le le_rfl) ?_
  · rintro w rfl
    have hspells := spellsUnsigned_encodeNat w.toNat_lt
    exact ⟨by simpa [encodeU64] using hspells, by
      simpa [encodeU64, maxBytes] using hspells.length_le⟩
  · rintro w rfl other hother
    exact hother.length_encodeNat_le (by simp)

/-- Reading inverts appending, also of negative numbers. -/
theorem inverts_appendS64 (v : Int64) :
    Inverts appendS64 s64 s32 Int32.toInt64 v (encodeS64 v) := by
  refine inverts_of_reads s64_eq_ok_iff s32_eq_ok_iff (appendS64_eq · v) (spellsSigned_encodeS64 v)
    ?_ (fun _ hother => hother.length_encodeInt_le) ?_
  · rintro w rfl
    have hspells := spellsSigned_encodeS32 w
    exact ⟨by simpa [encodeS64, encodeS32] using hspells,
      by simpa [encodeS64, encodeS32, maxBytes] using hspells.length_le⟩
  · rintro w rfl other hother
    simpa [encodeS64] using hother.length_encodeInt_le

/-- An integer of 32 bits has the run of the same number of 64 bits. -/
theorem writeU32_eq (n : UInt32) : writeU32 n = writeU64 n.toUInt64 := by
  rw [writeU32, writeU64, appendU64_eq, List.nil_append, encodeU32, encodeU64,
    UInt32.toNat_toUInt64]

/-- What a writer of integers puts into a sink is read back from the front of any input. -/
def RoundTrips {α : Type} (limit : Nat) (write : α → Writer WriteFault Unit)
    (read : Reader ReadFault α) : Prop :=
  ∀ a, ∃ run, run.length ≤ limit ∧ Writer.Puts id (write a) run ∧
    ∀ c : Cursor, read { c with rest := run ++ c.rest } =
      .ok a { c with consumed := c.consumed + run.length }

/-- For every integer of 64 bits there is one run that is appended to whatever is there, is read
back by the readers of 64 bits, and of 32 bits if the integer fits, whatever follows it, and is not
longer than any byte string that is read as the integer. So integers of 32 bits, which are written
as the same numbers of 64 bits, survive writing and reading in five bytes, and those of 64 bits in
ten. -/
theorem appended_runs_are_inverted :
    (∀ v, ∃ run, Inverts appendU64 u64 u32 UInt32.toUInt64 v run) ∧
    (∀ v, ∃ run, Inverts appendS64 s64 s32 Int32.toInt64 v run) ∧
    (∀ n, writeU32 n = writeU64 n.toUInt64) ∧ RoundTrips 5 writeU32 u32 ∧
    RoundTrips 10 writeU64 u64 ∧
    RoundTrips 5 writeS32 s32 ∧ RoundTrips 10 writeS64 s64 := by
  refine ⟨fun v => ⟨_, inverts_appendU64 v⟩, fun v => ⟨_, inverts_appendS64 v⟩, writeU32_eq, ?u32,
    ?u64, ?s32, ?s64⟩
  case u32 =>
    intro n
    have hrun := spellsUnsigned_encodeNat n.toNat_lt
    exact ⟨encodeU32 n, hrun.length_le, Writer.puts_bytes _,
      fun c => u32_eq_ok_iff.mpr ⟨_, _, rfl, hrun, rfl⟩⟩
  case u64 =>
    intro n
    have hrun := spellsUnsigned_encodeU64 n
    refine ⟨encodeU64 n, hrun.length_le, ?_, fun c => u64_eq_ok_iff.mpr ⟨_, _, rfl, hrun, rfl⟩⟩
    rw [writeU64, appendU64_eq, List.nil_append]
    exact Writer.puts_bytes _
  case s32 =>
    intro n
    have hrun := spellsSigned_encodeS32 n
    refine ⟨encodeS32 n, hrun.length_le, ?_, fun c => s32_eq_ok_iff.mpr ⟨_, _, rfl, hrun, rfl⟩⟩
    rw [writeS32, writeS64, appendS64_eq, List.nil_append, encodeS64, Int32.toInt_toInt64]
    exact Writer.puts_bytes _
  case s64 =>
    intro n
    have hrun := spellsSigned_encodeS64 n
    refine ⟨encodeS64 n, hrun.length_le, ?_, fun c => s64_eq_ok_iff.mpr ⟨_, _, rfl, hrun, rfl⟩⟩
    rw [writeS64, appendS64_eq, List.nil_append]
    exact Writer.puts_bytes _

/-- A number at the border of what a signed group can hold takes a byte more. -/
example : appendS64 [] 63 = [0x3f] ∧ appendS64 [] 64 = [0xc0, 0x00] ∧ appendS64 [] (-64) = [0x40] ∧
    appendS64 [] (-65) = [0xbf, 0x7f] := by
  refine ⟨?_, ?_, ?_, ?_⟩ <;> cbv

end IntWasm.Leb128
