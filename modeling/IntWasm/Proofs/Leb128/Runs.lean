import IntWasm.Instruction.Decode
import IntWasm.Proofs.Leb128.Groups
import Mathlib.Tactic.IntervalCases
import Mathlib.Tactic.Positivity
import Mathlib.Tactic.Ring

/-!
# Runs of seven-bit groups

A run is a byte string in which every byte but the last announces another one. It stands for the
number that its groups spell in base 128. Main statement: reading an integer of a given width takes
a run off the front of its input exactly if the run is not too long and its number has that width;
how many of the high groups are padding does not matter.
-/

namespace IntWasm.Leb128

/-- Every byte but the last has its high bit set. -/
def IsRun : List UInt8 → Prop
  | [] => False
  | [b] => continues b = false
  | b :: bs => continues b = true ∧ IsRun bs

/-- The number that the groups of a run spell, the least significant first. -/
def unsignedValue : List UInt8 → Nat
  | [] => 0
  | b :: bs => group b + 128 * unsignedValue bs

/-- The number that the groups of a run spell in two's complement. -/
def signedValue : List UInt8 → Int
  | [] => 0
  | [b] => signedGroup b
  | b :: bs => group b + 128 * signedValue bs

/-- A run that stands for an unsigned number of `bits` bits. -/
structure SpellsUnsigned (bits n : Nat) (run : List UInt8) : Prop where
  isRun : IsRun run
  length_le : run.length ≤ maxBytes bits
  value_eq : unsignedValue run = n
  value_lt : n < 2 ^ bits

/-- A run that stands for a signed number of `bits` bits. -/
structure SpellsSigned (bits : Nat) (i : Int) (run : List UInt8) : Prop where
  isRun : IsRun run
  length_le : run.length ≤ maxBytes bits
  value_eq : signedValue run = i
  le_value : -2 ^ (bits - 1) ≤ i
  value_lt : i < 2 ^ (bits - 1)

/-! ## Groups -/

/-- A group has seven bits. -/
theorem group_lt (b : UInt8) : group b < 128 := Nat.mod_lt _ (by decide)

/-- A byte that announces nothing is its own group. -/
theorem group_eq_toNat {b : UInt8} (hb : continues b = false) : group b = b.toNat := by
  simp only [continues, decide_eq_false_iff_not, Nat.not_le] at hb
  exact Nat.mod_eq_of_lt hb

/-- The last byte of a run is one that announces nothing, and any byte before it is one that
does. -/
theorem isRun_cons {b : UInt8} {bs : List UInt8} :
    IsRun (b :: bs) ↔ (continues b = false ∧ bs = []) ∨ (continues b = true ∧ IsRun bs) := by
  cases bs with
  | nil => simp [IsRun]
  | cons c cs => simp [IsRun]

/-- A run has a last byte. -/
theorem IsRun.ne_nil {run : List UInt8} (hrun : IsRun run) : run ≠ [] := by
  rintro rfl
  exact hrun

/-- A run has at least one byte. -/
theorem IsRun.length_pos {run : List UInt8} (hrun : IsRun run) : 0 < run.length :=
  List.length_pos_iff.mpr hrun.ne_nil

/-- The first byte counts least. -/
theorem signedValue_cons {b : UInt8} {bs : List UInt8} (hbs : IsRun bs) :
    signedValue (b :: bs) = group b + 128 * signedValue bs := by
  cases bs with
  | nil => exact absurd rfl hbs.ne_nil
  | cons c cs => rfl

/-! ## Reading groups -/

/-- A byte is read alike at the front of an integer and inside of it. -/
theorem nextByte_cons (first : Bool) (b : UInt8) (rest : List UInt8) (c : Cursor) :
    nextByte first { c with rest := b :: rest } =
      .ok b { c with rest, consumed := c.consumed + 1 } := by
  cases first <;> rfl

section Groups

variable {α : Type}

variable (refuses : UInt8 → Option ReadFault) (ends : UInt8 → α) (goesOn : UInt8 → α → α)

/-- Reads a run of at most `left` more bytes: the last byte that is allowed may be refused, and the
value is built from the last byte upwards. -/
def groups : Nat → Bool → Reader ReadFault α
  | 0, _ => throw .tooLong
  | left + 1, first => do
    let b ← nextByte first
    if left = 0 ∧ continues b then throw .tooLong
    if let some fault := (if left = 0 then refuses b else none) then throw fault
    if continues b then
      let high ← groups left false
      return goesOn b high
    else return ends b

/-- What one byte more does to the reading of a run. -/
theorem groups_cons (left : Nat) (first : Bool) (b : UInt8) (rest : List UInt8) (c : Cursor) :
    groups refuses ends goesOn (left + 1) first { c with rest := b :: rest } =
      if left = 0 ∧ continues b then .error .tooLong { c with rest, consumed := c.consumed + 1 }
      else match (if left = 0 then refuses b else none) with
      | some fault => .error fault { c with rest, consumed := c.consumed + 1 }
      | none =>
        if continues b then (goesOn b <$> groups refuses ends goesOn left false)
          { c with rest, consumed := c.consumed + 1 }
        else .ok (ends b) { c with rest, consumed := c.consumed + 1 } := by
  simp only [groups, bind, EStateM.bind, nextByte_cons]
  split
  · rfl
  · cases (if left = 0 then refuses b else none) with
    | some fault => rfl
    | none =>
      simp only
      split
      · rfl
      · rfl

/-- Where the input has ended no group is read. -/
theorem groups_nil (left : Nat) (first : Bool) (c : Cursor) (hrest : c.rest = []) :
    ∃ fault, groups refuses ends goesOn (left + 1) first c = .error fault c ∧
      (c.ending = .eof → fault.inside = .truncated) := by
  obtain ⟨rest, consumed, origin, ending⟩ := c
  subst hrest
  cases first with
  | true => exact ⟨ending.fault, rfl, by rintro rfl; rfl⟩
  | false => exact ⟨ending.fault.inside, rfl, by rintro rfl; rfl⟩

variable {refuses ends goesOn}

/-- One byte more of a run: the last byte that is allowed ends it and is not refused, and any other
byte goes on exactly if it says so. -/
theorem groups_cons_eq_ok_iff {left : Nat} {first : Bool} {b : UInt8} {rest : List UInt8}
    {c c' : Cursor} {v : α} :
    groups refuses ends goesOn (left + 1) first { c with rest := b :: rest } = .ok v c' ↔
      (continues b = false ∧ (left = 0 → refuses b = none) ∧ ends b = v ∧
        { c with rest, consumed := c.consumed + 1 } = c') ∨
      (continues b = true ∧ left ≠ 0 ∧ ∃ high, groups refuses ends goesOn left false
          { c with rest, consumed := c.consumed + 1 } = .ok high c' ∧ goesOn b high = v) := by
  simp only [groups, estate_bind_eq_ok, nextByte_cons]
  by_cases hleft : left = 0 <;> by_cases hb : continues b = true <;>
    cases hrefused : refuses b <;> simp [hleft, hb, hrefused]

/-- What a reader of runs builds is the value of the run, and of the values of at most `left + 1`
bytes it takes those that fit. -/
structure Builds (refuses : UInt8 → Option ReadFault) (ends : UInt8 → α) (goesOn : UInt8 → α → α)
    (value : List UInt8 → α) (Fits : Nat → α → Prop) : Prop where
  value_last : ∀ b, value [b] = ends b
  value_cons : ∀ b {run}, IsRun run → value (b :: run) = goesOn b (value run)
  fits_last : ∀ {b}, continues b = false → (Fits 0 (ends b) ↔ refuses b = none)
  fits_short : ∀ left b, Fits (left + 1) (ends b)
  fits_cons : ∀ left b v, Fits (left + 1) (goesOn b v) ↔ Fits left v

/-- The groups of an integer of at most `left + 1` bytes are read exactly if they are a run whose
value fits, and the rest of the input stays. -/
theorem Builds.groups_eq_ok_iff {value : List UInt8 → α} {Fits : Nat → α → Prop}
    (hbuilds : Builds refuses ends goesOn value Fits) {left : Nat} {first : Bool} {c c' : Cursor}
    {v : α} :
    groups refuses ends goesOn (left + 1) first c = .ok v c' ↔
      ∃ run rest, c.rest = run ++ rest ∧ IsRun run ∧ run.length ≤ left + 1 ∧ value run = v ∧
        Fits left v ∧ { c with rest, consumed := c.consumed + run.length } = c' := by
  obtain ⟨input, consumed, origin, ending⟩ := c
  induction input generalizing left first consumed v with
  -- By induction on the input, so that both sides lose their first byte together; how many bytes
  -- may follow only matters where a run ends.
  | nil =>
    obtain ⟨fault, hfault, -⟩ :=
      groups_nil refuses ends goesOn left first ⟨[], consumed, origin, ending⟩ rfl
    rw [hfault]
    constructor
    · intro hok
      cases hok
    · rintro ⟨run, rest, hrest, hrun, -⟩
      exact absurd (List.append_eq_nil_iff.mp hrest.symm).1 hrun.ne_nil
  | cons b input ih =>
    rw [groups_cons_eq_ok_iff (c := ⟨b :: input, consumed, origin, ending⟩)]
    constructor
    · rintro (⟨hb, hlast, rfl, rfl⟩ | ⟨hb, hleft, high, hhigh, rfl⟩)
      · refine ⟨[b], input, rfl, hb, by simp, hbuilds.value_last b, ?_, rfl⟩
        cases left with
        | zero => exact (hbuilds.fits_last hb).mpr (hlast rfl)
        | succ left => exact hbuilds.fits_short left b
      · obtain ⟨left, rfl⟩ := Nat.exists_eq_succ_of_ne_zero hleft
        obtain ⟨run, rest, hrest, hrun, hlength, rfl, hfits, rfl⟩ := (ih (consumed + 1)).mp hhigh
        refine ⟨b :: run, rest, congrArg (b :: ·) hrest, isRun_cons.mpr (.inr ⟨hb, hrun⟩),
          by simpa using hlength, hbuilds.value_cons b hrun,
          (hbuilds.fits_cons left b _).mpr hfits, ?_⟩
        simp only [List.length_cons]
        congr 1
        omega
    · rintro ⟨run, rest, hrest, hrun, hlength, rfl, hfits, rfl⟩
      cases run with
      | nil => exact absurd rfl hrun.ne_nil
      | cons d run =>
        obtain ⟨rfl, rfl⟩ : b = d ∧ input = run ++ rest := by simpa using hrest
        rcases isRun_cons.mp hrun with ⟨hb, rfl⟩ | ⟨hb, htail⟩
        · rw [hbuilds.value_last] at hfits
          refine .inl ⟨hb, ?_, (hbuilds.value_last b).symm, rfl⟩
          rintro rfl
          exact (hbuilds.fits_last hb).mp hfits
        · have hpos := htail.length_pos
          rw [List.length_cons] at hlength
          obtain ⟨left, rfl⟩ := Nat.exists_eq_succ_of_ne_zero (show left ≠ 0 by omega)
          rw [hbuilds.value_cons b htail, hbuilds.fits_cons] at hfits
          refine .inr ⟨hb, Nat.succ_ne_zero left, value run, (ih (consumed + 1)).mpr ?_,
            (hbuilds.value_cons b htail).symm⟩
          refine ⟨run, rest, rfl, htail, by omega, rfl, hfits, ?_⟩
          simp only [List.length_cons]
          congr 1
          omega

end Groups

/-! ## Groups of integers -/

/-- The reading of unsigned groups as the reading of a run. -/
theorem unsignedGroups_eq_groups (used left : Nat) (first : Bool) :
    unsignedGroups used left first =
      groups (fun b => if 2 ^ used ≤ b.toNat then some .tooLarge else none) group
        (fun b high => group b + 128 * high) left first := by
  induction left generalizing first with
  | zero => rfl
  | succ left ih =>
    unfold unsignedGroups groups
    congr 1
    funext b
    rw [ih]
    by_cases hleft : left = 0 <;> by_cases hfits : 2 ^ used ≤ b.toNat <;> simp [hleft, hfits]

/-- The reading of signed groups as the reading of a run. -/
theorem signedGroups_eq_groups (used left : Nat) (first : Bool) :
    signedGroups used left first =
      groups (fun b => if signFits used b then none else some .signBits) signedGroup
        (fun b high => group b + 128 * high) left first := by
  induction left generalizing first with
  | zero => rfl
  | succ left ih =>
    unfold signedGroups groups
    congr 1
    funext b
    rw [ih]
    by_cases hleft : left = 0 <;> by_cases hfits : signFits used b = true <;> simp [hleft, hfits]

/-- The last group of a signed number is not below -64. -/
theorem le_signedGroup (b : UInt8) : -64 ≤ signedGroup b := by
  unfold signedGroup
  split <;> omega

/-- The last group of a signed number is below 64. -/
theorem signedGroup_lt (b : UInt8) : signedGroup b < 64 := by
  have := group_lt b
  unfold signedGroup
  split <;> omega

/-- The spare bits of a last byte repeat its sign exactly if its group is a number of the bits that
are left. -/
theorem signFits_iff {used : Nat} (hpos : 0 < used) (hused : used ≤ 7) (b : UInt8) :
    signFits used b = true ↔
      -(2 : Int) ^ (used - 1) ≤ signedGroup b ∧ signedGroup b < 2 ^ (used - 1) := by
  have hb := group_lt b
  unfold signFits signedGroup
  interval_cases used <;> simp <;> split <;> omega

/-- An unsigned integer is built from its groups, and fits if the last one has no bits to spare. -/
theorem builds_unsigned (used : Nat) :
    Builds (fun b => if 2 ^ used ≤ b.toNat then some .tooLarge else none) group
      (fun b high => group b + 128 * high) unsignedValue
      fun left n => n < 128 ^ left * 2 ^ used where
  value_last b := by simp [unsignedValue]
  value_cons b {run} _ := rfl
  fits_last {b} hb := by simp [group_eq_toNat hb]
  fits_short left b := by
    have hpos : 1 ≤ 128 ^ left * 2 ^ used := Nat.mul_pos (by positivity) (by positivity)
    have hb := group_lt b
    rw [pow_succ', Nat.mul_assoc]
    omega
  fits_cons left b n := by
    have hb := group_lt b
    rw [pow_succ', Nat.mul_assoc]
    omega

/-- A signed integer is built from its groups, and fits if the spare bits of the last one repeat its
sign. -/
theorem builds_signed {used : Nat} (hpos : 0 < used) (hused : used ≤ 7) :
    Builds (fun b => if signFits used b then none else some .signBits) signedGroup
      (fun b high => group b + 128 * high) signedValue
      fun left i => -(128 ^ left * 2 ^ (used - 1)) ≤ i ∧ i < 128 ^ left * 2 ^ (used - 1) where
  value_last b := rfl
  value_cons b {run} hrun := signedValue_cons hrun
  fits_last {b} _ := by
    have hfits := signFits_iff hpos hused b
    rw [pow_zero, one_mul, ← hfits]
    simp
  fits_short left b := by
    -- The bounds are symmetric: a low group moves the scaled rest by less than one step.
    have hroom : (0 : Int) < 128 ^ left * 2 ^ (used - 1) := by positivity
    have hlow := le_signedGroup b
    have hhigh := signedGroup_lt b
    rw [pow_succ', mul_assoc]
    omega
  fits_cons left b i := by
    have hb := group_lt b
    rw [pow_succ', mul_assoc]
    omega

/-- The groups of an unsigned integer of at most `left + 1` bytes are read exactly if they are a run
whose number fits, and the rest of the input stays. -/
theorem unsignedGroups_eq_ok_iff {used left : Nat} {first : Bool} {c c' : Cursor} {n : Nat} :
    unsignedGroups used (left + 1) first c = .ok n c' ↔
      ∃ run rest, c.rest = run ++ rest ∧ IsRun run ∧ run.length ≤ left + 1 ∧
        unsignedValue run = n ∧ n < 128 ^ left * 2 ^ used ∧
          { c with rest, consumed := c.consumed + run.length } = c' := by
  rw [unsignedGroups_eq_groups]
  exact (builds_unsigned used).groups_eq_ok_iff

/-- The groups of a signed integer of at most `left + 1` bytes are read exactly if they are a run
whose number fits, and the rest of the input stays. -/
theorem signedGroups_eq_ok_iff {used left : Nat} (hpos : 0 < used) (hused : used ≤ 7)
    {first : Bool} {c c' : Cursor} {i : Int} :
    signedGroups used (left + 1) first c = .ok i c' ↔
      ∃ run rest, c.rest = run ++ rest ∧ IsRun run ∧ run.length ≤ left + 1 ∧
        signedValue run = i ∧ -(128 ^ left * 2 ^ (used - 1)) ≤ i ∧ i < 128 ^ left * 2 ^ (used - 1) ∧
          { c with rest, consumed := c.consumed + run.length } = c' := by
  rw [signedGroups_eq_groups, (builds_signed hpos hused).groups_eq_ok_iff]
  simp only [and_assoc]

/-! ## Reading integers -/

/-- The bytes before the last one and the bits of the last one make up the width. -/
theorem pow_lastBits {bits : Nat} (hbits : 0 < bits) :
    128 ^ (maxBytes bits - 1) * 2 ^ lastBits bits = 2 ^ bits := by
  rw [show 128 = 2 ^ 7 from rfl, ← Nat.pow_mul, ← Nat.pow_add]
  congr 1
  unfold lastBits maxBytes
  omega

/-- An unsigned integer is read exactly if a run that stands for one is at the front. -/
theorem unsigned_eq_ok_iff {bits : Nat} (hbits : 0 < bits) {c c' : Cursor} {n : Nat} :
    unsigned bits c = .ok n c' ↔
      ∃ run rest, c.rest = run ++ rest ∧ SpellsUnsigned bits n run ∧
        { c with rest, consumed := c.consumed + run.length } = c' := by
  unfold unsigned
  rw [maxBytes_eq_succ hbits, unsignedGroups_eq_ok_iff, pow_lastBits hbits]
  constructor
  · rintro ⟨run, rest, hrest, hrun, hlength, hvalue, hlt, hafter⟩
    exact ⟨run, rest, hrest, ⟨hrun, by rwa [maxBytes_eq_succ hbits], hvalue, hlt⟩, hafter⟩
  · rintro ⟨run, rest, hrest, ⟨hrun, hlength, hvalue, hlt⟩, hafter⟩
    exact ⟨run, rest, hrest, hrun, by rwa [← maxBytes_eq_succ hbits], hvalue, hlt, hafter⟩

/-- A signed integer is read exactly if a run that stands for one is at the front. -/
theorem signed_eq_ok_iff {bits : Nat} (hbits : 0 < bits) {c c' : Cursor} {i : Int} :
    signed bits c = .ok i c' ↔
      ∃ run rest, c.rest = run ++ rest ∧ SpellsSigned bits i run ∧
        { c with rest, consumed := c.consumed + run.length } = c' := by
  have hpow : (128 : Int) ^ (maxBytes bits - 1) * 2 ^ (lastBits bits - 1) = 2 ^ (bits - 1) := by
    rw [show (128 : Int) = 2 ^ 7 from rfl, ← pow_mul, ← pow_add]
    congr 1
    unfold lastBits maxBytes
    omega
  unfold signed
  rw [maxBytes_eq_succ hbits, signedGroups_eq_ok_iff (lastBits_pos hbits) (lastBits_le bits), hpow]
  constructor
  · rintro ⟨run, rest, hrest, hrun, hlength, hvalue, hle, hlt, hafter⟩
    exact ⟨run, rest, hrest, ⟨hrun, by rwa [maxBytes_eq_succ hbits], hvalue, hle, hlt⟩, hafter⟩
  · rintro ⟨run, rest, hrest, ⟨hrun, hlength, hvalue, hle, hlt⟩, hafter⟩
    exact ⟨run, rest, hrest, hrun, by rwa [← maxBytes_eq_succ hbits], hvalue, hle, hlt, hafter⟩

/-- A number at the front of a byte string is what its reader finds there. -/
theorem number_eq_ok_iff {α : Type} {r : Reader ReadFault α} {P : α → List UInt8 → Prop}
    (hread : ∀ {c c' : Cursor} {a : α}, r c = .ok a c' ↔
      ∃ run rest, c.rest = run ++ rest ∧ P a run ∧
        { c with rest, consumed := c.consumed + run.length } = c')
    {bytes rest : List UInt8} {a : α} :
    Instruction.number r bytes = .ok (a, rest) ↔ ∃ run, bytes = run ++ rest ∧ P a run := by
  unfold Instruction.number decode
  cases hok : r { rest := bytes } with
  | ok b after =>
    obtain ⟨run, tail, hbytes, hrun, rfl⟩ := hread.mp hok
    simp only at hbytes
    subst hbytes
    constructor
    · intro h
      simp only [Nat.zero_add, List.drop_left, Except.ok.injEq, Prod.mk.injEq] at h
      obtain ⟨rfl, rfl⟩ := h
      exact ⟨run, rfl, hrun⟩
    · rintro ⟨other, hsplit, hother⟩
      have hagain := hread.mpr
        ⟨other, rest, show ({ rest := run ++ tail } : Cursor).rest = _ from hsplit, hother, rfl⟩
      rw [hok] at hagain
      simp only [EStateM.Result.ok.injEq, Cursor.mk.injEq] at hagain
      obtain ⟨rfl, rfl, -⟩ := hagain
      simp
  | error e after =>
    constructor
    · intro h
      cases h
    · rintro ⟨run, rfl, hrun⟩
      have hagain := hread.mpr ⟨run, rest, show ({ rest := run ++ rest } : Cursor).rest =
        _ from rfl, hrun, rfl⟩
      rw [hok] at hagain
      cases hagain

/-- A number of 32 bits is read exactly from its spellings. -/
theorem u32_eq_ok_iff {c c' : Cursor} {v : UInt32} :
    u32 c = .ok v c' ↔
      ∃ run rest, c.rest = run ++ rest ∧ SpellsUnsigned 32 v.toNat run ∧
        { c with rest, consumed := c.consumed + run.length } = c' := by
  simp only [u32_eq, estate_bind_eq_ok, estate_pure_eq_ok,
    unsigned_eq_ok_iff (show 0 < 32 by decide)]
  constructor
  · rintro ⟨n, _, ⟨run, rest, hrest, hrun, rfl⟩, rfl, rfl⟩
    refine ⟨run, rest, hrest, ?_, rfl⟩
    have hlt : n < 4294967296 := hrun.value_lt
    simpa [Nat.mod_eq_of_lt hlt] using hrun
  · rintro ⟨run, rest, hrest, hrun, rfl⟩
    exact ⟨v.toNat, _, ⟨run, rest, hrest, hrun, rfl⟩, by simp, rfl⟩

/-- A signed number of 32 bits is read exactly from its spellings. -/
theorem s32_eq_ok_iff {c c' : Cursor} {v : Int32} :
    s32 c = .ok v c' ↔
      ∃ run rest, c.rest = run ++ rest ∧ SpellsSigned 32 v.toInt run ∧
        { c with rest, consumed := c.consumed + run.length } = c' := by
  simp only [s32_eq, estate_bind_eq_ok, estate_pure_eq_ok, signed_eq_ok_iff (show 0 < 32 by decide)]
  constructor
  · rintro ⟨i, _, ⟨run, rest, hrest, hrun, rfl⟩, rfl, rfl⟩
    refine ⟨run, rest, hrest, ?_, rfl⟩
    rwa [Int32.toInt_ofInt_of_le hrun.le_value hrun.value_lt]
  · rintro ⟨run, rest, hrest, hrun, rfl⟩
    exact ⟨v.toInt, _, ⟨run, rest, hrest, hrun, rfl⟩, Int32.ofInt_toInt v, rfl⟩

/-- Integers of 33 bits fit into the word that they are read into. -/
theorem s33_eq : s33 = signed 33 := by
  rw [s33, signedWord_eq (by decide) (by decide)]
  funext c
  simp only [bind, EStateM.bind]
  cases hread : signed 33 c with
  | error fault c' => rfl
  | ok i c' =>
    obtain ⟨run, rest, -, hrun, -⟩ := (signed_eq_ok_iff (by decide)).mp hread
    have hlow := hrun.le_value
    have hhigh := hrun.value_lt
    exact congrArg (EStateM.Result.ok · c') (Int64.toInt_ofInt_of_le (by omega) (by omega))

/-- A signed number of 64 bits is read exactly from its spellings. -/
theorem s64_eq_ok_iff {c c' : Cursor} {v : Int64} :
    s64 c = .ok v c' ↔
      ∃ run rest, c.rest = run ++ rest ∧ SpellsSigned 64 v.toInt run ∧
        { c with rest, consumed := c.consumed + run.length } = c' := by
  simp only [s64_eq, estate_bind_eq_ok, estate_pure_eq_ok, signed_eq_ok_iff (show 0 < 64 by decide)]
  constructor
  · rintro ⟨i, _, ⟨run, rest, hrest, hrun, rfl⟩, rfl, rfl⟩
    refine ⟨run, rest, hrest, ?_, rfl⟩
    rwa [Int64.toInt_ofInt_of_le hrun.le_value hrun.value_lt]
  · rintro ⟨run, rest, hrest, hrun, rfl⟩
    exact ⟨v.toInt, _, ⟨run, rest, hrest, hrun, rfl⟩, Int64.ofInt_toInt v, rfl⟩

end IntWasm.Leb128
