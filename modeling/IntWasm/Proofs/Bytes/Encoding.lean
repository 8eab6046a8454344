import IntWasm.Proofs.Bytes.Reading
import IntWasm.Proofs.Bytes.Writing
import IntWasm.Proofs.Leb128.Shortest

/-!
# Writers and the forms that they write

A writer that encodes a value writes a run that stands for the value, and of all the runs that do,
none is shorter. There may be values for which nothing stands, such as lists with too many entries;
which ones have runs is part of the description. Encodings are put together in the way forms are, so
that what is known about the writers of the parts holds for the writer of the whole. Main
statements: `Encodes.andThen` and `Encodes.vector`.
-/

namespace IntWasm

open Leb128 Reader

/-- A writer encodes a value with given runs, of which there are any only if the value is valid. -/
structure Encodes (w : Encoder) (runs : List UInt8 → Prop) (valid : Prop) : Prop where
  /-- The same bytes are put into every sink. -/
  puts : Writer.Puts id w w.produced
  /-- What is written for a valid value stands for it. -/
  stands : valid → runs w.produced
  /-- Only a valid value has runs. -/
  valid_of_run {run : List UInt8} : runs run → valid
  /-- No run is shorter than what is written. -/
  least {run : List UInt8} : runs run → w.produced.length ≤ run.length

/-- A list with few enough entries for their number to be written, all of them valid. -/
def Few {α : Type} (valid : α → Prop) (entries : List α) : Prop :=
  entries.length < 2 ^ 32 ∧ ∀ a ∈ entries, valid a

namespace Encodes

variable {w w₁ w₂ : Encoder} {runs runs₁ runs₂ : List UInt8 → Prop} {valid valid₁ valid₂ : Prop}

/-- Forms with the same runs, and conditions that are the same. -/
theorem congr (hw : Encodes w runs₁ valid₁) (hruns : ∀ run, runs₁ run ↔ runs₂ run)
    (hvalid : valid₁ ↔ valid₂) : Encodes w runs₂ valid₂ where
  puts := hw.puts
  stands h := (hruns _).mp (hw.stands (hvalid.mpr h))
  valid_of_run h := hvalid.mp (hw.valid_of_run ((hruns _).mpr h))
  least h := hw.least ((hruns _).mpr h)

/-- Bytes that are written as they are. -/
theorem bytes (bs : List UInt8) (valid : Prop) :
    Encodes (Writer.bytes bs) (fun run => valid ∧ run = bs) valid := by
  have hproduced : (Writer.bytes bs).produced = bs := (Writer.puts_bytes bs).produced
  constructor
  · rw [hproduced]
    exact Writer.puts_bytes bs
  · intro hvalid
    exact ⟨hvalid, hproduced⟩
  · intro run hrun
    exact hrun.1
  · rintro run ⟨-, rfl⟩
    rw [hproduced]

/-- One value behind another. -/
theorem andThen (hw₁ : Encodes w₁ runs₁ valid₁) (hw₂ : Encodes w₂ runs₂ valid₂) :
    Encodes (w₁ >>= fun _ => w₂) (fun run => ∃ head tail, run = head ++ tail ∧
      runs₁ head ∧ runs₂ tail)
      (valid₁ ∧ valid₂) := by
  have hputs : Writer.Puts id (w₁ >>= fun _ => w₂) (w₁.produced ++ w₂.produced) :=
    hw₁.puts.andThen hw₂.puts
  have hproduced := hputs.produced
  constructor
  · rwa [hproduced]
  · rintro ⟨h₁, h₂⟩
    exact ⟨_, _, hproduced, hw₁.stands h₁, hw₂.stands h₂⟩
  · rintro run ⟨head, tail, -, hhead, htail⟩
    exact ⟨hw₁.valid_of_run hhead, hw₂.valid_of_run htail⟩
  · rintro run ⟨head, tail, rfl, hhead, htail⟩
    have hle₁ := hw₁.least hhead
    have hle₂ := hw₂.least htail
    rw [hproduced, List.length_append, List.length_append]
    omega

/-- Of the valid values only some are valid. -/
theorem only (hw : Encodes w runs valid) (condition : Prop) :
    Encodes w (fun run => runs run ∧ condition) (valid ∧ condition) where
  puts := hw.puts
  stands h := ⟨hw.stands h.1, h.2⟩
  valid_of_run h := ⟨hw.valid_of_run h.1, h.2⟩
  least h := hw.least h.1

/-! ## Numbers -/

/-- A number is written as a spelling of it. -/
theorem u32 (n : UInt32) : Encodes (writeU32 n) (U32 n) True := by
  have hproduced : (writeU32 n).produced = encodeNat n.toNat := (Writer.puts_bytes _).produced
  constructor
  · rw [hproduced]
    exact Writer.puts_bytes _
  · intro _
    rw [hproduced]
    exact spellsUnsigned_encodeNat n.toNat_lt
  · intro run _
    trivial
  · intro run hrun
    rw [hproduced]
    exact hrun.length_encodeNat_le (Nat.le_refl _)

/-! ## Bytes and lists behind their number -/

/-- A number of 32 bits is not cut. -/
theorem spells_mod {n : Nat} (hlt : n < 2 ^ 32) :
    SpellsUnsigned 32 n (encodeNat (n % 0x100000000)) := by
  have hmod : n % 0x100000000 = n := Nat.mod_eq_of_lt hlt
  rw [hmod]
  exact spellsUnsigned_encodeNat hlt

/-- A block stands behind its size: something encoded and the bytes that follow. -/
theorem block (hw : Encodes w runs valid) (rest : List UInt8) :
    Encodes (Encoder.sized (w.produced ++ rest))
      (fun run => ∃ size front, run = size ++ (front ++ rest) ∧
        SpellsUnsigned 32 (front ++ rest).length size ∧ runs front)
      (valid ∧ (w.produced ++ rest).length < 2 ^ 32) := by
  have hputs := Encoder.puts_sized (w.produced ++ rest)
  have hproduced := hputs.produced
  constructor
  · rwa [hproduced]
  · rintro ⟨hvalid, hlt⟩
    exact ⟨_, w.produced, hproduced, spells_mod hlt, hw.stands hvalid⟩
  · rintro run ⟨size, front, rfl, hsize, hfront⟩
    have hle := hw.least hfront
    have hlt := hsize.value_lt
    rw [List.length_append] at hlt
    refine ⟨hw.valid_of_run hfront, ?_⟩
    rw [List.length_append]
    omega
  · rintro run ⟨size, front, rfl, hsize, hfront⟩
    have hle := hw.least hfront
    have hmod : (w.produced ++ rest).length % 0x100000000 ≤ (front ++ rest).length := by
      have hbound := Nat.mod_le (w.produced ++ rest).length 0x100000000
      simp only [List.length_append] at hbound ⊢
      omega
    have hshort := hsize.length_encodeNat_le hmod
    rw [hproduced, Encoder.sizedBytes]
    simp only [List.length_append] at hshort ⊢
    omega

/-- Bytes are written after their number, if that fits. -/
theorem sized (bs : List UInt8) :
    Encodes (Encoder.sized bs) (Form.Sized bs) (bs.length < 2 ^ 32) := by
  have hempty : (Writer.bytes []).produced = [] := (Writer.puts_bytes []).produced
  have hblock := (bytes [] True).block bs
  rw [hempty, List.nil_append] at hblock
  refine hblock.congr (fun run => ?_) (iff_of_eq (true_and _))
  constructor
  · rintro ⟨size, front, rfl, hsize, -, rfl⟩
    exact ⟨size, rfl, hsize⟩
  · rintro ⟨size, rfl, hsize⟩
    exact ⟨size, [], rfl, hsize, trivial, rfl⟩

variable {α : Type} {write : α → Encoder} {G : Form α} {P : α → Prop}

/-- The entries of a list one after another. -/
theorem row (hwrite : ∀ a, Encodes (write a) (G a) (P a)) (entries : List α) :
    Encodes (Writer.each write entries) (G.Row entries) (∀ a ∈ entries, P a) := by
  induction entries with
  | nil =>
    have hputs : Writer.Puts id (Writer.each write []) [] := Writer.puts_pure
    have hproduced := hputs.produced
    refine ⟨by rwa [hproduced], fun _ => hproduced, fun _ => by simp, fun _ => ?_⟩
    rw [hproduced]
    exact Nat.zero_le _
  | cons a entries ih =>
    refine ((hwrite a).andThen ih).congr (fun run => Iff.rfl) ?_
    simp

/-- The entries of a list behind their number. -/
theorem vector (hwrite : ∀ a, Encodes (write a) (G a) (P a)) (entries : List α) :
    Encodes (Encoder.vector write entries) (G.Counted entries) (Few P entries) := by
  have hrow := row hwrite entries
  have hputs : Writer.Puts id (Encoder.vector write entries)
      (encodeNat (entries.length % 0x100000000) ++ (Writer.each write entries).produced) :=
    (Writer.puts_bytes _).andThen hrow.puts
  have hproduced := hputs.produced
  constructor
  · rwa [hproduced]
  · rintro ⟨hlt, hvalid⟩
    exact ⟨_, _, hproduced, spells_mod hlt, hrow.stands hvalid⟩
  · rintro run ⟨count, tail, -, hcount, htail⟩
    exact ⟨hcount.value_lt, hrow.valid_of_run htail⟩
  · rintro run ⟨count, tail, rfl, hcount, htail⟩
    have hshort := hcount.length_encodeNat_le (Nat.mod_le entries.length 0x100000000)
    have hle := hrow.least htail
    rw [hproduced, List.length_append, List.length_append]
    omega

end Encodes

end IntWasm
