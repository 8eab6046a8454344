import IntWasm.Opcode
import IntWasm.Instruction.Basic
import Mathlib.Data.List.Nodup

/-!
# Opcodes and their bytes

The supported opcodes and the bytes that stand for them determine each other, although an opcode is
looked up in a table that is built by searching all of them.
-/

namespace IntWasm.Opcode

/-- All integer types are listed. -/
theorem mem_widths (t : IntType) : t ∈ widths := by cases t <;> decide

/-- Both signs are listed. -/
theorem mem_signs (s : Sign) : s ∈ signs := by cases s <;> decide

/-- All parts of words are listed. -/
theorem mem_parts (p : Part) : p ∈ parts := by cases p <;> decide

/-- All comparisons are listed. -/
theorem mem_comparisons (r : Comparison) : r ∈ comparisons := by
  simp only [comparisons, List.mem_append, List.mem_flatMap]
  cases r with
  | eq | ne => simp
  | lt s | gt s | le s | ge s => exact .inr ⟨s, mem_signs s, by simp⟩

/-- All arithmetic is listed. -/
theorem mem_ariths (a : Arith) : a ∈ ariths := by
  simp only [ariths, List.mem_append, List.mem_flatMap]
  cases a with
  | div s | rem s | shr s => exact .inr ⟨s, mem_signs s, by simp⟩
  | add | sub | mul | and | or | xor | shl | rotl | rotr => simp

/-- No opcode is missing from the list of all. -/
theorem mem_all (op : Opcode) : op ∈ all := by
  simp only [all, List.mem_append, List.mem_flatMap, List.mem_map]
  have hwidth (t : IntType) {P : IntType → Prop} (h : P t) : ∃ t ∈ widths, P t :=
    ⟨t, mem_widths t, h⟩
  cases op with
  | load access =>
    cases access with
    | full t => exact .inr (hwidth t (by simp))
    | part t p s => exact .inr (hwidth t (.inr ⟨p, mem_parts p, .inr ⟨s, mem_signs s, rfl⟩⟩))
    | word s => exact .inl (.inr ⟨s, mem_signs s, by simp⟩)
  | store access =>
    cases access with
    | full t => exact .inr (hwidth t (by simp))
    | part t p => exact .inr (hwidth t (.inr ⟨p, mem_parts p, by simp⟩))
    | word => exact .inl (.inl (by simp))
  | extend s => exact .inl (.inr ⟨s, mem_signs s, by simp⟩)
  | const t | eqz t => exact .inr (hwidth t (by simp))
  | count t what => cases what <;> exact .inr (hwidth t (by simp))
  | compare t r => exact .inr (hwidth t (.inl (.inl (.inr ⟨r, mem_comparisons r, rfl⟩))))
  | arith t a => exact .inr (hwidth t (.inl (.inr ⟨a, mem_ariths a, rfl⟩)))
  | extendPart t p => exact .inr (hwidth t (.inr ⟨p, mem_parts p, by simp⟩))
  | _ => exact .inl (.inl (by simp))

/-- No byte stands for two opcodes. Numbers are compared, since comparing bytes takes the kernel
longer. -/
theorem nodup_bytes : (all.map fun op => op.byte.toNat).Nodup := by decide +kernel

/-- Opcodes with one byte are one opcode. -/
theorem byte_injective {a b : Opcode} (hbyte : a.byte = b.byte) : a = b :=
  List.inj_on_of_nodup_map nodup_bytes (mem_all a) (mem_all b) (congrArg UInt8.toNat hbyte)

/-- The table has, at each byte, the opcode that is written as it. -/
theorem table_eq :
    table = Array.ofFn fun (i : Fin 256) => all.find? fun op => op.byte = UInt8.ofNat i.val := by
  delta table
  rfl

/-- The table answers with the first opcode that has the byte. -/
theorem ofByte?_eq_find? (b : UInt8) : ofByte? b = all.find? fun op => op.byte = b := by
  have hlt : b.toNat < 256 := b.toNat_lt
  have hentry (f : Fin 256 → Option Opcode) :
      (Array.ofFn f)[b.toNat]? = some (f ⟨b.toNat, hlt⟩) := by
    rw [Array.getElem?_ofFn, dif_pos hlt]
  rw [ofByte?, table_eq, hentry, Option.join_some, UInt8.ofNat_toNat]

/-- A byte stands for an opcode exactly if it is the byte of that opcode. -/
theorem ofByte?_eq_some_iff {b : UInt8} {op : Opcode} : ofByte? b = some op ↔ op.byte = b := by
  rw [ofByte?_eq_find?]
  constructor
  · intro hfound
    simpa using List.find?_some hfound
  · rintro rfl
    cases hfound : all.find? fun other => other.byte = op.byte with
    | none =>
      have hnone := List.find?_eq_none.mp hfound op (mem_all op)
      simp at hnone
    | some other =>
      have hbyte : other.byte = op.byte := by simpa using List.find?_some hfound
      rw [byte_injective hbyte]

/-- An opcode is found by its byte. -/
@[simp] theorem ofByte?_byte (op : Opcode) : ofByte? op.byte = some op :=
  ofByte?_eq_some_iff.mpr rfl

/-- Opcodes have different bytes. -/
@[simp] theorem byte_eq_iff {a b : Opcode} : a.byte = b.byte ↔ a = b :=
  ⟨byte_injective, fun h => h ▸ rfl⟩

end IntWasm.Opcode
