import IntWasm.Proofs.Structured.Operands
import Mathlib.Data.Nat.Bitwise

/-!
# The effects of instructions

Immediates are packed into one word; these facts read them back. With them, what the scope says that
an instruction without control flow takes and gives is what the typing rules say.
-/

namespace IntWasm

namespace Instruction

/-- The two halves of the immediate of a memory access. -/
theorem toNat_memoryImmediate (offset align : UInt32) :
    (memoryImmediate offset align).toNat = align.toNat * 2 ^ 32 + offset.toNat := by
  have halign := align.toNat_lt
  have hoffset := offset.toNat_lt
  unfold memoryImmediate
  simp only [UInt64.toNat_or, UInt64.toNat_shiftLeft, UInt32.toNat_toUInt64]
  rw [show (32 : UInt64).toNat % 64 = 32 from rfl, Nat.mod_eq_of_lt,
    ← Nat.shiftLeft_add_eq_or_of_lt hoffset, Nat.shiftLeft_eq]
  rw [Nat.shiftLeft_eq]
  omega

end Instruction

namespace Structured

namespace Instr

/-- An index is found again in the word that it is kept in. -/
theorem index_flat {i : Instr} {n : UInt32} (hword : i.immediate = n.toUInt64) :
    i.flat.index = n := by
  simp [flat, Instruction.index, hword]

/-- A load keeps its offset in the index. -/
theorem index_flat_load {access : LoadForm} {align offset : UInt32} :
    (load access align offset).flat.index = offset := by
  apply UInt32.toNat_inj.mp
  have hoffset := offset.toNat_lt
  simp only [flat, Instruction.index, immediate, UInt64.toNat_toUInt32,
    Instruction.toNat_memoryImmediate]
  omega

/-- So does a store. -/
theorem index_flat_store {access : StoreForm} {align offset : UInt32} :
    (store access align offset).flat.index = offset :=
  @index_flat_load (.word .signed) _ _

/-- A load keeps its alignment beside the offset. -/
theorem align_flat_load {access : LoadForm} {align offset : UInt32} :
    (load access align offset).flat.align = align := by
  apply UInt32.toNat_inj.mp
  have halign := align.toNat_lt
  have hoffset := offset.toNat_lt
  simp only [flat, Instruction.align, immediate, UInt64.toNat_toUInt32, UInt64.toNat_shiftRight,
    Instruction.toNat_memoryImmediate]
  rw [show (32 : UInt64).toNat % 64 = 32 from rfl, Nat.shiftRight_eq_div_pow]
  omega

/-- So does a store. -/
theorem align_flat_store {access : StoreForm} {align offset : UInt32} :
    (store access align offset).flat.align = align :=
  @align_flat_load (.word .signed) _ _

end Instr

/-- An alignment exponent is at most the natural one if the alignment is at most the width. -/
theorem align_le_load {access : LoadForm} {align : UInt32} :
    align ≤ access.naturalAlign ↔ 2 ^ align.toNat ≤ access.width := by
  have hwidth : access.width = 2 ^ access.naturalAlign.toNat := by
    rcases access with ⟨_ | _⟩ | ⟨_, _ | _, _⟩ | _ <;> rfl
  rw [hwidth, UInt32.le_iff_toNat_le, Nat.pow_le_pow_iff_right (by decide)]

/-- A store is aligned no further than it is wide. -/
theorem align_le_store {access : StoreForm} {align : UInt32} :
    align ≤ access.naturalAlign ↔ 2 ^ align.toNat ≤ access.width := by
  have hwidth : access.width = 2 ^ access.naturalAlign.toNat := by
    rcases access with ⟨_ | _⟩ | ⟨_, _ | _⟩ | _ <;> rfl
  rw [hwidth, UInt32.le_iff_toNat_le, Nat.pow_le_pow_iff_right (by decide)]

/-- A load gives a word of its form's type. -/
theorem loadType_valueType (access : LoadForm) :
    (loadType access).valueType = access.valueType := by
  cases access <;> rfl

/-- A store takes a word of its form's type. -/
theorem storeType_valueType (access : StoreForm) :
    (storeType access).valueType = access.valueType := by
  cases access <;> rfl

/-- What a scope is required to have it has. -/
theorem require_iff {α : Type} {entry : Option α} {otherwise : Violation} {a : α} :
    Scope.require entry otherwise = .ok a ↔ entry = some a := by
  cases entry <;> simp [Scope.require]

/-- An access needs a memory and an alignment no larger than is natural. -/
theorem checkAccess_iff {scope : Scope} {i : Instruction} {natural : UInt32} {u : Unit} :
    scope.checkAccess i natural = .ok u ↔ scope.hasMemory = true ∧ i.align ≤ natural := by
  by_cases hmemory : scope.hasMemory = true
  · by_cases halign : natural < i.align
    · have hnot : ¬ i.align ≤ natural := UInt32.not_le.mpr halign
      simp [Scope.checkAccess, hmemory, halign, hnot]
    · have hle : i.align ≤ natural := UInt32.not_lt.mp halign
      simp [Scope.checkAccess, hmemory, halign, hle]
  · simp [Scope.checkAccess, hmemory]

/-- The effect of operands, which are listed topmost first. -/
def effectOf (ins outs : List IntType) : Effect :=
  { takes := ins.reverse.map IntType.valueType, gives := outs.reverse.map IntType.valueType }

/-- Whether an instruction is checked by its effect alone. -/
def Instr.hasEffect : Instr → Bool
  | .unreachable | .br _ | .brIf _ | .brTable _ _ | .ret | .drop | .select => false
  | _ => true

/-- An instruction that is checked by its effect has a type by the rules. -/
theorem hasType_of_effect {c : Context} {i : Instr} {e : Effect} (hproper : c.scope.Proper)
    (heffect : i.hasEffect = true) (hok : c.scope.effect i.op i.flat = .ok e) :
    ∃ ins outs, i.HasType c ins outs ∧ e = effectOf ins outs := by
  cases i <;> simp only [Instr.hasEffect, Bool.false_eq_true] at heffect <;>
    simp only [Instr.op, Scope.effect, except_bind_eq_ok, except_pure_eq_ok, require_iff,
      checkAccess_iff] at hok
  -- The checks that passed are the side conditions of the rules. A proper scope names integer
  -- types only, which makes the effect one of widths.
  case call n =>
    obtain ⟨f, hf, rfl⟩ := hok
    rw [Instr.index_flat rfl] at hf
    obtain ⟨params, results, rfl⟩ := hproper.functionType hf
    exact ⟨_, _, .call hf, by simp [effectOf, FuncType.ofInts]⟩
  case callIndirect n =>
    split at hok
    · simp at hok
    · rename_i htable
      simp only [except_bind_eq_ok, except_pure_eq_ok, require_iff, Bool.not_eq_true,
        Bool.not_eq_false] at hok htable
      obtain ⟨f, hf, rfl⟩ := hok
      rw [Instr.index_flat rfl] at hf
      obtain ⟨params, results, rfl⟩ := hproper.type hf
      exact ⟨_, _, .callIndirect htable hf, by simp [effectOf, FuncType.ofInts]⟩
  case localGet n =>
    obtain ⟨t, ht, rfl⟩ := hok
    rw [Instr.index_flat rfl] at ht
    obtain ⟨width, rfl⟩ := hproper.localType ht
    exact ⟨_, _, .localGet ht, rfl⟩
  case localSet n =>
    obtain ⟨t, ht, rfl⟩ := hok
    rw [Instr.index_flat rfl] at ht
    obtain ⟨width, rfl⟩ := hproper.localType ht
    exact ⟨_, _, .localSet ht, rfl⟩
  case localTee n =>
    obtain ⟨t, ht, rfl⟩ := hok
    rw [Instr.index_flat rfl] at ht
    obtain ⟨width, rfl⟩ := hproper.localType ht
    exact ⟨_, _, .localTee ht, rfl⟩
  case globalGet n =>
    obtain ⟨⟨type, mutable⟩, hg, rfl⟩ := hok
    rw [Instr.index_flat rfl] at hg
    obtain ⟨width, rfl⟩ : ∃ width : IntType, type = width.valueType := hproper.globalType hg
    exact ⟨_, _, .globalGet hg, rfl⟩
  case globalSet n =>
    obtain ⟨⟨type, mutable⟩, hg, hok⟩ := hok
    rw [Instr.index_flat rfl] at hg
    obtain ⟨width, rfl⟩ : ∃ width : IntType, type = width.valueType := hproper.globalType hg
    cases mutable with
    | false => simp at hok
    | true =>
      simp only [not_true_eq_false, if_false] at hok
      cases hok
      exact ⟨_, _, .globalSet hg, rfl⟩
  case load access align offset =>
    obtain ⟨_, ⟨hmemory, halign⟩, rfl⟩ := hok
    rw [Instr.align_flat_load, align_le_load] at halign
    refine ⟨_, _, .load hmemory halign, ?_⟩
    simp [effectOf, loadType_valueType]
  case store access align offset =>
    obtain ⟨_, ⟨hmemory, halign⟩, rfl⟩ := hok
    rw [Instr.align_flat_store, align_le_store] at halign
    refine ⟨_, _, .store hmemory halign, ?_⟩
    simp [effectOf, storeType_valueType]
  case memorySize =>
    split at hok
    · rename_i hmemory
      cases hok
      exact ⟨_, _, .memorySize hmemory, rfl⟩
    · cases hok
  case memoryGrow =>
    split at hok
    · rename_i hmemory
      cases hok
      exact ⟨_, _, .memoryGrow hmemory, rfl⟩
    · cases hok
  case nop =>
    cases hok
    exact ⟨_, _, .nop, rfl⟩
  case const32 value =>
    cases hok
    exact ⟨_, _, .const32, rfl⟩
  case const64 value =>
    cases hok
    exact ⟨_, _, .const64, rfl⟩
  case eqz type =>
    cases hok
    exact ⟨_, _, .eqz, rfl⟩
  case compare type relation =>
    cases hok
    exact ⟨_, _, .compare, rfl⟩
  case count type what =>
    cases hok
    exact ⟨_, _, .count, rfl⟩
  case arith type operation =>
    cases hok
    exact ⟨_, _, .arith, rfl⟩
  case wrap =>
    cases hok
    exact ⟨_, _, .wrap, rfl⟩
  case extend sign =>
    cases hok
    exact ⟨_, _, .extend, rfl⟩
  case extendPart type part =>
    cases hok
    exact ⟨_, _, .extendPart, rfl⟩
  case extendWord =>
    cases hok
    exact ⟨_, _, .extendWord, rfl⟩

/-- The type of an instruction by the rules is its effect. -/
theorem effect_of_hasType {c : Context} {i : Instr} {ins outs : List IntType}
    (heffect : i.hasEffect = true) (htype : i.HasType c ins outs) :
    c.scope.effect i.op i.flat = .ok (effectOf ins outs) := by
  cases htype <;> simp only [Instr.hasEffect, Bool.false_eq_true] at heffect <;>
    simp only [Instr.op, Scope.effect, except_bind_eq_ok, except_pure_eq_ok, require_iff,
      checkAccess_iff]
  -- Conversely the side condition makes the check pass; only the instructions that read their
  -- immediate have anything to compute.
  case call hf =>
    rw [Instr.index_flat rfl]
    exact ⟨_, hf, by simp [effectOf, FuncType.ofInts]⟩
  case callIndirect htable hf =>
    simp only [htable, not_true_eq_false, if_false, except_bind_eq_ok, except_pure_eq_ok,
      require_iff]
    rw [Instr.index_flat rfl]
    exact ⟨_, hf, by simp [effectOf, FuncType.ofInts]⟩
  case localGet hlocal =>
    rw [Instr.index_flat rfl]
    exact ⟨_, hlocal, rfl⟩
  case localSet hlocal =>
    rw [Instr.index_flat rfl]
    exact ⟨_, hlocal, rfl⟩
  case localTee hlocal =>
    rw [Instr.index_flat rfl]
    exact ⟨_, hlocal, rfl⟩
  case globalGet hglobal =>
    rw [Instr.index_flat rfl]
    exact ⟨_, hglobal, rfl⟩
  case globalSet hglobal =>
    rw [Instr.index_flat rfl]
    exact ⟨_, hglobal, rfl⟩
  case load hmemory halign =>
    rw [Instr.align_flat_load, align_le_load]
    exact ⟨⟨⟩, ⟨hmemory, halign⟩, by simp [effectOf, loadType_valueType]⟩
  case store hmemory halign =>
    rw [Instr.align_flat_store, align_le_store]
    exact ⟨⟨⟩, ⟨hmemory, halign⟩, by simp [effectOf, storeType_valueType]⟩
  case memorySize hmemory =>
    simp only [hmemory, if_true]
    rfl
  case memoryGrow hmemory =>
    simp only [hmemory, if_true]
    rfl
  all_goals rfl

/-- An instruction has an effect in a scope exactly if the typing rules give it a type there, and
then the two are the same. -/
theorem effect_iff {c : Context} {i : Instr} {e : Effect} (hproper : c.scope.Proper)
    (heffect : i.hasEffect = true) :
    c.scope.effect i.op i.flat = .ok e ↔ ∃ ins outs, i.HasType c ins outs ∧
    e = effectOf ins outs := by
  refine ⟨hasType_of_effect hproper heffect, ?_⟩
  rintro ⟨ins, outs, htype, rfl⟩
  exact effect_of_hasType heffect htype

end Structured

end IntWasm
