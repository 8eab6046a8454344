import IntWasm.Proofs.Instruction.Agreement
import IntWasm.Proofs.Structured.Nesting

/-!
# Instructions that can be read back

Writing an instruction to a stream and reading it back gives an instruction again, if its opcode is
supported, a block has one of the types that a byte stands for, and a branch table has not too many
cases. The bytes do not tell the labels of a block, so what is read back is another instruction with
the same opcode. All instructions of a checked body are of this kind: the checker reads them from
bytes, and it changes only the labels and the stack heights of blocks. Main statements:
`Instruction.Legible.takes_read` and `Body.legible_of_check`.
-/

namespace IntWasm

open Leb128 Reader Structured

/-- An instruction that is read back after it was written to a stream. -/
structure Instruction.Legible (i : Instruction) : Prop where
  supported : i.op?.isSome
  typed : opensBlock i.opcode = true →
    i.immediate &&& blockMark ≠ 0 ∧ ∃ type, i.immediate.toUInt8 = typeByte type
  few : i.labels.length < 2 ^ 32

/-- An instruction of which a stream tells what matters. Only the labels of a branch table are
written, so only those have to be few. -/
structure Instruction.Writable (i : Instruction) : Prop where
  supported : i.op?.isSome
  typed : opensBlock i.opcode = true →
    i.immediate &&& blockMark ≠ 0 ∧ ∃ type, i.immediate.toUInt8 = typeByte type
  few : i.op? = some .brTable → i.labels.length < 2 ^ 32

namespace Instruction

/-- What can be read back can be written. -/
theorem Legible.writable {i : Instruction} (hlegible : i.Legible) : i.Writable :=
  ⟨hlegible.supported, hlegible.typed, fun _ => hlegible.few⟩

/-! ## Reading back -/

/-- The immediate that is written for an instruction. -/
def writtenImmediate (op : Opcode) (i : Instruction) : UInt64 :=
  match op with
  | .block | .loop | .ifThen => blockCode i.immediate.toUInt8
  | .br | .brIf | .brTable | .call | .callIndirect | .localGet | .localSet | .localTee | .globalGet
  | .globalSet => i.index.toUInt64
  | .load _ | .store _ | .const .i64 => i.immediate
  | .const .i32 => i.index.toInt32.toInt64.toUInt64
  | _ => 0

/-- The labels that are written for an instruction. -/
def writtenLabels (op : Opcode) (i : Instruction) : List Int :=
  match op with
  | .brTable => i.labels.map fun l => ((UInt32.ofInt l).toNat : Int)
  | _ => []

/-- What is left of an instruction after it was written to a stream and read back. -/
def reread (i : Instruction) : Instruction :=
  match i.op? with
  | none => i
  | some op => { i with immediate := i.writtenImmediate op, labels := i.writtenLabels op }

/-- The immediate of a memory access is its offset and its alignment exponent. -/
theorem memoryImmediate_index_align (i : Instruction) :
    memoryImmediate i.index i.align = i.immediate := by
  have hbound := i.immediate.toNat_lt
  have hlow : i.immediate.toNat % 2 ^ 32 < 2 ^ 32 := Nat.mod_lt _ (by decide)
  have hhigh : (i.immediate.toNat >>> 32 % 2 ^ 32) <<< 32 % 2 ^ 64 =
      (i.immediate.toNat / 2 ^ 32) <<< 32 := by
    simp only [Nat.shiftRight_eq_div_pow, Nat.shiftLeft_eq]
    omega
  apply UInt64.toNat_inj.mp
  simp only [memoryImmediate, index, align, UInt64.toNat_or, UInt64.toNat_shiftLeft,
    UInt32.toNat_toUInt64, UInt64.toNat_toUInt32, UInt64.toNat_shiftRight,
    show (32 : UInt64).toNat % 64 = 32 from rfl]
  rw [hhigh, ← Nat.shiftLeft_add_eq_or_of_lt hlow, Nat.shiftLeft_eq]
  omega

/-- An index is read back from its shortest spelling. -/
theorem takes_readIndex (n : UInt32) : readIndex.Takes (encodeU32 n) n.toUInt64 :=
  ((takes_u32 n).lift _).map UInt32.toUInt64

/-- A reserved byte is read back. -/
theorem takes_readReserved (what feature : String) : (readReserved what feature).Takes [0] () :=
  ((takes_byte 0).lift _).bind (takes_pure ())

/-- What is written for an instruction after its opcode is read back. -/
theorem Writable.takes_immediates {i : Instruction} (hwritable : i.Writable) {op : Opcode}
    (hop : i.op? = some op) :
    (readImmediates op).Takes (i.immediateBytes op)
      (i.writtenImmediate op, i.writtenLabels op) := by
  have hopcode : op.byte = i.opcode := Opcode.ofByte?_eq_some_iff.mp hop
  have hindex : (do return (← readIndex, []) : Reader Fault (UInt64 × List Int)).Takes
      (encodeU32 i.index) (i.index.toUInt64, []) := (takes_readIndex i.index).map (·, [])
  have hblock : opensBlock op.byte = true →
      (do return (← readBlockType, []) : Reader Fault (UInt64 × List Int)).Takes
        (blockTypeBytes i.immediate) (blockCode i.immediate.toUInt8, []) := by
    intro hopens
    obtain ⟨hmark, type, htype⟩ := hwritable.typed (hopcode ▸ hopens)
    rw [blockTypeBytes, if_neg hmark, htype]
    exact (reads_readBlockType.takes ⟨type, rfl, spellsType_byte.mpr rfl⟩).map (·, [])
  have hreserved (what feature : String) : (do
      readReserved what feature
      return (0, []) : Reader Fault (UInt64 × List Int)).Takes [0] (0, []) :=
    (takes_readReserved what feature).map fun _ => (0, [])
  cases op with
  | block | loop | ifThen => exact hblock rfl
  | br | brIf | call | localGet | localSet | localTee | globalGet | globalSet => exact hindex
  | brTable =>
    -- The count fits in 32 bits, so the reader takes as many labels as were written.
    have hcount : (UInt32.ofNat i.labels.length).toNat = i.labels.length :=
      UInt32.toNat_ofNat_of_lt' (hwritable.few hop)
    have hlabels (n : Nat) (l : Int) : (Reader.plain Leb128.u32 : Reader Fault UInt32).Takes
        (encodeU32 (UInt32.ofInt l)) (UInt32.ofInt l) := (takes_u32 _).lift _
    have htimes := Takes.timesFrom hlabels 0 i.labels
    have hfirst := takes_u32 (UInt32.ofNat i.labels.length)
    rw [encodeU32, hcount] at hfirst
    rw [← hcount] at htimes
    have htold : i.writtenLabels .brTable = (i.labels.map UInt32.ofInt).map fun l =>
        (l.toNat : Int) := by
      rw [writtenLabels, List.map_map]
      rfl
    rw [immediateBytes, List.append_assoc, htold]
    exact (hfirst.lift _).bind (htimes.bind ((takes_readIndex i.index).map _))
  | callIndirect =>
    exact (takes_readIndex i.index).bind ((takes_readReserved _ _).map fun _ => (_, []))
  | load access | store access =>
    -- The alignment is written first, though it is the upper half of the immediate.
    rw [writtenImmediate, ← memoryImmediate_index_align]
    exact ((takes_u32 i.align).lift _).bind
      (((takes_u32 i.index).lift _).map fun offset => (memoryImmediate offset i.align, []))
  | memorySize | memoryGrow => exact hreserved _ _
  | const type =>
    cases type with
    | i32 => exact ((takes_s32 i.index.toInt32).lift _).map (·.toInt64.toUInt64, [])
    | i64 =>
      have hvalue := takes_s64 (spellsSigned_encodeS64 i.immediate.toInt64)
      exact (hvalue.lift _).map (·.toUInt64, [])
  | _ => exact takes_pure _

/-- The bytes of an instruction are its opcode and its immediates. -/
theorem bytesAt_of_op {i : Instruction} {op : Opcode} {position : Nat} (hop : i.op? = some op) :
    i.bytesAt position = .ok (i.opcode :: i.immediateBytes op) := by
  rw [bytesAt, hop]

/-- What is written for an instruction is read back as far as it tells the instruction. -/
theorem Writable.takes_read {i : Instruction} (hwritable : i.Writable) :
    ∃ bytes, i.bytesAt 0 = .ok bytes ∧ read.Takes bytes i.reread := by
  obtain ⟨op, hop⟩ := Option.isSome_iff_exists.mp hwritable.supported
  have hrest := hwritable.takes_immediates hop
  refine ⟨i.opcode :: i.immediateBytes op, bytesAt_of_op hop, ?_⟩
  have hbyte : (Reader.plain Reader.byte : Reader Fault UInt8).Takes [i.opcode] i.opcode :=
    (takes_byte i.opcode).lift _
  have hfound : Opcode.ofByte? i.opcode = some op := hop
  have hreread : i.reread = ⟨i.opcode, i.writtenImmediate op, i.writtenLabels op⟩ := by
    rw [reread, hop]
  rw [hreread]
  refine hbyte.bind ?_
  rw [hfound]
  exact hrest.map fun found => Instruction.mk i.opcode found.1 found.2

/-! ## Instructions of bodies -/

/-- The number of a block type is marked, and its low byte is the type's. -/
theorem typed_blockCode (type : BlockType) :
    blockCode (typeByte type) &&& blockMark ≠ 0 ∧
      (blockCode (typeByte type)).toUInt8 = typeByte type := by
  rcases type with _ | _ | _ <;> decide

/-- A token is read as a legible instruction. -/
theorem legible_flat {token : Token} {bytes : List UInt8} (hspells : token.Spells bytes) :
    token.flat.Legible := by
  have hopens : opensBlock token.flat.opcode = token.opens := by
    have hopcode : token.flat.opcode = token.op.byte := by cases token <;> rfl
    rw [hopcode, opensBlock_byte]
  refine ⟨by simp [Token.op?_flat], fun h => ?_, ?_⟩
  · rw [hopens] at h
    cases token with
    | block type | loop type | ifThen type =>
      obtain ⟨hmark, hbyte⟩ := typed_blockCode type
      exact ⟨hmark, type, hbyte⟩
    | instr | otherwise | close => cases h
  · obtain ⟨more, -, hmore⟩ := hspells
    cases token with
    | instr i =>
      cases i with
      | brTable cases default =>
        obtain ⟨count, _, _, -, hcount, -, -⟩ := hmore
        simpa [Token.flat, Instr.flat, Instr.labels] using hcount.value_lt
      | _ => exact Nat.two_pow_pos 32
    | block type | loop type | ifThen type | otherwise | close => exact Nat.two_pow_pos 32

/-- An instruction that was read from a body can be written and read back. -/
theorem legible_of_ofBytes {bytes rest : List UInt8} {i : Instruction}
    (hok : ofBytes bytes = .ok (i, rest)) : i.Legible := by
  obtain ⟨token, first, hspells, rfl, -⟩ := exists_token_of_ofBytes hok
  exact legible_flat hspells

/-- Other labels, if there are not too many. -/
theorem Legible.withLabels {i : Instruction} (hlegible : i.Legible) {labels : List Int}
    (hfew : labels.length < 2 ^ 32) : Legible { i with labels } :=
  ⟨hlegible.supported, hlegible.typed, hfew⟩

/-- A stack height is kept in bits that do not matter to the type of a block. -/
theorem Legible.withHeight {i : Instruction} (hlegible : i.Legible) (n : UInt64) :
    Legible { i with immediate := i.immediate ||| (n &&& heightMask) } := by
  refine ⟨hlegible.supported, fun hopens => ?_, hlegible.few⟩
  obtain ⟨hmark, type, htype⟩ := hlegible.typed hopens
  have hbyte : heightMask.toUInt8 = 0 := by decide
  have hdisjoint : heightMask &&& blockMark = 0 := by decide
  refine ⟨?_, type, ?_⟩
  · rwa [or_and, UInt64.and_assoc, hdisjoint, UInt64.and_zero, UInt64.or_zero]
  · rw [UInt64.toUInt8_or, UInt64.toUInt8_and, hbyte, UInt8.and_zero, UInt8.or_zero, htype]

end Instruction

namespace Body

/-- A checker that has read legible instructions. -/
def Checker.Legible (s : Checker) : Prop := ∀ i ∈ s.instructions, i.Legible

namespace Checker

variable {s s' : Checker} {i : Instruction}

/-- Being legible depends on the instructions only. -/
theorem Legible.of_eq (hlegible : s.Legible) (heq : s'.instructions = s.instructions) :
    s'.Legible := by
  unfold Legible
  rwa [heq]

/-- A legible instruction may be added. -/
theorem Legible.append (hlegible : s.Legible) (hi : i.Legible) : (s.append i).Legible := by
  intro j hj
  rcases Array.mem_push.mp hj with hj | rfl
  · exact hlegible j hj
  · exact hi

/-- Labels are exchanged for others, not added. -/
theorem Legible.relabel (hlegible : s.Legible) (at_ n : Nat) (label : Int) :
    (s.relabel at_ (·.set n label)).Legible := by
  intro j hj
  obtain ⟨k, hk, rfl⟩ := Array.mem_iff_getElem.mp hj
  have hk' : k < s.instructions.size := by simpa [Checker.relabel] using hk
  have hat := hlegible s.instructions[k] (Array.getElem_mem hk')
  simp only [Checker.relabel, Array.getElem_modify]
  split
  · apply hat.withLabels
    rw [List.length_set]
    exact hat.few
  · exact hat

/-- Resolving branches keeps the instructions legible. -/
theorem Legible.resolve (hlegible : s.Legible) (opener : Opener) (next : Nat) :
    (s.resolve opener next).Legible := by
  cases opener with
  | function | loop => exact hlegible
  | block at_ | ifThen at_ => exact hlegible.relabel at_ 0 next
  | otherwise at_ other => exact (hlegible.relabel at_ 0 next).relabel other 0 next

/-- A legible instruction may open a block. -/
theorem Legible.enter (hlegible : s.Legible) (hi : i.Legible) (opener : Opener) {labels : List Int}
    (hfew : labels.length < 2 ^ 32) : (s.enter i opener labels).Legible :=
  (hlegible.append ((hi.withHeight _).withLabels hfew)).of_eq rfl

/-- Closing a block keeps the instructions. -/
theorem instructions_of_closeBlock {b : Block} (hok : s.closeBlock = .ok (b, s')) :
    s'.instructions = s.instructions := by
  unfold closeBlock at hok
  split at hok
  · cases hok
  · simp only [except_bind_eq_ok] at hok
    obtain ⟨u, hpop, hok⟩ := hok
    split at hok
    · simp at hok
    · cases hok
      exact (takesOperands_of_popTypes hpop).instructions_eq

/-- A checker that goes on has read legible instructions, and so has one that has come to its
end. -/
def Progress.Legible : Progress → Prop
  | .more s => s.Legible
  | .done body => ∀ i ∈ body.instructions, i.Legible

/-- Every instruction that is checked is kept, with other labels and a stack height if it is a
block. -/
theorem Legible.step (hlegible : s.Legible) (hi : i.Legible) {scope : Scope} {op : Opcode}
    {last : Bool} {progress : Progress} (hstep : s.step scope op i last = .ok progress) :
    progress.Legible := by
  have happend {t : Checker} (heq : t.instructions = s.instructions) : (t.append i).Legible :=
    (hlegible.of_eq heq).append hi
  by_cases hop : op ∉ [.block, .loop, .ifThen, .otherwise, .close]
  · obtain ⟨t, rfl, hpasses⟩ := exists_passes_of_step hop hstep
    exact (hlegible.append hi).of_eq hpasses.instructions_eq
  rw [not_not] at hop
  cases op <;> simp only [List.mem_cons, List.not_mem_nil, reduceCtorEq, or_false] at hop
  case block =>
    cases hstep
    exact hlegible.enter hi _ (by simp)
  case loop =>
    cases hstep
    exact (hlegible.enter hi (.loop s.instructions.size) (by simp)).of_eq rfl
  case ifThen =>
    simp only [Checker.step, except_bind_eq_ok, except_pure_eq_ok] at hstep
    obtain ⟨t, hpop, rfl⟩ := hstep
    have hsame := (takesOperands_of_popType hpop).instructions_eq
    exact (hlegible.of_eq hsame).enter hi _ (by simp)
  case otherwise =>
    simp only [Checker.step] at hstep
    split at hstep
    · cases hstep
    · simp only [except_bind_eq_ok, Prod.exists] at hstep
      obtain ⟨b, t, hclose, hrest⟩ := hstep
      have hchanged : (t.append { i with labels := [0] }).Legible :=
        (hlegible.of_eq (instructions_of_closeBlock hclose)).append (hi.withLabels (by simp))
      split at hrest <;> cases hrest
      exact (hchanged.relabel _ 1 _).of_eq rfl
  case close =>
    simp only [Checker.step, except_bind_eq_ok, Prod.exists] at hstep
    obtain ⟨b, t, hclose, hrest⟩ := hstep
    have hresolved : ((t.append i).resolve b.opener (s.instructions.size + 1)).Legible :=
      (happend (instructions_of_closeBlock hclose)).resolve _ _
    split at hrest
    · split at hrest <;> cases hrest
      exact hresolved
    · split at hrest <;> cases hrest
      exact hresolved.of_eq rfl
    · cases hrest
      exact hresolved.of_eq rfl

/-- Getting over tokens keeps the instructions legible. -/
theorem Legible.runs (hlegible : s.Legible) {scope : Scope} {tokens : List Token}
    {bytes : List UInt8} (hspells : SpellsTokens tokens bytes)
    (hruns : Runs scope s tokens s') : s'.Legible := by
  induction tokens generalizing s bytes with
  | nil =>
    cases hruns
    exact hlegible
  | cons token tokens ih =>
    obtain ⟨first, more, rfl, hfirst, hmore⟩ := hspells
    obtain ⟨t, hstep, hruns⟩ := hruns
    have hi := Instruction.legible_of_ofBytes (ofBytes_of_spells hfirst [])
    exact ih (hlegible.step hi hstep) hmore hruns

end Checker

/-- All instructions of a checked body are legible. -/
theorem legible_of_check {scope : Scope} {results : List ValueType} {base : Nat} {code : List UInt8}
    {body : Body} (hok : check scope results base code = .ok body) :
    ∀ i ∈ body.instructions, i.Legible := by
  rw [check_eq_checkFrom] at hok
  obtain ⟨tokens, first, s, -, hspells, hruns, hdone⟩ := exists_runs_of_checkFrom hok
  have hstart : (Checker.openBlock {} .function results).Legible := by
    intro i hi
    simp [Checker.openBlock] at hi
  have hspelled : Token.close.Spells [closingByte] := ⟨[], rfl, rfl⟩
  have hclose := Instruction.legible_of_ofBytes (ofBytes_of_spells hspelled [])
  exact (hstart.runs hspells hruns).step hclose hdone

end Body

end IntWasm
