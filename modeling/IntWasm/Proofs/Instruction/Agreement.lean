import IntWasm.Proofs.Bytes.Taking
import IntWasm.Proofs.Leb128.Appending
import IntWasm.Proofs.Structured.Openings

/-!
# Instructions in a stream and in a body

An instruction is read in two ways: from a stream, and off the front of the bytes of a body. Both
ways read the same forms, one immediate after another, so they give the same instruction and use the
same bytes. There is one exception. A body has a single byte for the type of a block; a stream has a
number there, which may be spelled with more bytes, and only its lowest seven bits are looked at.
Main statements: `Instruction.agrees_read` and `Instruction.readers_agree`.
-/

namespace IntWasm

open Leb128 Structured

namespace Reader

variable {ε α β : Type} {r : Reader ε α} {a : α}

/-! ## Two ways of reading -/

/-- A reader reads the same form as what takes values off the front of byte strings. -/
def Agrees (r : Reader ε α) (T : List UInt8 → α → List UInt8 → Prop) : Prop :=
  ∃ G : Form α, r.Reads G ∧ ∀ bytes a rest, T bytes a rest ↔ ∃ run, bytes = run ++ rest ∧ G a run

variable {T T' : List UInt8 → α → List UInt8 → Prop}

/-- A reader that agrees with the other one takes what it reads. -/
theorem Agrees.formed (hr : r.Agrees T) : r.Formed := by
  obtain ⟨G, hG, -⟩ := hr
  exact ⟨G, hG⟩

/-- Agreeing depends on what the other reader reads, not on how. -/
theorem Agrees.congr (hr : r.Agrees T) (hsame : ∀ bytes a rest, T bytes a rest ↔ T' bytes a rest) :
    r.Agrees T' := by
  obtain ⟨G, hG, hT⟩ := hr
  exact ⟨G, hG, fun bytes a rest => (hsame bytes a rest).symm.trans (hT bytes a rest)⟩

/-- What is read from a stream is what is taken off the front of its bytes, and as much is used. -/
theorem Agrees.ok_iff (hr : r.Agrees T) {c c' : Cursor} :
    r c = .ok a c' ↔ ∃ run rest, c.rest = run ++ rest ∧ T c.rest a rest ∧ c.past run rest = c' := by
  obtain ⟨G, hG, hT⟩ := hr
  rw [hG c a c']
  constructor
  · rintro ⟨run, rest, hrest, hrun, hafter⟩
    exact ⟨run, rest, hrest, (hT _ _ _).mpr ⟨run, hrest, hrun⟩, hafter⟩
  · rintro ⟨run, rest, hrest, htaken, hafter⟩
    obtain ⟨used, hused, hrun⟩ := (hT _ _ _).mp htaken
    obtain rfl : used = run := List.append_cancel_right (hused.symm.trans hrest)
    exact ⟨used, rest, hrest, hrun, hafter⟩

/-- Reading nothing agrees with reading nothing. -/
theorem agrees_pure (a : α) : (pure a : Reader ε α).Agrees fun bytes b rest => b = a ∧
    bytes = rest := by
  refine ⟨_, reads_pure a, fun bytes b rest => ?_⟩
  constructor
  · rintro ⟨rfl, rfl⟩
    exact ⟨[], rfl, rfl, rfl⟩
  · rintro ⟨run, rfl, rfl, rfl⟩
    exact ⟨rfl, rfl⟩

/-- Values that are read one after another are taken off one after another. -/
theorem Agrees.bind {next : α → Reader ε β} {U : α → List UInt8 → β → List UInt8 → Prop}
    (hr : r.Agrees T) (hnext : ∀ a, (next a).Agrees (U a)) :
    (r >>= next).Agrees fun bytes b rest => ∃ a middle, T bytes a middle ∧ U a middle b rest := by
  obtain ⟨G, hG, hT⟩ := hr
  choose H hH hU using hnext
  refine ⟨fun b run => ∃ a head tail, run = head ++ tail ∧ G a head ∧ H a b tail,
    ReadsAt.bind hG hH, fun bytes b rest => ?_⟩
  simp only [hT, hU]
  constructor
  · rintro ⟨a, middle, ⟨head, rfl, hhead⟩, tail, rfl, htail⟩
    exact ⟨head ++ tail, (List.append_assoc _ _ _).symm, a, head, tail, rfl, hhead, htail⟩
  · rintro ⟨_, rfl, a, head, tail, rfl, hhead, htail⟩
    exact ⟨a, tail ++ rest, ⟨head, List.append_assoc _ _ _, hhead⟩, tail, rfl, htail⟩

/-- A reader whose result is only rearranged. -/
theorem Agrees.map (hr : r.Agrees T) (f : α → β) :
    (r >>= fun a => pure (f a)).Agrees fun bytes b rest => ∃ a, b = f a ∧ T bytes a rest := by
  refine (hr.bind fun a => agrees_pure (f a)).congr fun bytes b rest => ?_
  constructor
  · rintro ⟨a, middle, htaken, rfl, rfl⟩
    exact ⟨a, rfl, htaken⟩
  · rintro ⟨a, rfl, htaken⟩
    exact ⟨a, rest, htaken, rfl, rfl⟩

end Reader

namespace Instruction

open Reader

/-! ## Numbers and labels -/

/-- A constant of 32 bits is read from any of its spellings. -/
theorem reads_s32 : Leb128.s32.Reads fun n run => SpellsSigned 32 n.toInt run :=
  fun _ _ _ => s32_eq_ok_iff

/-- A constant of 64 bits is read from any of its spellings. -/
theorem reads_s64 : Leb128.s64.Reads fun n run => SpellsSigned 64 n.toInt run :=
  fun _ _ _ => s64_eq_ok_iff

/-- Numbers of the same form are read from a stream and from a body. -/
theorem agrees_number {α : Type} {r : Reader ReadFault α} {G : Form α} (hr : r.Reads G) :
    (Reader.plain r).Agrees fun bytes a rest => number r bytes = .ok (a, rest) :=
  ⟨G, hr.lift _, fun _ _ _ => number_eq_ok_iff fun {c c' a} => hr c a c'⟩

/-- Both readers read the same indices. -/
theorem agrees_index : (Reader.plain Leb128.u32).Agrees fun bytes n rest =>
    number Leb128.u32 bytes = .ok (n, rest) :=
  agrees_number reads_leb128_u32

/-- The reader of files keeps an index as a word. -/
theorem agrees_readIndex : readIndex.Agrees fun bytes i rest =>
    ∃ n : UInt32, i = n.toUInt64 ∧ number Leb128.u32 bytes = .ok (n, rest) :=
  agrees_index.map UInt32.toUInt64

/-- Both readers ask for the same reserved byte. -/
theorem agrees_readReserved (what feature : String) :
    (readReserved what feature).Agrees fun bytes _ rest =>
    reserved what feature bytes = .ok rest := by
  refine ⟨fun _ run => run = [0], ?_, fun bytes _ rest => ?_⟩
  · refine ((reads_byte.lift Fault.read).bind (H := fun b _ _ run => b = 0 ∧ run = [])
      fun b => ?_).congr
      fun _ u run => ?_
    · by_cases hb : b = 0
      · rw [if_neg (by simp [hb])]
        exact (reads_pure ()).congr fun _ _ run => by simp [hb]
      · rw [if_pos hb]
        exact (reads_throw _).congr fun _ _ run => by simp [hb]
    · constructor
      · rintro ⟨b, head, tail, rfl, rfl, rfl, rfl⟩
        rfl
      · rintro rfl
        exact ⟨0, [0], [], rfl, rfl, rfl, rfl⟩
  · simp only [reserved_iff]
    constructor
    · rintro rfl
      exact ⟨[0], rfl, rfl⟩
    · rintro ⟨_, rfl, rfl⟩
      rfl

/-- A row of numbers spells indices. -/
theorem row_u32_iff {ns : List UInt32} {run : List UInt8} :
    U32.Row ns run ↔ SpellsIndices ns run := by
  induction ns generalizing run with
  | nil => exact Iff.rfl
  | cons n ns ih => simp only [Form.Row, SpellsIndices, ih, U32, SpellsIndex]

/-- The cases of a branch table. -/
theorem agrees_labels (n : Nat) :
    (Reader.times n fun _ => (Reader.plain Leb128.u32 : Reader Fault UInt32)).Agrees
      fun bytes ns rest =>
      tableLabels n bytes = .ok (ns.map fun l => (l.toNat : Int), rest) := by
  have hreads := ReadsAt.timesFrom (fun _ => reads_leb128_u32.lift Fault.read) 0 n
  refine ⟨fun ns run => ns.length = n ∧ U32.Row ns run,
    hreads.congr fun _ ns run => by rw [PlacedForm.row_iff], fun bytes ns rest => ?_⟩
  simp only [tableLabels_iff, row_u32_iff]
  constructor
  · rintro ⟨ms, hlength, hlabels, run, rfl, hrun⟩
    have hinj : Function.Injective fun l : UInt32 => (l.toNat : Int) := fun l l' h =>
      UInt32.toNat_inj.mp (Int.ofNat.inj h)
    obtain rfl := List.map_injective_iff.mpr hinj hlabels
    exact ⟨run, rfl, hlength, hrun⟩
  · rintro ⟨run, rfl, hlength, hrun⟩
    exact ⟨ns, hlength, rfl, run, rfl, hrun⟩

/-! ## Immediates -/

/-- A number that is the immediate of an instruction. -/
theorem agrees_value {α : Type} {r : Reader ReadFault α} {G : Form α} (hr : r.Reads G)
    (f : α → UInt64) :
    (do return (f (← Reader.plain r), []) : Reader Fault (UInt64 × List Int)).Agrees
      fun bytes v rest => (do
        let (a, bytes) ← number r bytes
        return (f a, [], bytes)) = Except.ok (v.1, v.2, rest) := by
  refine ((agrees_number hr).map fun a => (f a, [])).congr fun bytes v rest => ?_
  simp only [except_bind_eq_ok, except_pure_eq_ok, Prod.exists, Prod.mk.injEq]
  constructor
  · rintro ⟨a, rfl, ha⟩
    exact ⟨a, rest, ha, rfl, rfl, rfl⟩
  · rintro ⟨a, _, ha, hvalue, hlabels, rfl⟩
    exact ⟨a, Prod.ext hvalue.symm hlabels.symm, ha⟩

/-- Both readers read the index of a branch. -/
theorem agrees_indexed : (readImmediates .br).Agrees fun bytes v rest =>
    immediates .br bytes = .ok (v.1, v.2, rest) := by
  have hsame : readImmediates .br = do return ((← Reader.plain Leb128.u32).toUInt64, []) := by
    simp only [readImmediates, readIndex, bind_assoc, pure_bind]
  rw [hsame]
  exact agrees_value reads_leb128_u32 UInt32.toUInt64

/-- Both readers read the type of an indirect call and the reserved byte after it. -/
theorem agrees_callIndirect : (readImmediates .callIndirect).Agrees fun bytes v rest =>
    immediates .callIndirect bytes = .ok (v.1, v.2, rest) := by
  refine (agrees_readIndex.bind fun index =>
    (agrees_readReserved _ _).map fun _ => (index, [])).congr fun bytes v rest => ?_
  simp only [immediates, except_bind_eq_ok, except_pure_eq_ok, Prod.exists, Prod.mk.injEq]
  constructor
  · rintro ⟨_, middle, ⟨n, rfl, hn⟩, _, rfl, hbyte⟩
    exact ⟨n, middle, hn, rest, hbyte, rfl, rfl, rfl⟩
  · rintro ⟨n, middle, hn, _, hbyte, hvalue, hlabels, rfl⟩
    exact ⟨v.1, middle, ⟨n, hvalue.symm, hn⟩, (), Prod.ext rfl hlabels.symm, hbyte⟩

/-- Both readers read instructions with a reserved byte only. -/
theorem agrees_reserved (what feature : String) :
    (do
      readReserved what feature
      return (0, []) : Reader Fault (UInt64 × List Int)).Agrees fun bytes v rest => (do
        let bytes ← reserved what feature bytes
        return (0, [], bytes)) = Except.ok (v.1, v.2, rest) := by
  refine ((agrees_readReserved what feature).map fun _ => (0, [])).congr fun bytes v rest => ?_
  simp only [except_bind_eq_ok, except_pure_eq_ok, Prod.mk.injEq]
  constructor
  · rintro ⟨_, rfl, hbyte⟩
    exact ⟨rest, hbyte, rfl, rfl, rfl⟩
  · rintro ⟨_, hbyte, hvalue, hlabels, rfl⟩
    exact ⟨(), Prod.ext hvalue.symm hlabels.symm, hbyte⟩

/-- Both readers read the alignment and the offset of a load. -/
theorem agrees_load (access : LoadForm) : (readImmediates (.load access)).Agrees fun bytes v rest =>
    immediates (.load access) bytes = .ok (v.1, v.2, rest) := by
  refine (agrees_index.bind fun align =>
    agrees_index.map fun offset => (memoryImmediate offset align, [])).congr fun bytes v rest => ?_
  simp only [immediates, except_bind_eq_ok, except_pure_eq_ok, Prod.exists, Prod.mk.injEq]
  constructor
  · rintro ⟨align, middle, halign, offset, rfl, hoffset⟩
    exact ⟨align, middle, halign, offset, rest, hoffset, rfl, rfl, rfl⟩
  · rintro ⟨align, middle, halign, offset, _, hoffset, hvalue, hlabels, rfl⟩
    exact ⟨align, middle, halign, offset, Prod.ext hvalue.symm hlabels.symm, hoffset⟩

/-- A body is first looked at for enough bytes for all cases of a table, but each of them takes a
byte anyway. -/
theorem agrees_brTable : (readImmediates .brTable).Agrees fun bytes v rest =>
    immediates .brTable bytes = .ok (v.1, v.2, rest) := by
  refine (agrees_index.bind fun count => (agrees_labels count.toNat).bind fun labels =>
    agrees_readIndex.map (·, labels.map fun l => (l.toNat : Int))).congr fun bytes v rest => ?_
  simp only [immediates, except_bind_eq_ok, Prod.exists]
  constructor
  · rintro ⟨count, middle, hcount, labels, last, hlabels, _, rfl, default, rfl, hdefault⟩
    obtain ⟨ns, hlength, -, run, rfl, hrun⟩ := tableLabels_iff.mp hlabels
    have hle := hrun.length_le
    have hroom : ¬ (run ++ last).length < count.toNat := by
      rw [List.length_append]
      omega
    refine ⟨count, run ++ last, hcount, ?_⟩
    simp only [if_neg hroom, except_bind_eq_ok, except_pure_eq_ok, Prod.exists]
    exact ⟨_, last, hlabels, default, rest, hdefault, rfl⟩
  · rintro ⟨count, middle, hcount, hok⟩
    split at hok
    · cases hok
    · simp only [except_bind_eq_ok, except_pure_eq_ok, Prod.exists, Prod.mk.injEq] at hok
      obtain ⟨labels, last, hlabels, default, _, hdefault, hvalue, hcases, rfl⟩ := hok
      obtain ⟨ns, -, rfl, -⟩ := tableLabels_iff.mp hlabels
      exact ⟨count, middle, hcount, ns, last, hlabels, v.1, Prod.ext rfl hcases.symm, default,
        hvalue.symm, hdefault⟩

/-- Both readers read nothing for other opcodes. -/
theorem agrees_nothing : (pure (0, []) : Reader Fault (UInt64 × List Int)).Agrees
    fun bytes v rest => (pure (0, [], bytes) : Except Fault _) = Except.ok (v.1, v.2, rest) := by
  refine (agrees_pure _).congr fun bytes v rest => ?_
  simp only [except_pure_eq_ok, Prod.ext_iff, and_assoc]
  exact and_congr eq_comm (and_congr eq_comm Iff.rfl)

/-- The immediates of an instruction that opens no block are the same in a stream and in a body. -/
theorem agrees_immediates {op : Opcode} (hopens : opensBlock op.byte = false) :
    (readImmediates op).Agrees fun bytes v rest => immediates op bytes = .ok (v.1, v.2, rest) := by
  cases op with
  | block | loop | ifThen => cases hopens
  | br | brIf | call | localGet | localSet | localTee | globalGet | globalSet =>
    exact agrees_indexed
  | brTable => exact agrees_brTable
  | callIndirect => exact agrees_callIndirect
  | load access => exact agrees_load access
  | store access => exact agrees_load (.full .i32)
  | memorySize | memoryGrow => exact agrees_reserved _ _
  | const type =>
    cases type with
    | i32 => exact agrees_value reads_s32 _
    | i64 => exact agrees_value reads_s64 _
  | _ => exact agrees_nothing

/-! ## Types of blocks -/

/-- Bytes that stand for the type of a block in a stream: those of any negative number of 64 bits
whose low seven bits are those of the byte of the type. -/
def SpellsType (type : BlockType) (run : List UInt8) : Prop :=
  ∃ i : Int, SpellsSigned 64 i run ∧ i < 0 ∧ i % 128 = (typeByte type).toNat

/-- The low bits of a number are its residue. -/
theorem lowBits_iff {n : Int64} {b : UInt8} (hb : b.toNat < 128) :
    (n.toUInt64 &&& 0x7f).toUInt8 = b ↔ n.toInt % 128 = b.toNat := by
  have hlow : (n.toUInt64 &&& 0x7f).toUInt8.toNat = (n.toInt % 128).toNat :=
    (toNat_lowGroup n.toUInt64).trans (toNat_toUInt64_mod n)
  rw [← UInt8.toNat_inj, hlow]
  omega

/-- The byte of a block type has its top bit unset. -/
theorem typeByte_lt (type : BlockType) : (typeByte type).toNat < 128 := by
  rcases type with _ | _ | _ <;> decide

/-- What is done with the number that was read for the type of a block. -/
theorem reads_blockTypeOf (n : Int64) : (do
    match blockTypeOf (n.toUInt64 &&& 0x7f).toUInt8 with
    | .ok code => return code
    | .error e => throw (.decode e) : Reader Fault UInt64).Reads fun code run =>
      run = [] ∧ ∃ type, code = blockCode (typeByte type) ∧
          n.toInt % 128 = (typeByte type).toNat := by
  cases hcode : blockTypeOf (n.toUInt64 &&& 0x7f).toUInt8 with
  | ok found =>
    obtain ⟨type, hbyte, rfl⟩ := blockTypeOf_iff.mp hcode
    refine (reads_pure _).congr fun _ code run => ?_
    rw [hbyte]
    constructor
    · rintro ⟨rfl, rfl⟩
      exact ⟨rfl, type, rfl, (lowBits_iff (typeByte_lt type)).mp hbyte⟩
    · rintro ⟨rfl, other, rfl, hother⟩
      rw [(lowBits_iff (typeByte_lt other)).mpr hother] at hbyte
      exact ⟨by rw [hbyte], rfl⟩
  | error e =>
    refine (reads_throw _).of_never fun _ code run => ?_
    rintro ⟨-, type, -, htype⟩
    have hok := blockTypeOf_iff.mpr ⟨type, (lowBits_iff (typeByte_lt type)).mpr htype, rfl⟩
    rw [hok] at hcode
    cases hcode

/-- The reader of files reads block types from all spellings. -/
theorem reads_readBlockType : readBlockType.Reads fun code run =>
    ∃ type, code = blockCode (typeByte type) ∧ SpellsType type run := by
  have hnext (n : Int64) : (do
      if 0 ≤ n then throw (.decode (indexedBlock n.toInt))
      match blockTypeOf (n.toUInt64 &&& 0x7f).toUInt8 with
      | .ok type => return type
      | .error e => throw (.decode e) : Reader Fault UInt64).Reads fun code run =>
        n.toInt < 0 ∧ run = [] ∧ ∃ type, code = blockCode (typeByte type) ∧
          n.toInt % 128 = (typeByte type).toNat := by
    by_cases hsign : 0 ≤ n
    · have hle : 0 ≤ n.toInt := Int64.le_iff_toInt_le.mp hsign
      rw [if_pos hsign]
      exact ReadsAt.of_never (never_bind (reads_throw _) _) fun _ _ _ h => by omega
    · have hneg : n.toInt < 0 := by
        rw [Int64.le_iff_toInt_le] at hsign
        exact Int.not_le.mp hsign
      rw [if_neg hsign]
      exact (reads_blockTypeOf n).congr fun _ _ _ => (and_iff_right hneg).symm
  refine ((reads_s64.lift _).bind hnext).congr fun _ code run => ?_
  constructor
  · rintro ⟨n, head, tail, rfl, hspells, hneg, rfl, type, rfl, htype⟩
    exact ⟨type, rfl, n.toInt, by rwa [List.append_nil], hneg, htype⟩
  · rintro ⟨type, rfl, i, hspells, hneg, htype⟩
    have hvalue : (Int64.ofInt i).toInt = i :=
      Int64.toInt_ofInt_of_le hspells.le_value hspells.value_lt
    refine ⟨Int64.ofInt i, run, [], (List.append_nil run).symm, ?_⟩
    rw [hvalue]
    exact ⟨hspells, hneg, rfl, type, rfl, htype⟩

/-- Of the single bytes, only that of a type stands for the type. -/
theorem spellsType_byte {type : BlockType} {b : UInt8} :
    SpellsType type [b] ↔ b = typeByte type := by
  have hvalue (hlast : continues b = false) :
      signedGroup b < 0 → signedGroup b % 128 = b.toNat := by
    have hgroup := group_eq_toNat hlast
    have hlt := group_lt b
    unfold signedGroup
    split <;> omega
  constructor
  · rintro ⟨i, hspells, hneg, htype⟩
    obtain rfl : signedGroup b = i := hspells.value_eq
    have hbyte := hvalue hspells.isRun hneg
    exact UInt8.toNat_inj.mp (by omega)
  · rintro rfl
    have hlast : continues (typeByte type) = false := by rcases type with _ | _ | _ <;> rfl
    have hneg : signedGroup (typeByte type) < 0 := by rcases type with _ | _ | _ <;> decide
    have hle := le_signedGroup (typeByte type)
    have hspells : SpellsSigned 64 (signedGroup (typeByte type)) [typeByte type] :=
      ⟨hlast, Nat.le_add_left 1 9, rfl, by omega, by omega⟩
    exact ⟨_, hspells, hneg, hvalue hlast hneg⟩

/-- The bytes for a type are the byte of the type, or more than one byte. -/
theorem spellsType_iff {type : BlockType} {run : List UInt8} :
    SpellsType type run ↔ run = [typeByte type] ∨ SpellsType type run ∧ 1 < run.length := by
  constructor
  · intro hspells
    obtain ⟨i, hi, -⟩ := id hspells
    rcases Nat.eq_or_lt_of_le hi.isRun.length_pos with hone | hmore
    · obtain ⟨b, rfl⟩ := List.length_eq_one_iff.mp hone.symm
      exact .inl (congrArg (List.cons · []) (spellsType_byte.mp hspells))
    · exact .inr ⟨hspells, hmore⟩
  · rintro (rfl | ⟨hspells, -⟩)
    · exact spellsType_byte.mpr rfl
    · exact hspells

/-- Three opcodes open blocks. -/
theorem opensBlock_byte_iff {op : Opcode} :
    opensBlock op.byte = true ↔ op = .block ∨ op = .loop ∨ op = .ifThen := by
  simp [opensBlock, Opcode.byte_eq_iff]

/-- The immediate of an opening instruction is its type's number. -/
theorem reads_openingImmediates {op : Opcode} (hopens : opensBlock op.byte = true) :
    (readImmediates op).Reads fun v run => ∃ type, v = (blockCode (typeByte type), []) ∧
    SpellsType type run := by
  have hsame : readImmediates op = do return (← readBlockType, []) := by
    rcases opensBlock_byte_iff.mp hopens with rfl | rfl | rfl <;> rfl
  rw [hsame]
  refine (reads_readBlockType.map (·, [])).congr fun _ v run => ?_
  constructor
  · rintro ⟨_, rfl, type, rfl, hspells⟩
    exact ⟨type, rfl, hspells⟩
  · rintro ⟨type, rfl, hspells⟩
    exact ⟨_, rfl, type, rfl, hspells⟩

/-- The reader of bodies reads block types of one byte only. -/
theorem openingImmediates_iff {op : Opcode} (hopens : opensBlock op.byte = true)
    {bytes rest : List UInt8} {v : UInt64 × List Int} :
    immediates op bytes = .ok (v.1, v.2, rest) ↔
      ∃ type, v = (blockCode (typeByte type), []) ∧ bytes = typeByte type :: rest := by
  have hsame : immediates op bytes = do
      let found ← blockType bytes
      return (found.1, [], found.2) := by
    rcases opensBlock_byte_iff.mp hopens with rfl | rfl | rfl <;> rfl
  rw [hsame]
  simp only [except_bind_eq_ok, except_pure_eq_ok, Prod.exists, Prod.mk.injEq, blockType_iff]
  constructor
  · rintro ⟨_, _, ⟨type, rfl, rfl⟩, hvalue, hlabels, rfl⟩
    exact ⟨type, Prod.ext hvalue.symm hlabels.symm, rfl⟩
  · rintro ⟨type, rfl, rfl⟩
    exact ⟨_, _, ⟨type, rfl, rfl⟩, rfl, rfl, rfl⟩

/-! ## Instructions -/

/-- A block whose type is spelled with more than one byte. -/
def PaddedOpening (i : Instruction) (run : List UInt8) : Prop :=
  ∃ op type more, opensBlock op.byte = true ∧ i = opening op (blockCode (typeByte type)) ∧
    run = op.byte :: more ∧ SpellsType type more ∧ 1 < more.length

/-- The immediates of a stream are those of a body, or the type of a block in more than one byte. -/
theorem agrees_streamImmediates (op : Opcode) : (readImmediates op).Agrees fun bytes v rest =>
    immediates op bytes = .ok (v.1, v.2, rest) ∨
      ∃ more, bytes = more ++ rest ∧ PaddedOpening ⟨op.byte, v.1, v.2⟩ (op.byte :: more) := by
  cases hopens : opensBlock op.byte with
  | false =>
    refine (agrees_immediates hopens).congr fun bytes v rest => ?_
    constructor
    · exact .inl
    · rintro (hok | ⟨more, -, other, type, _, hother, -, hrun, -⟩)
      · exact hok
      · rw [← (List.cons.inj hrun).1, hopens] at hother
        cases hother
  | true =>
    refine ⟨_, reads_openingImmediates hopens, fun bytes v rest => ?_⟩
    simp only [openingImmediates_iff hopens]
    constructor
    · rintro (⟨type, rfl, rfl⟩ | ⟨more, rfl, other, type, _, -, hvalue, hrun, hspells, -⟩)
      · exact ⟨[typeByte type], rfl, type, rfl, spellsType_byte.mpr rfl⟩
      · obtain ⟨-, rfl⟩ := List.cons.inj hrun
        obtain ⟨-, hcode, hlabels⟩ := Instruction.mk.inj hvalue
        exact ⟨_, rfl, type, Prod.ext hcode hlabels, hspells⟩
    · rintro ⟨run, rfl, type, rfl, hspells⟩
      rcases spellsType_iff.mp hspells with rfl | hpadded
      · exact .inl ⟨type, rfl, rfl⟩
      · exact .inr ⟨run, rfl, op, type, run, hopens, rfl, rfl, hpadded⟩

/-- The instructions of a stream are those of a body, and blocks whose type takes more than one
byte. -/
theorem agrees_read : read.Agrees fun bytes i rest =>
    ofBytes bytes = .ok (i, rest) ∨ ∃ run, bytes = run ++ rest ∧ PaddedOpening i run := by
  have hopcode : (Reader.plain Reader.byte : Reader Fault UInt8).Agrees fun bytes b rest =>
      bytes = b :: rest :=
    ⟨_, reads_byte.lift _, fun bytes b rest => by simp⟩
  have hread : read.Agrees fun bytes i rest => ∃ opcode middle, bytes = opcode :: middle ∧
      (ofBytes (opcode :: middle) = .ok (i, rest) ∨
        ∃ more, middle = more ++ rest ∧ PaddedOpening i (opcode :: more)) := by
    -- Both readers look at the opcode first and differ in nothing but the immediates of blocks,
    -- which is where `PaddedOpening` comes from.
    refine hopcode.bind fun opcode => ?_
    cases hop : Opcode.ofByte? opcode with
    | none =>
      refine ⟨_, reads_throw _, fun bytes i rest => ?_⟩
      constructor
      · rintro (hok | ⟨more, -, op, _, _, -, -, hrun, -⟩)
        · rw [ofBytes] at hok
          simp only [hop] at hok
          cases hok
        · rw [(List.cons.inj hrun).1, Opcode.ofByte?_byte] at hop
          cases hop
      · rintro ⟨_, _, hfalse⟩
        exact hfalse.elim
    | some op =>
      obtain rfl := Opcode.ofByte?_eq_some_iff.mp hop
      refine ((agrees_streamImmediates op).map fun v => Instruction.mk op.byte v.1 v.2).congr
        fun bytes i rest => ?_
      rw [ofBytes_cons hop]
      simp only [except_bind_eq_ok, except_pure_eq_ok, Prod.exists, Prod.mk.injEq]
      constructor
      · rintro ⟨immediate, labels, rfl, hok | hpadded⟩
        · exact .inl ⟨immediate, labels, rest, hok, rfl, rfl⟩
        · exact .inr hpadded
      · rintro (⟨immediate, labels, _, hok, rfl, rfl⟩ | ⟨more, rfl, hpadded⟩)
        · exact ⟨immediate, labels, rfl, .inl hok⟩
        · obtain ⟨other, type, _, -, rfl, hrun, -⟩ := id hpadded
          obtain ⟨hbyte, -⟩ := List.cons.inj hrun
          have hsame : opening other (blockCode (typeByte type)) =
              ⟨op.byte, blockCode (typeByte type), []⟩ := by
            rw [hbyte]
            rfl
          exact ⟨_, _, hsame, .inr ⟨more, rfl, hsame ▸ hpadded⟩⟩
  refine hread.congr fun bytes i rest => ?_
  constructor
  · rintro ⟨opcode, middle, rfl, hok | ⟨more, rfl, hpadded⟩⟩
    · exact .inl hok
    · exact .inr ⟨opcode :: more, rfl, hpadded⟩
  · rintro (hok | ⟨run, rfl, hpadded⟩)
    · cases bytes with
      | nil => cases hok
      | cons opcode bytes => exact ⟨opcode, bytes, rfl, .inl hok⟩
    · obtain ⟨op, type, more, -, -, rfl, -⟩ := id hpadded
      exact ⟨op.byte, more ++ rest, rfl, .inr ⟨more, rfl, hpadded⟩⟩

/-- A body has no block whose type takes more than one byte. -/
theorem not_padded_of_ofBytes {run rest : List UInt8} {i : Instruction}
    (hpadded : PaddedOpening i run) (found : Instruction × List UInt8) :
    ofBytes (run ++ rest) ≠ .ok found := by
  obtain ⟨op, type, more, hopens, rfl, rfl, ⟨value, hvalue, -⟩, hmore⟩ := hpadded
  intro hok
  rw [List.cons_append, ofBytes_cons (Opcode.ofByte?_byte op)] at hok
  simp only [except_bind_eq_ok, Prod.exists] at hok
  obtain ⟨immediate, labels, left, hok, -⟩ := hok
  obtain ⟨other, -, hbytes⟩ := (openingImmediates_iff (v := (immediate, labels)) hopens).mp hok
  obtain ⟨b, tail, rfl⟩ := List.exists_cons_of_length_pos (Nat.zero_lt_of_lt hmore)
  obtain ⟨rfl, -⟩ := List.cons.inj hbytes
  have hlast : continues (typeByte other) = false := by rcases other with _ | _ | _ <;> rfl
  rcases isRun_cons.mp hvalue.isRun with ⟨-, rfl⟩ | ⟨hcontinues, -⟩
  · exact Nat.lt_irrefl 1 hmore
  · rw [hlast] at hcontinues
    cases hcontinues

/-- The readers of streams and of bodies give the same instruction for the same number of bytes,
except that only a stream may spell the type of a block with more than one byte; a body that begins
so is refused. -/
theorem readers_agree (c : Cursor) (i : Instruction) (k : Nat) :
    ((∃ c', read c = .ok i c' ∧ c'.consumed = c.consumed + k) ↔
      (∃ rest, ofBytes c.rest = .ok (i, rest) ∧ rest.length + k = c.rest.length) ∨
        ∃ run rest, c.rest = run ++ rest ∧ run.length = k ∧ PaddedOpening i run) ∧
    ∀ run rest, c.rest = run ++ rest → PaddedOpening i run →
    ∀ found, ofBytes c.rest ≠ .ok found := by
  refine ⟨?_, fun run rest hrest hpadded found => hrest ▸ not_padded_of_ofBytes hpadded found⟩
  constructor
  · rintro ⟨c', hread, hconsumed⟩
    obtain ⟨run, rest, hrest, htaken, rfl⟩ := agrees_read.ok_iff.mp hread
    have hlength : run.length = k := Nat.add_left_cancel hconsumed
    rcases htaken with hok | ⟨used, hused, hpadded⟩
    · refine .inl ⟨rest, hok, ?_⟩
      rw [hrest, List.length_append]
      omega
    · obtain rfl := List.append_cancel_right (hused.symm.trans hrest)
      exact .inr ⟨used, rest, hrest, hlength, hpadded⟩
  · rintro (⟨rest, hok, hlength⟩ | ⟨run, rest, hrest, rfl, hpadded⟩)
    · obtain ⟨token, run, -, -, hrest⟩ := exists_token_of_ofBytes hok
      rw [hrest, List.length_append] at hlength
      refine ⟨_, agrees_read.ok_iff.mpr ⟨run, rest, hrest, .inl hok, rfl⟩, ?_⟩
      exact congrArg (c.consumed + ·) (by omega)
    · exact ⟨_, agrees_read.ok_iff.mpr ⟨run, rest, hrest, .inr ⟨run, hrest, hpadded⟩, rfl⟩, rfl⟩

/-- The type of a block in two bytes: a stream is read, and a body is refused. -/
theorem readers_differ_padded :
    read { rest := [0x02, 0xc0, 0x7e] } = .ok (opening .block blockEmpty)
      { rest := [], consumed := 3 } ∧
      ∀ found, ofBytes [0x02, 0xc0, 0x7e] ≠ .ok found := by
  have hspells : SpellsSigned 64 (-192) [0xc0, 0x7e] :=
    ⟨⟨rfl, rfl⟩, by decide, rfl, by decide, by decide⟩
  have hpadded : PaddedOpening (opening .block blockEmpty) [0x02, 0xc0, 0x7e] :=
    ⟨.block, none, [0xc0, 0x7e], rfl, rfl, rfl, ⟨-192, hspells, by decide, rfl⟩, by decide⟩
  exact ⟨agrees_read.ok_iff.mpr ⟨[0x02, 0xc0, 0x7e], [], rfl, .inr ⟨_, rfl, hpadded⟩, rfl⟩,
    not_padded_of_ofBytes hpadded⟩

end Instruction

end IntWasm
