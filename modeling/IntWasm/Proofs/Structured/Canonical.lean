import IntWasm.Proofs.Leb128.Canonical
import IntWasm.Proofs.Structured.Effects
import IntWasm.Proofs.Structured.Openings
import IntWasm.Proofs.Structured.Reading

/-!
# What is written for tokens

Of all spellings of a token one has every number in its shortest form: the opcode and the immediates
as they are written for the instruction that the token stands for. No spelling is shorter, and one
without padding is no other. Main statements: `Structured.spellsTokens_written` and
`Structured.ShortestTokens.eq_written`.
-/

namespace IntWasm.Structured

open Leb128 Instruction

/-! ## Shortest spellings -/

/-- Bytes that stand for several numbers in order, each of them in its shortest form. -/
def ShortestIndices : List UInt32 → List UInt8 → Prop
  | [], bytes => bytes = []
  | n :: ns, bytes => ∃ first more, bytes = first ++ more ∧ Shortest (SpellsIndex n) first ∧
      ShortestIndices ns more

/-- Bytes that stand for the immediates of an instruction, every number in its shortest form. -/
def Instr.ShortestImmediates (i : Instr) (bytes : List UInt8) : Prop :=
  match i with
  | br n | brIf n | call n | localGet n | localSet n | localTee n | globalGet n | globalSet n =>
    Shortest (SpellsIndex n) bytes
  | brTable cases default => ∃ count more last, bytes = count ++ (more ++ last) ∧
      Shortest (SpellsUnsigned 32 cases.length) count ∧ ShortestIndices cases more ∧
      Shortest (SpellsIndex default) last
  | callIndirect type => ∃ index, bytes = index ++ [0] ∧ Shortest (SpellsIndex type) index
  | load _ align offset | store _ align offset => ∃ first second, bytes = first ++ second ∧
      Shortest (SpellsIndex align) first ∧ Shortest (SpellsIndex offset) second
  | const32 value => Shortest (SpellsSigned 32 value.toInt) bytes
  | const64 value => Shortest (SpellsSigned 64 value.toInt) bytes
  | i => i.SpellsImmediates bytes

/-- Bytes that stand for a token, every number in its shortest form. -/
def Token.SpellsShortest (token : Token) (bytes : List UInt8) : Prop :=
  ∃ more, bytes = token.op.byte :: more ∧
    match token with
    | instr i => i.ShortestImmediates more
    | block type | loop type | ifThen type => more = [typeByte type]
    | otherwise | close => more = []

/-- Bytes that stand for several tokens in order, every number in its shortest form. -/
def ShortestTokens : List Token → List UInt8 → Prop
  | [], bytes => bytes = []
  | token :: tokens, bytes => ∃ first more, bytes = first ++ more ∧ token.SpellsShortest first ∧
      ShortestTokens tokens more

/-! A spelling without padding is a spelling. -/

/-- Shortest spellings of indices are spellings. -/
theorem ShortestIndices.spells {ns : List UInt32} {bytes : List UInt8}
    (hshortest : ShortestIndices ns bytes) : SpellsIndices ns bytes := by
  induction ns generalizing bytes with
  | nil => exact hshortest
  | cons n ns ih =>
    obtain ⟨first, more, rfl, hfirst, hmore⟩ := hshortest
    exact ⟨first, more, rfl, hfirst.1, ih hmore⟩

/-- Shortest spellings of immediates are spellings. -/
theorem Instr.ShortestImmediates.spells {i : Instr} {bytes : List UInt8}
    (hshortest : i.ShortestImmediates bytes) : i.SpellsImmediates bytes := by
  cases i with
  | br n | brIf n | call n | localGet n | localSet n | localTee n | globalGet n | globalSet n =>
    exact hshortest.1
  | brTable cases default =>
    obtain ⟨count, more, last, rfl, hcount, hmore, hlast⟩ := hshortest
    exact ⟨count, more, last, rfl, hcount.1, hmore.spells, hlast.1⟩
  | callIndirect type =>
    obtain ⟨index, rfl, hindex⟩ := hshortest
    exact ⟨index, rfl, hindex.1⟩
  | load access align offset | store access align offset =>
    obtain ⟨first, second, rfl, hfirst, hsecond⟩ := hshortest
    exact ⟨first, second, rfl, hfirst.1, hsecond.1⟩
  | const32 value | const64 value => exact hshortest.1
  | _ => exact hshortest

/-- Shortest spellings of a token are spellings. -/
theorem Token.SpellsShortest.spells {token : Token} {bytes : List UInt8}
    (hshortest : token.SpellsShortest bytes) : token.Spells bytes := by
  obtain ⟨more, rfl, hmore⟩ := hshortest
  refine ⟨more, rfl, ?_⟩
  cases token with
  | instr i => exact hmore.spells
  | block type | loop type | ifThen type | otherwise | close => exact hmore

/-- Shortest spellings of tokens are spellings. -/
theorem ShortestTokens.spells {tokens : List Token} {bytes : List UInt8}
    (hshortest : ShortestTokens tokens bytes) : SpellsTokens tokens bytes := by
  induction tokens generalizing bytes with
  | nil => exact hshortest
  | cons token tokens ih =>
    obtain ⟨first, more, rfl, hfirst, hmore⟩ := hshortest
    exact ⟨first, more, rfl, hfirst.spells, ih hmore⟩

/-! ## Written immediates -/

/-- The bytes that are written for the immediates of an instruction. -/
def Instr.written : Instr → List UInt8
  | br n | brIf n | call n | localGet n | localSet n | localTee n | globalGet n | globalSet n =>
    encodeU32 n
  | brTable cases default =>
    encodeNat cases.length ++ (cases.flatMap encodeU32 ++ encodeU32 default)
  | callIndirect type => encodeU32 type ++ [0]
  | load _ align offset | store _ align offset => encodeU32 align ++ encodeU32 offset
  | memorySize | memoryGrow => [0]
  | const32 value => encodeS32 value
  | const64 value => encodeS64 value
  | _ => []

/-- An index that was kept as a label is read back. -/
theorem ofInt_toNat (n : UInt32) : UInt32.ofInt n.toNat = n := by
  apply UInt32.toNat_inj.mp
  have hlt := n.toNat_lt
  simp only [UInt32.ofInt, UInt32.toNat_ofNat', Nat.reducePow]
  omega

/-- The low half of a word that a number was extended to is the number. -/
theorem toInt32_toInt64 (value : Int32) : value.toInt64.toUInt64.toUInt32.toInt32 = value := by
  apply Int32.toBitVec_inj.mp
  show BitVec.setWidth 32 (value.toBitVec.signExtend 64) = value.toBitVec
  apply BitVec.eq_of_getLsbD_eq
  intro i hi
  have hi' : i < 64 := by omega
  rw [BitVec.getLsbD_setWidth, BitVec.getLsbD_signExtend]
  simp [hi, hi']

/-- What is written for an instruction that was read are its immediates. -/
theorem Instr.immediateBytes_flat (i : Instr) : i.flat.immediateBytes i.op = i.written := by
  cases i with
  | br n | brIf n | call n | localGet n | localSet n | localTee n | globalGet n | globalSet n =>
    exact congrArg encodeU32 (Instr.index_flat rfl)
  | brTable cases default =>
    have hindex : (brTable cases default).flat.index = default := Instr.index_flat rfl
    have hlabels : (brTable cases default).flat.labels = cases.map fun label =>
      (label.toNat : Int) := rfl
    simp only [op, immediateBytes, hindex, hlabels, List.length_map, List.flatMap_map,
      ofInt_toNat, List.append_assoc, written]
  | callIndirect type =>
    exact congrArg (fun n => encodeU32 n ++ [0]) (Instr.index_flat rfl)
  | load access align offset | store access align offset =>
    simp only [op, immediateBytes, written, index_flat_load, index_flat_store, align_flat_load,
      align_flat_store]
  | const32 value =>
    exact congrArg encodeS32 (toInt32_toInt64 value)
  | const64 value =>
    exact congrArg encodeS64 (show (const64 value).flat.immediate.toInt64 = value from rfl)
  | _ => rfl

/-- The indices of a branch table are written one after another. -/
theorem spellsIndices_written (ns : List UInt32) : SpellsIndices ns (ns.flatMap encodeU32) := by
  induction ns with
  | nil => rfl
  | cons n ns ih => exact ⟨_, _, rfl, spellsUnsigned_encodeNat n.toNat_lt, ih⟩

/-- Indices are written in no more bytes than any spelling has. -/
theorem SpellsIndices.length_written_le {ns : List UInt32} {bytes : List UInt8}
    (hspells : SpellsIndices ns bytes) : (ns.flatMap encodeU32).length ≤ bytes.length := by
  induction ns generalizing bytes with
  | nil => exact Nat.zero_le _
  | cons n ns ih =>
    obtain ⟨first, more, rfl, hfirst, hmore⟩ := hspells
    have hhead : (encodeU32 n).length ≤ first.length := hfirst.length_encodeNat_le le_rfl
    have htail := ih hmore
    rw [List.flatMap_cons, List.length_append, List.length_append]
    omega

/-- The shortest spelling of indices is the one that is written. -/
theorem ShortestIndices.eq_written {ns : List UInt32} {bytes : List UInt8}
    (hshortest : ShortestIndices ns bytes) : bytes = ns.flatMap encodeU32 := by
  induction ns generalizing bytes with
  | nil => exact hshortest
  | cons n ns ih =>
    obtain ⟨first, more, rfl, hfirst, hmore⟩ := hshortest
    rw [List.flatMap_cons, ih hmore]
    exact congrArg (· ++ _) hfirst.eq_encodeNat

namespace Instr

variable {i : Instr} {bytes : List UInt8}

/-- What is written for immediates is a spelling of them. -/
theorem SpellsImmediates.spells_written (hspells : i.SpellsImmediates bytes) :
    i.SpellsImmediates i.written := by
  have hindex (n : UInt32) : SpellsIndex n (encodeU32 n) := spellsUnsigned_encodeNat n.toNat_lt
  cases i with
  | br n | brIf n | call n | localGet n | localSet n | localTee n | globalGet n | globalSet n =>
    exact hindex n
  | brTable cases default =>
    obtain ⟨count, more, last, -, hcount, -, -⟩ := hspells
    exact ⟨_, _, _, rfl, spellsUnsigned_encodeNat hcount.value_lt, spellsIndices_written cases,
      hindex default⟩
  | callIndirect type => exact ⟨_, rfl, hindex type⟩
  | load access align offset | store access align offset =>
    exact ⟨_, _, rfl, hindex align, hindex offset⟩
  | const32 value => exact spellsSigned_encodeS32 value
  | const64 value => exact spellsSigned_encodeS64 value
  | _ => rfl

/-- No spelling of immediates is shorter than what is written. -/
theorem SpellsImmediates.length_written_le (hspells : i.SpellsImmediates bytes) :
    i.written.length ≤ bytes.length := by
  have hindex {n : UInt32} {run : List UInt8} (hrun : SpellsIndex n run) :
      (encodeU32 n).length ≤ run.length := hrun.length_encodeNat_le le_rfl
  cases i with
  | br n | brIf n | call n | localGet n | localSet n | localTee n | globalGet n | globalSet n =>
    exact hindex hspells
  | brTable cases default =>
    obtain ⟨count, more, last, rfl, hcount, hmore, hlast⟩ := hspells
    have hfirst := hcount.length_encodeNat_le le_rfl
    have hmiddle := hmore.length_written_le
    have hend := hindex hlast
    simp only [written, List.length_append]
    omega
  | callIndirect type =>
    obtain ⟨index, rfl, hrun⟩ := hspells
    have hle := hindex hrun
    simp only [written, List.length_append]
    omega
  | load access align offset | store access align offset =>
    obtain ⟨first, second, rfl, hfirst, hsecond⟩ := hspells
    have halign := hindex hfirst
    have hoffset := hindex hsecond
    simp only [written, List.length_append]
    omega
  | const32 value => exact SpellsSigned.length_encodeInt_le hspells
  | const64 value => exact SpellsSigned.length_encodeInt_le hspells
  | _ => exact hspells ▸ le_rfl

/-- Immediates without padding are what is written for them. -/
theorem ShortestImmediates.eq_written (hshortest : i.ShortestImmediates bytes) :
    bytes = i.written := by
  have hindex {n : UInt32} {run : List UInt8} (hrun : Shortest (SpellsIndex n) run) :
      run = encodeU32 n := hrun.eq_encodeNat
  cases i with
  | br n | brIf n | call n | localGet n | localSet n | localTee n | globalGet n | globalSet n =>
    exact hindex hshortest
  | brTable cases default =>
    obtain ⟨count, more, last, rfl, hcount, hmore, hlast⟩ := hshortest
    rw [written, hcount.eq_encodeNat, hmore.eq_written, hindex hlast]
  | callIndirect type =>
    obtain ⟨index, rfl, hrun⟩ := hshortest
    rw [written, hindex hrun]
  | load access align offset | store access align offset =>
    obtain ⟨first, second, rfl, hfirst, hsecond⟩ := hshortest
    rw [written, hindex hfirst, hindex hsecond]
  | const32 value => exact Shortest.eq_encodeInt hshortest (spellsSigned_encodeS32 value)
  | const64 value => exact Shortest.eq_encodeInt hshortest (spellsSigned_encodeS64 value)
  | _ => exact hshortest

end Instr

/-! ## Written tokens -/

namespace Token

/-- The bytes that are written behind the opcode of a token. -/
def operands : Token → List UInt8
  | instr i => i.written
  | block type | loop type | ifThen type => [typeByte type]
  | otherwise | close => []

/-- The bytes that are written for a token. -/
def written (token : Token) : List UInt8 := token.op.byte :: token.operands

variable {token : Token} {bytes : List UInt8}

/-- A token that has a spelling is spelled by what is written. -/
theorem Spells.spells_written (hspells : token.Spells bytes) : token.Spells token.written := by
  obtain ⟨more, -, hmore⟩ := hspells
  refine ⟨token.operands, rfl, ?_⟩
  cases token with
  | instr i => exact hmore.spells_written
  | block type | loop type | ifThen type | otherwise | close => rfl

/-- What is written is no longer than any spelling. -/
theorem Spells.length_written_le (hspells : token.Spells bytes) :
    token.written.length ≤ bytes.length := by
  obtain ⟨more, rfl, hmore⟩ := hspells
  apply Nat.succ_le_succ
  cases token with
  | instr i => exact hmore.length_written_le
  | block type | loop type | ifThen type | otherwise | close => exact hmore ▸ le_rfl

/-- The shortest spelling of a token is the one that is written. -/
theorem SpellsShortest.eq_written (hshortest : token.SpellsShortest bytes) :
    bytes = token.written := by
  obtain ⟨more, rfl, hmore⟩ := hshortest
  refine congrArg (token.op.byte :: ·) ?_
  cases token with
  | instr i => exact hmore.eq_written
  | block type | loop type | ifThen type | otherwise | close => exact hmore

end Token

/-- What is written for tokens is a spelling of them if they have one. -/
theorem spellsTokens_written {tokens : List Token} {bytes : List UInt8}
    (hspells : SpellsTokens tokens bytes) : SpellsTokens tokens (tokens.flatMap Token.written) := by
  induction tokens generalizing bytes with
  | nil => rfl
  | cons token tokens ih =>
    obtain ⟨first, more, -, hfirst, hmore⟩ := hspells
    exact ⟨_, _, rfl, hfirst.spells_written, ih hmore⟩

/-- Tokens are written in no more bytes than any spelling has. -/
theorem SpellsTokens.length_written_le {tokens : List Token} {bytes : List UInt8}
    (hspells : SpellsTokens tokens bytes) :
    (tokens.flatMap Token.written).length ≤ bytes.length := by
  induction tokens generalizing bytes with
  | nil => exact Nat.zero_le _
  | cons token tokens ih =>
    obtain ⟨first, more, rfl, hfirst, hmore⟩ := hspells
    have hhead := hfirst.length_written_le
    have htail := ih hmore
    rw [List.flatMap_cons, List.length_append, List.length_append]
    omega

/-- The shortest spelling of tokens is the one that is written. -/
theorem ShortestTokens.eq_written {tokens : List Token} {bytes : List UInt8}
    (hshortest : ShortestTokens tokens bytes) : bytes = tokens.flatMap Token.written := by
  induction tokens generalizing bytes with
  | nil => exact hshortest
  | cons token tokens ih =>
    obtain ⟨first, more, rfl, hfirst, hmore⟩ := hshortest
    rw [List.flatMap_cons, hfirst.eq_written, ih hmore]

end IntWasm.Structured
