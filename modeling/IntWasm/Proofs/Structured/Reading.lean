import IntWasm.Proofs.Structured.Syntax

/-!
# Reading tokens

The reader of instructions takes a token off the front of a byte string exactly if the string begins
with a spelling of that token. So what is read never depends on how numbers are padded, and nothing
but spellings is read.
-/

namespace IntWasm.Structured

open Leb128 Instruction

/-! ## Immediates -/

/-- An index is read exactly from its spellings. -/
theorem number_u32_iff {bytes rest : List UInt8} {n : UInt32} :
    number Leb128.u32 bytes = .ok (n, rest) ↔ ∃ run, bytes = run ++ rest ∧ SpellsIndex n run :=
  number_eq_ok_iff u32_eq_ok_iff

/-- A constant of 32 bits is read exactly from its spellings. -/
theorem number_s32_iff {bytes rest : List UInt8} {n : Int32} :
    number Leb128.s32 bytes = .ok (n, rest) ↔
      ∃ run, bytes = run ++ rest ∧ SpellsSigned 32 n.toInt run :=
  number_eq_ok_iff s32_eq_ok_iff

/-- A constant of 64 bits is read exactly from its spellings. -/
theorem number_s64_iff {bytes rest : List UInt8} {n : Int64} :
    number Leb128.s64 bytes = .ok (n, rest) ↔
      ∃ run, bytes = run ++ rest ∧ SpellsSigned 64 n.toInt run :=
  number_eq_ok_iff s64_eq_ok_iff

/-- A reserved byte is zero. -/
theorem reserved_iff {what feature : String} {bytes rest : List UInt8} :
    reserved what feature bytes = .ok rest ↔ bytes = 0 :: rest := by
  cases bytes with
  | nil => simp [reserved]
  | cons b bytes =>
    by_cases hb : b = 0
    · simp [reserved, hb]
    · simp [reserved, hb]

/-- The types that a block can have are the empty one and the two integer types. -/
theorem blockTypeOf_iff {b : UInt8} {code : UInt64} :
    blockTypeOf b = .ok code ↔ ∃ type, b = typeByte type ∧ code = blockCode b := by
  constructor
  · intro hok
    unfold blockTypeOf at hok
    split at hok
    · exact ⟨none, rfl, by cases hok; rfl⟩
    · exact ⟨some .i32, rfl, by cases hok; rfl⟩
    · exact ⟨some .i64, rfl, by cases hok; rfl⟩
    all_goals cases hok
  · rintro ⟨type, rfl, rfl⟩
    rcases type with _ | _ | _ <;> rfl

/-- A block type is read exactly from its byte. -/
theorem blockType_iff {bytes rest : List UInt8} {code : UInt64} :
    blockType bytes = .ok (code, rest) ↔
      ∃ type, bytes = typeByte type :: rest ∧ code = blockCode (typeByte type) := by
  cases bytes with
  | nil => simp [blockType]
  | cons b bytes =>
    constructor
    · intro hok
      simp only [blockType] at hok
      split at hok
      · cases hcode : blockTypeOf b with
        | error e =>
          rw [hcode] at hok
          cases hok
        | ok found =>
          rw [hcode] at hok
          cases hok
          obtain ⟨type, rfl, rfl⟩ := blockTypeOf_iff.mp hcode
          exact ⟨type, rfl, rfl⟩
      · cases hindex : number Leb128.s33 (b :: bytes) with
        | error e =>
          rw [hindex] at hok
          cases hok
        | ok found =>
          rw [hindex] at hok
          by_cases hsign : 0 ≤ found.1
          · simp [hsign] at hok
          · simp [hsign] at hok
    · rintro ⟨type, hbytes, rfl⟩
      cases hbytes
      rcases type with _ | _ | _ <;> rfl

/-- The labels of a table are read exactly from the spellings of their indices. -/
theorem tableLabels_iff {n : Nat} {bytes rest : List UInt8} {labels : List Int} :
    tableLabels n bytes = .ok (labels, rest) ↔
      ∃ ns : List UInt32, ns.length = n ∧ labels = ns.map (fun l => (l.toNat : Int)) ∧
        ∃ run, bytes = run ++ rest ∧ SpellsIndices ns run := by
  induction n generalizing bytes rest labels with
  | zero =>
    simp only [tableLabels, Except.ok.injEq, Prod.mk.injEq, List.length_eq_zero_iff]
    constructor
    · rintro ⟨rfl, rfl⟩
      exact ⟨[], rfl, rfl, [], rfl, rfl⟩
    · rintro ⟨_, rfl, rfl, run, rfl, rfl⟩
      exact ⟨rfl, rfl⟩
  | succ n ih =>
    simp only [tableLabels, except_bind_eq_ok, except_pure_eq_ok, Prod.exists, number_u32_iff, ih]
    constructor
    · rintro ⟨label, _, ⟨first, rfl, hfirst⟩, _, _, ⟨ns, rfl, rfl, more, rfl, hmore⟩, ⟨⟩⟩
      exact ⟨label :: ns, rfl, rfl, first ++ more, by simp, first, more, rfl, hfirst, hmore⟩
    · rintro ⟨ns, hlength, rfl, _, rfl, hspells⟩
      cases ns with
      | nil => cases hlength
      | cons label ns =>
        obtain ⟨first, more, rfl, hfirst, hmore⟩ := hspells
        refine ⟨label, more ++ rest, ⟨first, by simp, hfirst⟩, _, rest, ?_, rfl⟩
        exact ⟨ns, by simpa using hlength, rfl, more, rfl, hmore⟩

/-! ## Tokens -/

/-- The immediates of an instruction are read from any of their spellings. -/
theorem immediates_of_spells {i : Instr} {bytes : List UInt8} (hspells : i.SpellsImmediates bytes)
    (rest : List UInt8) : immediates i.op (bytes ++ rest) = .ok (i.immediate, i.labels, rest) := by
  have hindex {n : UInt32} {run rest : List UInt8} (hrun : SpellsIndex n run) :
      number Leb128.u32 (run ++ rest) = .ok (n, rest) := number_u32_iff.mpr ⟨run, rfl, hrun⟩
  cases i with
  | br n | brIf n | call n | localGet n | localSet n | localTee n | globalGet n | globalSet n =>
    simp only [Instr.op, immediates, hindex hspells]
    rfl
  | brTable labels default =>
    obtain ⟨count, more, last, rfl, hcount, hmore, hlast⟩ := hspells
    have hlt : labels.length < 4294967296 := hcount.value_lt
    have hcount' : SpellsIndex (UInt32.ofNat labels.length) count := by
      simpa [SpellsIndex, Nat.mod_eq_of_lt hlt] using hcount
    have hle := hmore.length_le
    have htable : tableLabels labels.length (more ++ (last ++ rest)) =
        .ok (labels.map (fun l => (l.toNat : Int)), last ++ rest) :=
      tableLabels_iff.mpr ⟨labels, rfl, rfl, more, rfl, hmore⟩
    -- The reader refuses a count that the remaining bytes cannot hold; each label takes one.
    have hroom : ¬ more.length + (last.length + rest.length) < labels.length := by omega
    simp only [Instr.op, immediates, List.append_assoc, except_bind_eq_ok, Prod.exists]
    refine ⟨_, _, hindex hcount', ?_⟩
    simp only [UInt32.toNat_ofNat_of_lt' hlt, List.length_append, hroom, if_false]
    simp only [htable, hindex hlast, bind, Except.bind, pure, Except.pure]
    rfl
  | callIndirect type =>
    obtain ⟨index, rfl, hindex'⟩ := hspells
    simp only [Instr.op, immediates, List.append_assoc, hindex hindex']
    rfl
  | load access align offset | store access align offset =>
    obtain ⟨first, second, rfl, hfirst, hsecond⟩ := hspells
    simp only [Instr.op, immediates, List.append_assoc, hindex hfirst]
    simp only [bind, Except.bind, hindex hsecond]
    rfl
  | memorySize | memoryGrow =>
    cases hspells
    rfl
  | const32 value =>
    simp only [Instr.op, immediates, number_s32_iff.mpr ⟨bytes, rfl, hspells⟩]
    rfl
  | const64 value =>
    simp only [Instr.op, immediates, number_s64_iff.mpr ⟨bytes, rfl, hspells⟩]
    rfl
  | _ =>
    cases hspells
    rfl

/-- An instruction is its opcode and its immediates. -/
theorem ofBytes_cons {opcode : UInt8} {op : Opcode} (hop : Opcode.ofByte? opcode = some op)
    (bytes : List UInt8) :
    ofBytes (opcode :: bytes) = (do
      let (immediate, labels, rest) ← immediates op bytes
      return ({ opcode, immediate, labels }, rest)) := by
  rw [ofBytes]
  simp only [hop]

/-- A token is read from any of its spellings, whatever follows. -/
theorem ofBytes_of_spells {token : Token} {bytes : List UInt8} (hspells : token.Spells bytes)
    (rest : List UInt8) : ofBytes (bytes ++ rest) = .ok (token.flat, rest) := by
  obtain ⟨more, rfl, hmore⟩ := hspells
  rw [List.cons_append, ofBytes_cons (Opcode.ofByte?_byte _)]
  cases token with
  | instr i =>
    simp only [Token.op, immediates_of_spells hmore]
    rfl
  | block type | loop type | ifThen type =>
    cases hmore
    have htype : blockType (typeByte type :: rest) = .ok (blockCode (typeByte type), rest) :=
      blockType_iff.mpr ⟨type, rfl, rfl⟩
    simp only [Token.op, immediates, List.cons_append, List.nil_append, htype]
    rfl
  | otherwise | close =>
    cases hmore
    rfl

/-- An index that is read is that of an instruction with no other immediates. -/
theorem exists_token_of_index (make : UInt32 → Instr) {op : Opcode} {bytes rest : List UInt8}
    {immediate : UInt64} {labels : List Int} (hop : ∀ n, (make n).op = op)
    (hflat : ∀ n, (make n).flat = { opcode := op.byte, immediate := n.toUInt64 })
    (hspells : ∀ n run, SpellsIndex n run → (make n).SpellsImmediates run)
    (hok : ∃ n more, (∃ run, bytes = run ++ more ∧ SpellsIndex n run) ∧
      (n.toUInt64, [], more) = (immediate, labels, rest)) :
    ∃ (token : Token) (more : List UInt8), token.Spells (op.byte :: more) ∧
      token.flat = { opcode := op.byte, immediate, labels } ∧ bytes = more ++ rest := by
  obtain ⟨n, _, ⟨run, rfl, hrun⟩, ⟨⟩⟩ := hok
  refine ⟨.instr (make n), run, ⟨run, ?_, hspells n run hrun⟩, hflat n, rfl⟩
  rw [Token.op, hop]

/-- Immediates that are read are those of a token of the same opcode, spelled in front of what is
left. -/
theorem exists_token_of_immediates {op : Opcode} {bytes rest : List UInt8} {immediate : UInt64}
    {labels : List Int} (hok : immediates op bytes = .ok (immediate, labels, rest)) :
    ∃ (token : Token) (more : List UInt8), token.Spells (op.byte :: more) ∧
      token.flat = { opcode := op.byte, immediate, labels } ∧ bytes = more ++ rest := by
  cases op <;> simp only [immediates, except_bind_eq_ok, except_pure_eq_ok, Prod.exists,
    blockType_iff, number_u32_iff, reserved_iff] at hok
  -- One case for each form of immediates: a block type, one index, the labels of a table, two
  -- numbers, a reserved byte, a constant, nothing.
  case block =>
    obtain ⟨_, _, ⟨type, rfl, rfl⟩, ⟨⟩⟩ := hok
    exact ⟨.block type, _, ⟨_, rfl, rfl⟩, rfl, rfl⟩
  case loop =>
    obtain ⟨_, _, ⟨type, rfl, rfl⟩, ⟨⟩⟩ := hok
    exact ⟨.loop type, _, ⟨_, rfl, rfl⟩, rfl, rfl⟩
  case ifThen =>
    obtain ⟨_, _, ⟨type, rfl, rfl⟩, ⟨⟩⟩ := hok
    exact ⟨.ifThen type, _, ⟨_, rfl, rfl⟩, rfl, rfl⟩
  case br =>
    exact exists_token_of_index .br (fun _ => rfl) (fun _ => rfl) (fun _ _ hrun => hrun) hok
  case brIf =>
    exact exists_token_of_index .brIf (fun _ => rfl) (fun _ => rfl) (fun _ _ hrun => hrun) hok
  case call =>
    exact exists_token_of_index .call (fun _ => rfl) (fun _ => rfl) (fun _ _ hrun => hrun) hok
  case localGet =>
    exact exists_token_of_index .localGet (fun _ => rfl) (fun _ => rfl) (fun _ _ hrun => hrun) hok
  case localSet =>
    exact exists_token_of_index .localSet (fun _ => rfl) (fun _ => rfl) (fun _ _ hrun => hrun) hok
  case localTee =>
    exact exists_token_of_index .localTee (fun _ => rfl) (fun _ => rfl) (fun _ _ hrun => hrun) hok
  case globalGet =>
    exact exists_token_of_index .globalGet (fun _ => rfl) (fun _ => rfl) (fun _ _ hrun => hrun) hok
  case globalSet =>
    exact exists_token_of_index .globalSet (fun _ => rfl) (fun _ => rfl) (fun _ _ hrun => hrun) hok
  case brTable =>
    obtain ⟨n, _, ⟨count, rfl, hcount⟩, hok⟩ := hok
    split at hok
    · cases hok
    · simp only [except_bind_eq_ok, except_pure_eq_ok, Prod.exists, tableLabels_iff,
        number_u32_iff] at hok
      obtain ⟨_, _, ⟨labels, hlength, rfl, more, rfl, hmore⟩, default, _, ⟨last, rfl, hlast⟩, ⟨⟩⟩ :=
        hok
      refine ⟨.instr (.brTable labels default), count ++ (more ++ last), ⟨_, rfl, ?_⟩, rfl, by simp⟩
      exact ⟨count, more, last, rfl, hlength ▸ hcount, hmore, hlast⟩
  case callIndirect =>
    obtain ⟨n, _, ⟨index, rfl, hindex⟩, _, rfl, ⟨⟩⟩ := hok
    exact ⟨.instr (.callIndirect n), index ++ [0], ⟨_, rfl, index, rfl, hindex⟩, rfl, by simp⟩
  case load access =>
    obtain ⟨align, _, ⟨first, rfl, hfirst⟩, offset, _, ⟨second, rfl, hsecond⟩, ⟨⟩⟩ := hok
    refine ⟨.instr (.load access align offset), first ++ second, ⟨_, rfl, ?_⟩, rfl, by simp⟩
    exact ⟨first, second, rfl, hfirst, hsecond⟩
  case store access =>
    obtain ⟨align, _, ⟨first, rfl, hfirst⟩, offset, _, ⟨second, rfl, hsecond⟩, ⟨⟩⟩ := hok
    refine ⟨.instr (.store access align offset), first ++ second, ⟨_, rfl, ?_⟩, rfl, by simp⟩
    exact ⟨first, second, rfl, hfirst, hsecond⟩
  case memorySize =>
    obtain ⟨_, rfl, ⟨⟩⟩ := hok
    exact ⟨.instr .memorySize, [0], ⟨[0], rfl, rfl⟩, rfl, rfl⟩
  case memoryGrow =>
    obtain ⟨_, rfl, ⟨⟩⟩ := hok
    exact ⟨.instr .memoryGrow, [0], ⟨[0], rfl, rfl⟩, rfl, rfl⟩
  case const type =>
    cases type with
    | i32 =>
      simp only [except_bind_eq_ok, except_pure_eq_ok, Prod.exists, number_s32_iff] at hok
      obtain ⟨value, _, ⟨run, rfl, hrun⟩, ⟨⟩⟩ := hok
      exact ⟨.instr (.const32 value), run, ⟨run, rfl, hrun⟩, rfl, rfl⟩
    | i64 =>
      simp only [except_bind_eq_ok, except_pure_eq_ok, Prod.exists, number_s64_iff] at hok
      obtain ⟨value, _, ⟨run, rfl, hrun⟩, ⟨⟩⟩ := hok
      exact ⟨.instr (.const64 value), run, ⟨run, rfl, hrun⟩, rfl, rfl⟩
  case otherwise =>
    cases hok
    exact ⟨.otherwise, [], ⟨[], rfl, rfl⟩, rfl, rfl⟩
  case close =>
    cases hok
    exact ⟨.close, [], ⟨[], rfl, rfl⟩, rfl, rfl⟩
  case unreachable =>
    cases hok
    exact ⟨.instr .unreachable, [], ⟨[], rfl, rfl⟩, rfl, rfl⟩
  case nop =>
    cases hok
    exact ⟨.instr .nop, [], ⟨[], rfl, rfl⟩, rfl, rfl⟩
  case ret =>
    cases hok
    exact ⟨.instr .ret, [], ⟨[], rfl, rfl⟩, rfl, rfl⟩
  case drop =>
    cases hok
    exact ⟨.instr .drop, [], ⟨[], rfl, rfl⟩, rfl, rfl⟩
  case select =>
    cases hok
    exact ⟨.instr .select, [], ⟨[], rfl, rfl⟩, rfl, rfl⟩
  case eqz type =>
    cases hok
    exact ⟨.instr (.eqz type), [], ⟨[], rfl, rfl⟩, rfl, rfl⟩
  case compare type relation =>
    cases hok
    exact ⟨.instr (.compare type relation), [], ⟨[], rfl, rfl⟩, rfl, rfl⟩
  case count type what =>
    cases hok
    exact ⟨.instr (.count type what), [], ⟨[], rfl, rfl⟩, rfl, rfl⟩
  case arith type operation =>
    cases hok
    exact ⟨.instr (.arith type operation), [], ⟨[], rfl, rfl⟩, rfl, rfl⟩
  case wrap =>
    cases hok
    exact ⟨.instr .wrap, [], ⟨[], rfl, rfl⟩, rfl, rfl⟩
  case extend sign =>
    cases hok
    exact ⟨.instr (.extend sign), [], ⟨[], rfl, rfl⟩, rfl, rfl⟩
  case extendPart type part =>
    cases hok
    exact ⟨.instr (.extendPart type part), [], ⟨[], rfl, rfl⟩, rfl, rfl⟩
  case extendWord =>
    cases hok
    exact ⟨.instr .extendWord, [], ⟨[], rfl, rfl⟩, rfl, rfl⟩

/-- What is read from the front of a byte string is a token that the string spells there. -/
theorem exists_token_of_ofBytes {bytes rest : List UInt8} {i : Instruction}
    (hok : ofBytes bytes = .ok (i, rest)) :
    ∃ (token : Token) (first : List UInt8), token.Spells first ∧ token.flat = i ∧
      bytes = first ++ rest := by
  cases bytes with
  | nil => cases hok
  | cons opcode bytes =>
    cases hop : Opcode.ofByte? opcode with
    | none =>
      rw [ofBytes] at hok
      simp only [hop] at hok
      cases hok
    | some op =>
      rw [ofBytes_cons hop] at hok
      simp only [except_bind_eq_ok, except_pure_eq_ok, Prod.exists] at hok
      obtain ⟨immediate, labels, _, himmediates, ⟨⟩⟩ := hok
      obtain ⟨token, more, hspells, hflat, rfl⟩ := exists_token_of_immediates himmediates
      obtain rfl := Opcode.ofByte?_eq_some_iff.mp hop
      exact ⟨token, op.byte :: more, hspells, hflat, rfl⟩

/-- The opcode of a token is found again in the instruction that is read for it. -/
theorem Token.op?_flat (token : Token) : token.flat.op? = some token.op := by
  cases token <;> exact Opcode.ofByte?_byte _

end IntWasm.Structured
