import IntWasm.Proofs.Trace.Reading

/-!
# Traces that are read back exactly

A regular entry loses nothing when it is written, except what its instruction does not tell: bits of
the immediate that its opcode does not use, and labels that are not those of a branch table. So a
trace of regular entries that ends with an end is read back exactly. If its bytes are cut off, they
are still a trace just in case they are cut right after an end: entries have no frame around them,
but none of them is the beginning of another one. Main statement: `TraceEntry.decode_regular`.
-/

namespace IntWasm

open Reader

/-- A number of 32 bits. -/
def IsWord (n : Int) : Prop := 0 ≤ n ∧ n < 2 ^ 32

/-- A number that is a word is written as it is. -/
theorem IsWord.toNat_ofInt {n : Int} (hn : IsWord n) : ((UInt32.ofInt n).toNat : Int) = n := by
  have hlt : n.toNat < 2 ^ 32 := (Int.toNat_lt hn.1).mpr hn.2
  rw [UInt32.ofInt, Int.emod_eq_of_lt hn.1 hn.2, UInt32.toNat_ofNat_of_lt' hlt,
    Int.toNat_of_nonneg hn.1]

namespace Instruction

/-- An instruction that is written without loss. -/
structure Regular (i : Instruction) : Prop extends i.Writable where
  words : i.op? = some .brTable → ∀ l ∈ i.labels, IsWord l

/-- An instruction without what its opcode does not encode. -/
def normal (i : Instruction) : Instruction :=
  match i.op? with
  | none => i
  | some op =>
    { i with immediate := i.writtenImmediate op, labels := if op = .brTable then i.labels else [] }

/-- A regular instruction is read again as its normal form. -/
theorem Regular.reread_eq {i : Instruction} (hregular : i.Regular) : i.reread = i.normal := by
  rw [reread, normal]
  cases hop : i.op? with
  | none => rfl
  | some op =>
    have hlabels : i.writtenLabels op = if op = .brTable then i.labels else [] := by
      by_cases htable : op = .brTable
      · obtain rfl := htable
        have hsame : ∀ l ∈ i.labels, ((UInt32.ofInt l).toNat : Int) = id l := fun l hl =>
          (hregular.words hop l hl).toNat_ofInt
        rw [if_pos rfl, writtenLabels, List.map_congr_left hsame, List.map_id]
      · rw [if_neg htable, writtenLabels]
        exact htable
    simp only [hlabels]

end Instruction

namespace TraceEntry

/-- An entry that is written without loss. -/
def Regular : TraceEntry → Prop
  | enter moduleName _ type => moduleName.length ≤ maxText ∧ type.InFormat
  | instruction ip i height => IsWord ip ∧ i.Regular ∧ IsWord height
  | trap text ip => text.length ≤ maxText ∧ IsWord ip
  | leave | finish => True

/-- An entry without what the opcode of its instruction does not encode. -/
def normal : TraceEntry → TraceEntry
  | instruction ip i height => instruction ip i.normal height
  | enter moduleName function type => enter moduleName function type
  | trap text ip => trap text ip
  | leave => leave
  | finish => finish

/-- A regular entry is readable. -/
theorem Regular.readable {e : TraceEntry} (hregular : e.Regular) : e.Readable := by
  cases e with
  | enter => exact hregular
  | instruction => exact hregular.2.1.toWritable
  | trap => exact hregular.1
  | leave | finish => exact trivial

/-- A regular entry is read again as its normal form. -/
theorem Regular.reread_eq {e : TraceEntry} (hregular : e.Regular) : e.reread = e.normal := by
  cases e with
  | instruction ip i height =>
    obtain ⟨hip, hi, hheight⟩ := hregular
    rw [reread, normal, hip.toNat_ofInt, hi.reread_eq, hheight.toNat_ofInt]
  | trap text ip => rw [reread, normal, hregular.2.toNat_ofInt]
  | enter | leave | finish => rfl

/-- Readable entries are written one after another. -/
theorem puts_each_write {es : List TraceEntry} (hreadable : ∀ e ∈ es, e.Readable) :
    Writer.Puts EncodeFault.write (Writer.each write es) (allBytes es) := by
  refine Writer.puts_each fun e he => ?_
  have hputs := e.does_write
  rwa [(hreadable e he).fault_eq] at hputs

/-! ## Traces that are cut off -/

/-- Texts have a form. -/
theorem formed_readText : readText.Formed := by
  refine Formed.bind ⟨_, reads_u32⟩ fun n => ?_
  by_cases hlong : maxText < n.toNat
  · rw [if_pos hlong]
    exact (formed_throw _).bind fun _ => Formed.lift ⟨_, reads_readFull _⟩ _
  · rw [if_neg hlong]
    exact Formed.lift ⟨_, reads_readFull _⟩ _

/-- What follows a mark has a form. -/
theorem formed_readAfter (e : TraceEntry) : (readAfter e.mark).Formed := by
  have hnumber : Reader.u32.Formed := ⟨_, reads_u32⟩
  cases e with
  | enter =>
    exact formed_readText.bind fun _ => hnumber.bind fun _ =>
      Formed.bind ⟨_, FuncType.reads_read⟩ fun _ => formed_pure _
  | leave | finish => exact formed_pure _
  | instruction =>
    exact hnumber.bind fun _ => Instruction.agrees_read.formed.bind fun _ =>
      hnumber.bind fun _ => formed_pure _
  | trap => exact formed_readText.bind fun _ => hnumber.bind fun _ => formed_pure _

/-- An entry that is cut off inside is not read. -/
theorem Readable.readNext_cut {e : TraceEntry} (hreadable : e.Readable) (last : Option TraceEntry)
    {j : Nat} (hpos : 0 < j) (hlt : j < e.bytes.length) {c : Cursor}
    (hrest : c.rest = e.bytes.take j) : ∃ fault c', readNext last c = .error fault c' := by
  obtain ⟨n, rfl⟩ := Nat.exists_eq_add_one.mpr hpos
  have hbyte := takes_byte e.mark c (e.contents.1.take n) hrest
  obtain ⟨fault, c', hafter⟩ := hreadable.takes_readAfter.cut (formed_readAfter e)
    (Nat.lt_of_succ_lt_succ hlt) (c.rest_past [e.mark] (e.contents.1.take n))
  refine ⟨fault, c', ?_⟩
  rw [readNext, hbyte]
  simp only [hafter]

/-- A place in the bytes of entries is inside of one entry, or right before it. -/
theorem exists_entry_around {es : List TraceEntry} {k : Nat} (hlt : k < (allBytes es).length) :
    ∃ before e after j, es = before ++ e :: after ∧ j < e.bytes.length ∧
    k = (allBytes before).length + j := by
  induction es generalizing k with
  | nil => cases hlt
  | cons e es ih =>
    have hcons : allBytes (e :: es) = e.bytes ++ allBytes es := rfl
    by_cases hinside : k < e.bytes.length
    · exact ⟨[], e, es, k, rfl, hinside, (Nat.zero_add k).symm⟩
    · rw [hcons, List.length_append] at hlt
      obtain ⟨before, e', after, j, rfl, hj, hk⟩ := @ih (k - e.bytes.length) (by omega)
      have hcons' : allBytes (e :: before) = e.bytes ++ allBytes before := rfl
      refine ⟨e :: before, e', after, j, rfl, hj, ?_⟩
      rw [hcons', List.length_append]
      omega

/-- Entries and the beginning of another one are a trace only if none of its bytes is there and the
last of the entries is an end. -/
theorem decode_cut {es : List TraceEntry} (hreadable : ∀ e ∈ es, e.Readable) {e : TraceEntry}
    (he : e.Readable) {j : Nat} (hlt : j < e.bytes.length) {read : List TraceEntry}
    (hok : decode { rest := allBytes es ++ e.bytes.take j } = .ok read) :
    j = 0 ∧ es.getLast? = some finish ∧ read = es.map reread := by
  rcases Nat.eq_zero_or_pos j with rfl | hpos
  · rw [List.take_zero, List.append_nil, decode_eq hreadable] at hok
    split at hok
    · rename_i hends
      exact ⟨rfl, hends, (Except.ok.inj hok).symm⟩
    · cases hok
  · obtain ⟨fuel, hdecode⟩ := decode_append hreadable (e.bytes.take j)
    obtain ⟨fault, c', hnext⟩ := he.readNext_cut (es.map reread).getLast? hpos hlt
      (Cursor.rest_past { rest := allBytes es ++ e.bytes.take j } (allBytes es) (e.bytes.take j))
    rw [hdecode, readAll, hnext] at hok
    cases hok

/-- Regular entries are written in full, one after another. What was written is accepted as a trace
just in case the last entry is an end, and then it gives the entries back, except for what the
opcodes of instructions do not encode. A beginning of it that is shorter is accepted just in case it
ends right after an end, and gives the entries up to there. -/
theorem decode_regular {es : List TraceEntry} (hregular : ∀ e ∈ es, e.Regular) :
    Writer.Puts EncodeFault.write (Writer.each write es) (allBytes es) ∧
      decode { rest := allBytes es } =
        (if es.getLast? = some finish then .ok (es.map normal) else .error (.read .ended)) ∧
      ∀ k < (allBytes es).length, ∀ read, decode { rest := (allBytes es).take k } = .ok read ↔
        ∃ before after, es = before ++ finish :: after ∧
          k = (allBytes (before ++ [finish])).length ∧
          read = (before ++ [finish]).map normal := by
  have hreadable : ∀ e ∈ es, e.Readable := fun e he => (hregular e he).readable
  have hnormal {fs : List TraceEntry} (hsub : ∀ e ∈ fs, e ∈ es) : fs.map reread = fs.map normal :=
    List.map_congr_left fun e he => (hregular e (hsub e he)).reread_eq
  refine ⟨puts_each_write hreadable, ?_, fun k hlt read => ⟨fun hok => ?_, ?_⟩⟩
  · rw [decode_eq hreadable, hnormal fun e he => he]
  · obtain ⟨before, e, after, j, rfl, hj, rfl⟩ := exists_entry_around hlt
    have htake : (allBytes (before ++ e :: after)).take ((allBytes before).length + j) =
        allBytes before ++ e.bytes.take j := by
      have hcons : allBytes (e :: after) = e.bytes ++ allBytes after := rfl
      rw [allBytes_append, List.take_length_add_append, hcons,
        List.take_append_of_le_length (by omega)]
    rw [htake] at hok
    obtain ⟨rfl, hends, rfl⟩ := decode_cut (fun e he => hreadable e (List.mem_append_left _ he))
      (hreadable e (List.mem_append_right _ List.mem_cons_self)) hj hok
    obtain ⟨before, rfl⟩ := List.getLast?_eq_some_iff.mp hends
    exact ⟨before, e :: after, List.append_assoc .., rfl,
      hnormal fun e he => List.mem_append_left _ he⟩
  · rintro ⟨before, after, rfl, rfl, rfl⟩
    have hsplit : before ++ finish :: after = (before ++ [finish]) ++ after := List.append_cons ..
    have hsub : ∀ e ∈ before ++ [finish], e ∈ before ++ finish :: after := by
      rw [hsplit]
      exact fun e he => List.mem_append_left _ he
    rw [hsplit, allBytes_append _ after, List.take_left,
      decode_eq fun e he => hreadable e (hsub e he), if_pos List.getLast?_concat, hnormal hsub]

/-- A block with a stack height and a label, which are not written. -/
def enteredBlock : Instruction :=
  { opcode := Opcode.block.byte, immediate := 0x80000005_0000007f, labels := [7] }

/-- Two invocations, the second of which ends with a trap. -/
def twoRuns : List TraceEntry :=
  [enter [0x6d] 3 { params := [.i32], results := [.i64] }, instruction 0 enteredBlock 0,
    instruction 1 (.branchTable 0 [2, 1]) 1, leave, finish, trap [0x78] 2, finish]

/-- The entries of two calls, one of which traps. -/
theorem decode_regular_twoRuns :
    (∀ e ∈ twoRuns, e.Regular) ∧ twoRuns.getLast? = some finish ∧
      decode { rest := allBytes twoRuns } = .ok (twoRuns.map normal) ∧
      twoRuns.map normal = [enter [0x6d] 3 { params := [.i32], results := [.i64] },
        instruction 0 (.opening .block Instruction.blockI32) 0,
        instruction 1 (.branchTable 0 [2, 1]) 1, leave, finish, trap [0x78] 2, finish] ∧
      decode { rest := (allBytes twoRuns).take (allBytes (twoRuns.take 5)).length } =
        .ok ((twoRuns.take 5).map normal) := by
  have hblockOp : enteredBlock.op? = some .block := by
    rw [Instruction.op?, enteredBlock, Opcode.ofByte?_byte]
  have htableOp : (Instruction.branchTable 0 [2, 1]).op? = some .brTable := Opcode.ofByte?_byte _
  have hblock : enteredBlock.Regular := by
    refine ⟨⟨by rw [hblockOp]; rfl, fun _ => ⟨by decide, some .i32, rfl⟩, ?_⟩, ?_⟩ <;>
      exact fun hop => absurd (hblockOp.symm.trans hop) (by decide)
  have htable : (Instruction.branchTable 0 [2, 1]).Regular :=
    ⟨⟨by rw [htableOp]; rfl, nofun, fun _ => by decide⟩, fun _ => by
      simp [Instruction.branchTable, IsWord]⟩
  have hregular : ∀ e ∈ twoRuns, e.Regular := by
    have hint {t : ValueType} (ht : t.IsInt) : Few ValueType.IsInt [t] :=
      ⟨Nat.one_lt_two_pow (by decide), by simpa using ht⟩
    have hformat : FuncType.InFormat { params := [.i32], results := [.i64] } :=
      ⟨⟨hint ⟨.i32, rfl⟩, hint ⟨.i64, rfl⟩⟩, by decide⟩
    have hword {n : Nat} (hn : n < 3) : IsWord n := ⟨by omega, by omega⟩
    simp only [twoRuns, List.forall_mem_cons]
    exact ⟨⟨by decide, hformat⟩, ⟨hword (by decide), hblock, hword (by decide)⟩,
      ⟨hword (by decide), htable, hword (by decide)⟩, trivial, trivial,
      ⟨by decide, hword (by decide)⟩, trivial, nofun⟩
  obtain ⟨-, hdecode, hcut⟩ := decode_regular hregular
  have hlt : (allBytes (twoRuns.take 5)).length < (allBytes twoRuns).length := by
    have hsplit : allBytes twoRuns = allBytes (twoRuns.take 5) ++ allBytes (twoRuns.drop 5) := by
      rw [← allBytes_append, List.take_append_drop]
    have hrest : 2 ≤ (allBytes (twoRuns.drop 5)).length := length_le_allBytes (twoRuns.drop 5)
    rw [hsplit, List.length_append]
    omega
  refine ⟨hregular, rfl, hdecode, ?_, ?_⟩
  · simp only [twoRuns, List.map_cons, List.map_nil, normal, Instruction.normal, hblockOp, htableOp]
    rfl
  · have hends : twoRuns.take 5 = twoRuns.take 4 ++ [finish] := rfl
    exact (hcut _ hlt _).mpr ⟨twoRuns.take 4, twoRuns.drop 5, rfl, by rw [hends], by rw [hends]⟩

end TraceEntry

end IntWasm
