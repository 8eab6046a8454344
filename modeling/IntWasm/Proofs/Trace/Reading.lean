import IntWasm.Proofs.Instruction.Legible
import IntWasm.Proofs.Module.Entries
import IntWasm.Proofs.Trace.Writing

/-!
# Traces that are read back

An entry that the engine writes is read back as far as its bytes tell it, if its text is not too
long. So the bytes of many entries are read back as as many entries, and a trace that stops right
after an end entry is accepted as a whole. A text that is too long is refused, and the trace is not
read any further. Main statements: `TraceEntry.decode_eq` and `TraceEntry.decode_long`.
-/

namespace IntWasm.TraceEntry

open Leb128 (encodeU32 encodeNat)
open Reader

/-! ## Single entries -/

/-- The text of an entry. -/
def text : TraceEntry → List UInt8
  | enter moduleName _ _ => moduleName
  | trap text _ => text
  | leave | instruction .. | finish => []

/-- An entry whose text is not too long to be read back. -/
def Brief (e : TraceEntry) : Prop := e.text.length ≤ maxText

/-- An entry whose type and instruction can be read back. -/
def Legible : TraceEntry → Prop
  | enter _ _ type => type.InFormat
  | instruction _ i _ => i.Legible
  | leave | trap .. | finish => True

/-- An entry that is read back: its type and its instruction are written in full, and its text is
not too long. -/
def Readable : TraceEntry → Prop
  | enter moduleName _ type => moduleName.length ≤ maxText ∧ type.InFormat
  | instruction _ i _ => i.Writable
  | trap text _ => text.length ≤ maxText
  | leave | finish => True

/-- What is left of an entry after it was written and read back. -/
def reread : TraceEntry → TraceEntry
  | enter moduleName function type => enter moduleName function type
  | leave => leave
  | instruction ip i height =>
    instruction (UInt32.ofInt ip).toNat i.reread (UInt32.ofInt height).toNat
  | trap text ip => trap text (UInt32.ofInt ip).toNat
  | finish => finish

/-- Reading an entry again keeps its mark. -/
@[simp] theorem mark_reread (e : TraceEntry) : e.reread.mark = e.mark := by
  cases e <;> rfl

/-- A legible entry whose text is brief is readable. -/
theorem Legible.readable {e : TraceEntry} (hlegible : e.Legible) (hbrief : e.Brief) :
    e.Readable := by
  cases e with
  | enter => exact ⟨hbrief, hlegible⟩
  | instruction => exact Instruction.Legible.writable hlegible
  | trap => exact hbrief
  | leave | finish => exact trivial

/-- Only an instruction can keep an entry from being written. -/
theorem fault_eq_none {e : TraceEntry}
    (hwritable : ∀ {ip i height}, e = instruction ip i height → i.Writable) : e.fault = none := by
  cases e with
  | instruction ip i height =>
    obtain ⟨bytes, hbytes, -⟩ := (hwritable rfl).takes_read
    rw [fault, contents_of_bytesAt_ok hbytes]
  | enter | leave | trap | finish => rfl

/-- A legible entry is written without a fault. -/
theorem Legible.fault_eq {e : TraceEntry} (hlegible : e.Legible) : e.fault = none := by
  refine fault_eq_none fun he => ?_
  subst he
  exact Instruction.Legible.writable hlegible

/-- So is a readable one. -/
theorem Readable.fault_eq {e : TraceEntry} (hreadable : e.Readable) : e.fault = none := by
  refine fault_eq_none fun he => ?_
  subst he
  exact hreadable

/-- Bytes of a fixed length are read as a whole. -/
theorem reads_readFull (n : Nat) : (readFull n).Reads fun bs run => bs = run ∧ run.length = n := by
  intro c bs c'
  unfold readFull
  by_cases henough : n ≤ c.rest.length
  · rw [if_pos henough, c.advance_eq_past]
    constructor
    · intro hok
      obtain ⟨rfl, rfl⟩ := EStateM.Result.ok.inj hok
      exact ⟨_, _, (List.take_append_drop n c.rest).symm,
        ⟨rfl, List.length_take_of_le henough⟩, rfl⟩
    · rintro ⟨run, rest, hrest, ⟨rfl, rfl⟩, rfl⟩
      rw [hrest, List.take_left, List.drop_left]
  · rw [if_neg henough]
    constructor
    · intro hok
      split at hok <;> cases hok
    · rintro ⟨run, rest, hrest, ⟨rfl, rfl⟩, -⟩
      rw [hrest, List.length_append] at henough
      omega

/-- A text of fewer bytes than numbers can count stands behind its size. -/
theorem takes_size {text : List UInt8} (hlt : text.length < 2 ^ 32) :
    Reader.u32.Takes (encodeNat (text.length % 0x100000000)) (UInt32.ofNat text.length) := by
  have hsize : (UInt32.ofNat text.length).toNat = text.length := UInt32.toNat_ofNat_of_lt' hlt
  have hmod : text.length % 0x100000000 = text.length := Nat.mod_eq_of_lt hlt
  have htakes := (takes_u32 (UInt32.ofNat text.length)).lift fun e => Fault.read e
  rw [encodeU32, hsize] at htakes
  rwa [hmod]

/-- A brief text is read back. -/
theorem takes_readText {text : List UInt8} (hbrief : text.length ≤ maxText) :
    readText.Takes (Encoder.sizedBytes text) text := by
  have hlt : text.length < 2 ^ 32 := Nat.lt_of_le_of_lt hbrief (by decide)
  have hsize : (UInt32.ofNat text.length).toNat = text.length := UInt32.toNat_ofNat_of_lt' hlt
  refine (takes_size hlt).bind ?_
  rw [if_neg (by rw [hsize]; exact Nat.not_lt.mpr hbrief), hsize]
  exact ((reads_readFull text.length).takes ⟨rfl, rfl⟩).lift _

/-- A number is read back modulo 2 to the 32. -/
theorem takes_readNumber (i : Int) :
    Reader.u32.Takes (numberBytes i) (UInt32.ofInt i) := (takes_u32 _).lift _

/-- A function type is read back. -/
theorem takes_readType {type : FuncType} (hformat : type.InFormat) :
    FuncType.read.Takes type.bytes type := by
  have hencodes := type.encodes_write
  have hproduced : type.write.produced = type.bytes := type.puts_write.produced
  have hspelled := hencodes.stands hformat
  rw [hproduced] at hspelled
  exact FuncType.reads_read.takes hspelled

/-- What is written after the mark of an entry is read back. -/
theorem Readable.takes_readAfter {e : TraceEntry} (hreadable : e.Readable) :
    (readAfter e.mark).Takes e.contents.1 e.reread := by
  cases e with
  | enter moduleName function type =>
    obtain ⟨hbrief, hformat⟩ := hreadable
    have htype : (FuncType.read >>= fun type => pure (enter moduleName function type)).Takes
        type.bytes (enter moduleName function type) := (takes_readType hformat).map _
    exact (takes_readText hbrief).bind (((takes_u32 function).lift _).bind htype)
  | leave => exact takes_pure leave
  | finish => exact takes_pure finish
  | instruction ip i height =>
    obtain ⟨bytes, hbytes, hread⟩ := Instruction.Writable.takes_read hreadable
    have hheight := (takes_readNumber height).map fun n =>
      instruction (UInt32.ofInt ip).toNat i.reread n.toNat
    rw [contents_of_bytesAt_ok hbytes]
    exact (takes_readNumber ip).bind (hread.bind hheight)
  | trap text ip =>
    have hip := (takes_readNumber ip).map fun n => trap text n.toNat
    exact (takes_readText hreadable).bind hip

/-- A readable entry is read back from its bytes. -/
theorem Readable.readNext_bytes {e : TraceEntry} (hreadable : e.Readable) (last : Option TraceEntry)
    {c : Cursor} {rest : List UInt8} (hrest : c.rest = e.bytes ++ rest) :
    readNext last c = .ok (.entry e.reread) (c.past e.bytes rest) := by
  have hbyte := takes_byte e.mark c (e.contents.1 ++ rest) hrest
  have hcontents :=
    hreadable.takes_readAfter (c.past [e.mark] (e.contents.1 ++ rest)) rest (c.rest_past _ _)
  rw [readNext, hbyte]
  simp only [hcontents, Cursor.past_past]
  rfl

/-- An end is the only entry of its kind. -/
theorem mark_eq_finish {e : TraceEntry} : e.mark = finish.mark ↔ e = finish := by
  cases e <;> simp [mark]

/-! ## Many entries -/

/-- The bytes of entries one after another. -/
def allBytes (es : List TraceEntry) : List UInt8 := es.flatMap bytes

/-- Entries are written one after the other. -/
theorem allBytes_append (es more : List TraceEntry) :
    allBytes (es ++ more) = allBytes es ++ allBytes more :=
  List.flatMap_append

/-- Every entry has bytes. -/
theorem length_le_allBytes (es : List TraceEntry) : es.length ≤ (allBytes es).length := by
  induction es with
  | nil => exact Nat.zero_le _
  | cons e es ih =>
    have hcons : allBytes (e :: es) = e.bytes ++ allBytes es := rfl
    have hpos : 0 < e.bytes.length := Nat.zero_lt_succ _
    rw [hcons, List.length_append, List.length_cons]
    omega

/-- Only the closing entry is read as one. -/
theorem reread_eq_finish {e : TraceEntry} : e.reread = finish ↔ e = finish := by
  rw [← mark_eq_finish, mark_reread, mark_eq_finish]

/-- The last of the entries that were read is an end if the last that was written is. -/
theorem getLast?_map_reread (es : List TraceEntry) :
    (es.map reread).getLast? = some finish ↔ es.getLast? = some finish := by
  simp only [List.getLast?_map, Option.map_eq_some_iff, reread_eq_finish, exists_eq_right]

/-- Entries in front of a trace are read one after another, and then what follows them. -/
theorem readAll_append {es : List TraceEntry} (hreadable : ∀ e ∈ es, e.Readable)
    (fuel : Nat) (last : Option TraceEntry) {c : Cursor} {rest : List UInt8}
    (hrest : c.rest = allBytes es ++ rest) :
    readAll (es.length + fuel) last c =
      Prod.map (es.map reread ++ ·) id
        (readAll fuel ((es.map reread).getLast?.or last) (c.past (allBytes es) rest)) := by
  induction es generalizing last c with
  | nil =>
    obtain rfl : c.rest = rest := hrest
    rw [List.length_nil, Nat.zero_add]
    rfl
  | cons e es ih =>
    have hcons : allBytes (e :: es) = e.bytes ++ allBytes es := rfl
    rw [hcons, List.append_assoc] at hrest
    have hnext := (hreadable e List.mem_cons_self).readNext_bytes last hrest
    have hread := ih (fun e he => hreadable e (List.mem_cons_of_mem _ he)) (some e.reread)
      (c.rest_past e.bytes (allBytes es ++ rest))
    have hlast : ((e :: es).map reread).getLast?.or last =
        (es.map reread).getLast?.or (some e.reread) := by
      rw [List.map_cons, List.getLast?_cons]
      cases (es.map reread).getLast? <;> rfl
    rw [List.length_cons, Nat.add_right_comm, readAll, hnext, hlast, hcons]
    simp only [hread, Cursor.past_past, Prod.map, List.map_cons, List.cons_append, id]

/-- At the end of the input a trace stops. -/
theorem readAll_end {fuel : Nat} {last : Option TraceEntry} {c : Cursor} (hrest : c.rest = []) :
    readAll (fuel + 1) last c =
      ([], if last = some finish then none else some (.read c.ending.fault), c) := by
  have hbyte : Reader.byte c = .error c.ending.fault c := by
    simp only [Reader.byte, hrest]
  rw [readAll, readNext, hbyte]
  by_cases hlast : last = some finish
  · simp only [hlast, if_true]
  · simp only [hlast, if_false]

/-- A trace of a few entries and a rest is read by reading the rest after them. -/
theorem decode_append {es : List TraceEntry} (hreadable : ∀ e ∈ es, e.Readable)
    (rest : List UInt8) :
    ∃ fuel, decode { rest := allBytes es ++ rest } =
      match readAll (fuel + rest.length + 1) (es.map reread).getLast?
          (({ rest := allBytes es ++ rest } : Cursor).past (allBytes es) rest) with
      | (entries, none, _) => .ok (es.map reread ++ entries)
      | (_, some e, _) => .error e := by
  obtain ⟨fuel, hfuel⟩ := Nat.exists_eq_add_of_le (length_le_allBytes es)
  have hlength : (allBytes es ++ rest).length + 1 = es.length + (fuel + rest.length + 1) := by
    rw [List.length_append]
    omega
  refine ⟨fuel, ?_⟩
  have hread := readAll_append hreadable (fuel + rest.length + 1) none
    (c := { rest := allBytes es ++ rest }) rfl
  rw [decode, scan, hlength, hread, Option.or_none]
  generalize readAll (fuel + rest.length + 1) (es.map reread).getLast? _ = result
  obtain ⟨entries, _ | e, c⟩ := result <;> rfl

/-- The bytes of entries are read back as as many entries of the same kinds. They are accepted as a
trace if and only if the last of them is an end. -/
theorem decode_eq {es : List TraceEntry} (hreadable : ∀ e ∈ es, e.Readable) :
    decode { rest := allBytes es } =
      if es.getLast? = some finish then .ok (es.map reread) else .error (.read .ended) := by
  obtain ⟨fuel, hdecode⟩ := decode_append hreadable []
  rw [List.append_nil] at hdecode
  rw [hdecode, readAll_end rfl]
  simp only [getLast?_map_reread]
  by_cases hends : es.getLast? = some finish
  · simp only [hends, if_true, List.append_nil]
  · simp only [hends, if_false]
    rfl

/-! ## Texts that are too long -/

/-- A text that is too long is refused. -/
theorem readText_long {text rest : List UInt8} (hlong : maxText < text.length)
    (hlt : text.length < 2 ^ 32) {c : Cursor} (hrest : c.rest = Encoder.sizedBytes text ++ rest) :
    ∃ e c', readText c = .error e c' := by
  have hsize : (UInt32.ofNat text.length).toNat = text.length := UInt32.toNat_ofNat_of_lt' hlt
  rw [Encoder.sizedBytes, List.append_assoc] at hrest
  have hfirst := takes_size hlt c (text ++ rest) hrest
  rw [readText, estate_bind_of_ok hfirst, hsize, if_pos hlong]
  exact ⟨_, _, rfl⟩

/-- An entry whose text is too long is refused. -/
theorem readNext_long {e : TraceEntry} (hlong : ¬ e.Brief) (hlt : e.text.length < 2 ^ 32)
    (last : Option TraceEntry) {c : Cursor} {rest : List UInt8} (hrest : c.rest = e.bytes ++ rest) :
    ∃ fault c', readNext last c = .error fault c' := by
  have hbyte := takes_byte e.mark c (e.contents.1 ++ rest) hrest
  have hmore : (c.past [e.mark] (e.contents.1 ++ rest)).rest = e.contents.1 ++ rest :=
    c.rest_past _ _
  rw [Brief, Nat.not_le] at hlong
  have hafter : ∃ fault c', readAfter e.mark (c.past [e.mark] (e.contents.1 ++ rest)) =
      .error fault c' := by
    generalize c.past [e.mark] (e.contents.1 ++ rest) = t at hmore
    cases e with
    | enter | trap =>
      rw [contents, List.append_assoc] at hmore
      obtain ⟨fault, c', htext⟩ := readText_long hlong hlt hmore
      exact ⟨fault, c', estate_bind_of_error htext⟩
    | leave | instruction | finish => exact absurd hlong (Nat.not_lt.mpr (Nat.zero_le _))
  obtain ⟨fault, c', hafter⟩ := hafter
  refine ⟨fault, c', ?_⟩
  rw [readNext, hbyte]
  simp only [hafter]

/-- A trace with a text that is too long is refused, whatever follows the text. -/
theorem decode_long {es : List TraceEntry} (hreadable : ∀ e ∈ es, e.Readable)
    {e : TraceEntry} (hlong : ¬ e.Brief) (hlt : e.text.length < 2 ^ 32) (rest : List UInt8) :
    ∃ fault, decode { rest := allBytes es ++ (e.bytes ++ rest) } = .error fault := by
  obtain ⟨fuel, hdecode⟩ := decode_append hreadable (e.bytes ++ rest)
  obtain ⟨fault, c', hnext⟩ := readNext_long hlong hlt (es.map reread).getLast?
    (Cursor.rest_past { rest := allBytes es ++ (e.bytes ++ rest) } (allBytes es) (e.bytes ++ rest))
  rw [hdecode, readAll, hnext]
  exact ⟨fault, rfl⟩

end IntWasm.TraceEntry
