import IntWasm.Proofs.Module.Names
import IntWasm.Proofs.Module.RoundTrip
import IntWasm.Proofs.Trace.Writing

/-!
# Outputs that fill up

An output that takes `k` bytes and then fails holds the first `k` bytes of what there is to write,
and its failure is reported exactly if there was more. This follows from what writers do to every
sink, so no writer that is put together from others can lose a failure of one of its parts. Main
statement: `writers_keep_beginnings`.
-/

namespace IntWasm

namespace Writer

variable {ε α : Type}

/-- What becomes of writing to an empty output with given room: the bytes that it has taken, and the
fault that has ended writing. -/
def into (w : Writer ε Unit) (room : Option Nat) : List UInt8 × Option ε :=
  match w { room } with
  | .ok _ s => (s.kept.toList, none)
  | .error e s => (s.kept.toList, some e)

/-- Whatever room there is, the output holds the beginning for which there is room. The fault of
the output is reported exactly if that is not all, and otherwise writing ends as it does without
bounds. -/
structure KeepsBeginnings (embed : WriteFault → ε) (w : Writer ε Unit) : Prop where
  kept_eq : ∀ k, (w.into (some k)).1 = w.produced.take k
  full_iff : ∀ k, (w.into (some k)).2 = some (embed .full) ↔ k < w.produced.length
  ending_eq : ∀ k, w.produced.length ≤ k → (w.into (some k)).2 = (w.into none).2

/-- A writer puts everything that it has into an output without bounds. -/
def Finishes (w : Writer ε Unit) : Prop := (w.into none).2 = none

variable {embed : WriteFault → ε} {w : Writer ε Unit} {bs : List UInt8} {ending : Option ε}

/-- Without a bound a writer writes everything and ends as it does. -/
theorem Does.into_none (hdoes : Does embed w bs ending) : w.into none = (bs, ending) := by
  have hput : ({} : Sink).put bs = ({ kept := #[] ++ bs }, true) := Sink.put_of_unbounded rfl bs
  simp only [into, hdoes { room := none }, hput, if_true]
  cases ending <;> simp

/-- What is produced is what is written. -/
theorem Does.produced_eq (hdoes : Does embed w bs ending) : w.produced = bs := by
  have hinto : (w.into none).1 = bs := congrArg Prod.fst hdoes.into_none
  rw [← hinto, produced, into]
  cases w {} <;> rfl

/-- With a bound a writer writes as much as fits, and fails if that is not all. -/
theorem Does.into_some (hdoes : Does embed w bs ending) (k : Nat) :
    w.into (some k) = (bs.take k, if bs.length ≤ k then ending else some (embed .full)) := by
  simp only [into, hdoes { room := some k }, Sink.put]
  by_cases hfits : bs.length ≤ k
  · simp only [if_pos hfits, List.take_of_length_le hfits, if_true]
    cases ending <;> simp
  · simp [hfits]

/-- A writer that does the same to every sink keeps a beginning, as long as its own failures are not
those of the output. -/
theorem Does.keepsBeginnings (hdoes : Does embed w bs ending) (hown : ending ≠ some (embed .full)) :
    KeepsBeginnings embed w where
  kept_eq k := by rw [hdoes.into_some, hdoes.produced_eq]
  full_iff k := by
    rw [hdoes.into_some, hdoes.produced_eq]
    by_cases hfits : bs.length ≤ k
    · simpa only [if_pos hfits, hown, false_iff, Nat.not_lt] using hfits
    · simpa only [if_neg hfits, true_iff, Nat.not_le] using hfits
  ending_eq k hfits := by
    rw [hdoes.produced_eq] at hfits
    simp only [hdoes.into_some, hdoes.into_none, if_pos hfits]

/-- A writer that puts bytes keeps their beginnings and finishes. -/
theorem Puts.keepsAll (hputs : Puts embed w bs) : KeepsBeginnings embed w ∧ Finishes w :=
  ⟨hputs.keepsBeginnings nofun, congrArg Prod.snd hputs.into_none⟩

/-- Entries are put one after another, until one of them cannot be written. -/
theorem does_each {write : α → Writer ε Unit} {encode : α → List UInt8} {fault : α → Option ε}
    (hwrite : ∀ a, Does embed (write a) (encode a) (fault a)) (entries : List α) :
    ∃ bs, Does embed (each write entries) bs (entries.findSome? fault) := by
  induction entries with
  | nil => exact ⟨[], puts_pure⟩
  | cons a entries ih =>
    obtain ⟨bs, hmore⟩ := ih
    have hfirst := hwrite a
    cases hfault : fault a with
    | none =>
      rw [hfault] at hfirst
      refine ⟨encode a ++ bs, ?_⟩
      rw [List.findSome?_cons, hfault]
      exact hfirst.andThen hmore
    | some e =>
      rw [hfault] at hfirst
      refine ⟨encode a, ?_⟩
      rw [List.findSome?_cons, hfault]
      exact hfirst.stop

end Writer

/-! ## Modules, names and traces -/

/-- So does an encoder. -/
theorem Encodes.keepsAll {w : Encoder} {runs : List UInt8 → Prop} {valid : Prop}
    (hencodes : Encodes w runs valid) : w.KeepsBeginnings id ∧ w.Finishes :=
  hencodes.puts.keepsAll

/-- The payloads of the known sections are written like contents. -/
theorem Module.exists_content {m : Module} {known : SectionId} {payload : Encoder}
    (hpayload : (known, some payload) ∈ m.payloads) :
    ∃ content : Content, content.write = payload := by
  have hfield {α : Type} (make : α → Content) {write : α → Encoder} {field : Option α}
      (hmake : ∀ a, (make a).write = write a) (hsome : some payload = field.map write) :
      ∃ content : Content, content.write = payload := by
    obtain ⟨a, -, rfl⟩ := Option.map_eq_some_iff.mp hsome.symm
    exact ⟨make a, hmake a⟩
  simp only [payloads, List.mem_cons, Prod.mk.injEq, List.not_mem_nil, or_false] at hpayload
  rcases hpayload with ⟨-, h⟩ | ⟨-, h⟩ | ⟨-, h⟩ | ⟨-, h⟩ | ⟨-, h⟩ | ⟨-, h⟩ | ⟨-, h⟩ | ⟨-, h⟩ |
    ⟨-, h⟩ | ⟨-, h⟩ | ⟨-, h⟩
  · exact hfield .types (fun _ => rfl) h
  · exact hfield .imports (fun _ => rfl) h
  · exact hfield .functions (fun _ => rfl) h
  · exact hfield .tables (fun _ => rfl) h
  · exact hfield .memories (fun _ => rfl) h
  · exact hfield .globals (fun _ => rfl) h
  · exact hfield .exports (fun _ => rfl) h
  · exact hfield .start (fun _ => rfl) h
  · exact hfield .elements (fun _ => rfl) h
  · exact hfield .code (fun _ => rfl) h
  · exact hfield .data (fun _ => rfl) h

/-- So does the writer of a module. -/
theorem Module.keepsAll_write (m : Module) : m.write.KeepsBeginnings id ∧ m.write.Finishes := by
  have hsections := Writer.puts_each fun part (_ : part ∈ m.payloads) => puts_sectionOf part
  have hcustoms := Writer.puts_each fun entry (_ : entry ∈ m.customs) =>
    puts_writeSection (.custom entry)
  have hwrite : Writer.Puts id m.write _ :=
    (Writer.puts_bytes header).andThen (hsections.andThen hcustoms)
  exact hwrite.keepsAll

/-- Entries of a trace fail on their own only where an instruction is not supported. -/
theorem TraceEntry.fault_ne_full (e : TraceEntry) : e.fault ≠ some (.write .full) := by
  cases e with
  | instruction ip i height =>
    rw [fault]
    cases hbytes : i.bytesAt 0 with
    | ok bytes => simp [contents_of_bytesAt_ok hbytes]
    | error e => simp [contents_of_bytesAt_error hbytes]
  | enter | leave | trap | finish => simp [fault, contents]

/-- Entries of a trace keep their beginnings. -/
theorem TraceEntry.keepsBeginnings_each (entries : List TraceEntry) :
    (Writer.each write entries).KeepsBeginnings .write := by
  obtain ⟨bs, hdoes⟩ := Writer.does_each does_write entries
  refine hdoes.keepsBeginnings fun hfault => ?_
  obtain ⟨e, -, he⟩ := List.exists_of_findSome?_eq_some hfault
  exact e.fault_ne_full he

/-! ## Bodies -/

namespace Instruction

/-- A body that can be written as a whole: every instruction is supported, and the last one is the
end. -/
def Closed (body : List Instruction) : Prop :=
  (∀ i ∈ body, i.op? ≠ none) ∧
    ∃ (before : List Instruction) (i : Instruction), body = before ++ [i] ∧
    i.opcode = Opcode.close.byte

/-- An instruction that has bytes has an opcode. -/
theorem bytesAt_eq_ok {position : Nat} {i : Instruction} {bytes : List UInt8}
    (hok : i.bytesAt position = .ok bytes) : i.op? ≠ none := by
  intro hnone
  rw [bytesAt, hnone] at hok
  cases hok

/-- Only a body that can be written as a whole has bytes. -/
theorem closed_of_bodyBytes {position : Nat} {body : List Instruction} {bytes : List UInt8}
    (hok : bodyBytes position body = .ok bytes) : Closed body := by
  induction body generalizing position bytes with
  | nil => cases hok
  | cons i rest ih =>
    simp only [bodyBytes, except_bind_eq_ok, except_mapError_eq_ok] at hok
    obtain ⟨first, hfirst, hok⟩ := hok
    have hsupported := bytesAt_eq_ok hfirst
    by_cases hends : rest.isEmpty ∧ i.opcode = Opcode.close.byte
    · obtain rfl := List.isEmpty_iff.mp hends.1
      exact ⟨by simpa using hsupported, [], i, rfl, hends.2⟩
    · rw [if_neg hends] at hok
      simp only [except_bind_eq_ok] at hok
      obtain ⟨more, hmore, -⟩ := hok
      obtain ⟨hall, before, last, rfl, hlast⟩ := ih hmore
      exact ⟨List.forall_mem_cons.mpr ⟨hsupported, hall⟩, i :: before, last, rfl, hlast⟩

/-- A body whose first instruction has no bytes is refused. -/
theorem bodyBytes_cons_of_error {position : Nat} {i : Instruction} {e : DecodeError}
    (hfirst : i.bytesAt position = .error e) (rest : List Instruction) :
    bodyBytes position (i :: rest) = .error (.opcode e) := by
  rw [bodyBytes, hfirst]
  rfl

/-- A body's bytes are those of its instructions, without the last end. -/
theorem bodyBytes_cons_of_ok {position : Nat} {i : Instruction} {first : List UInt8}
    (hfirst : i.bytesAt position = .ok first) (rest : List Instruction) :
    bodyBytes position (i :: rest) =
      if rest.isEmpty ∧ i.opcode = Opcode.close.byte then .ok first
      else (bodyBytes (position + first.length) rest).map (first ++ ·) := by
  rw [bodyBytes, hfirst]
  by_cases hends : rest.isEmpty ∧ i.opcode = Opcode.close.byte
  · rw [if_pos hends]
    simp only [Except.mapError, bind, Except.bind, if_pos hends, pure, Except.pure]
  · rw [if_neg hends]
    simp only [Except.mapError, bind, Except.bind, if_neg hends]
    cases bodyBytes (position + first.length) rest <;> rfl

/-- The bytes of a body are found without writing. -/
theorem bodyBytes_ne_write (position : Nat) (body : List Instruction) (fault : WriteFault) :
    bodyBytes position body ≠ .error (.write fault) := by
  induction body generalizing position with
  | nil => simp [bodyBytes]
  | cons i rest ih =>
    cases hfirst : i.bytesAt position with
    | error e => simp [bodyBytes_cons_of_error hfirst]
    | ok first =>
      rw [bodyBytes_cons_of_ok hfirst]
      split
      · exact nofun
      · cases hmore : bodyBytes (position + first.length) rest with
        | ok more => exact nofun
        | error e =>
          rintro ⟨⟩
          exact ih _ hmore

/-- Nothing is written of a body that cannot be written as a whole. -/
theorem writeBody_of_not_closed {body : List Instruction} (hopen : ¬ Closed body) :
    ∃ e, (∀ fault, e ≠ .write fault) ∧ ∀ s, writeBody body s = .error e s := by
  cases hbytes : bodyBytes 0 body with
  | ok bytes => exact absurd (closed_of_bodyBytes hbytes) hopen
  | error e =>
    refine ⟨e, fun fault he => bodyBytes_ne_write 0 body fault (he ▸ hbytes), fun s => ?_⟩
    simp only [writeBody, hbytes]
    rfl

/-- A body is written in one piece, or not at all. -/
theorem keepsBeginnings_writeBody (body : List Instruction) :
    (writeBody body).KeepsBeginnings .write := by
  by_cases hclosed : ∃ bytes, bodyBytes 0 body = .ok bytes
  · obtain ⟨bytes, hbytes⟩ := hclosed
    have hwrite : Writer.Puts .write (writeBody body) bytes := by
      simp only [writeBody, hbytes]
      exact (Writer.puts_bytes bytes).lift
    exact hwrite.keepsAll.1
  · cases hbytes : bodyBytes 0 body with
    | ok bytes => exact absurd ⟨bytes, hbytes⟩ hclosed
    | error e =>
      have hwrite : Writer.Does .write (writeBody body) [] (some e) := by
        simp only [writeBody, hbytes]
        exact Writer.does_throw e
      exact hwrite.keepsBeginnings fun he =>
        bodyBytes_ne_write 0 body .full (Option.some.inj he ▸ hbytes)

end Instruction

/-- Failures of an output are reported, and leave a beginning of what was to be written. For each
writer that was run on an output which takes `k` bytes and then fails, the output holds the first
`k` bytes of what the writer writes without bounds, and its failure comes out exactly if there are
more. Modules, name sections and the payloads of all sections have no other way to fail. Of a body
that has an unsupported opcode or does not end with its end, nothing at all is written. -/
theorem writers_keep_beginnings :
    (∀ m : Module, m.write.KeepsBeginnings id ∧ m.write.Finishes) ∧
    (∀ names : NameSection, names.write.KeepsBeginnings id ∧ names.write.Finishes) ∧
    (∀ (m : Module) (known : SectionId) (payload : Encoder), (known, some payload) ∈ m.payloads →
      payload.KeepsBeginnings id ∧ payload.Finishes) ∧
    (∀ c : CustomSection, c.write.KeepsBeginnings id ∧ c.write.Finishes) ∧
    (∀ entries : List TraceEntry,
      (Writer.each TraceEntry.write entries).KeepsBeginnings EncodeFault.write) ∧
    ∀ body : List Instruction,
      (Instruction.writeBody body).KeepsBeginnings EncodeFault.write ∧
      ((∃ i ∈ body, i.op? = none) ∨ body.getLast?.map (·.opcode) ≠ some Opcode.close.byte →
        ∃ e, (∀ fault, e ≠ .write fault) ∧ ∀ s, Instruction.writeBody body s = .error e s) := by
  refine ⟨Module.keepsAll_write, fun names => ?_, fun m known payload hpayload => ?_, fun c => ?_,
    TraceEntry.keepsBeginnings_each, fun body =>
      ⟨Instruction.keepsBeginnings_writeBody body,
        fun hbody => Instruction.writeBody_of_not_closed ?_⟩⟩
  · exact (Encodes.row NameSection.encodes_writeSubsection names.entries).keepsAll
  · obtain ⟨content, rfl⟩ := Module.exists_content hpayload
    exact content.encodes_write.keepsAll
  · exact (Content.custom c).encodes_write.keepsAll
  · rintro ⟨hall, before, i, rfl, hlast⟩
    rcases hbody with ⟨i, hi, hnone⟩ | hends
    · exact hall i hi hnone
    · simp [hlast] at hends

/-- A module that says with which function to start. -/
private def starting : Module := { start := some 7 }

/-- Nine bytes hold the header of the module and the number of its section; the payload of the
section fills one byte. Nothing is written of a body with nothing but a return in it. -/
theorem writers_keep_beginnings_starting :
    starting.write.into (some 9) =
      ([0x00, 0x61, 0x73, 0x6d, 0x01, 0x00, 0x00, 0x00, 0x08], some .full) ∧
    starting.write.into (some 11) =
      ([0x00, 0x61, 0x73, 0x6d, 0x01, 0x00, 0x00, 0x00, 0x08, 0x01, 0x07], none) ∧
    (Leb128.writeU32 7).into (some 0) = ([], some .full) ∧
    ∃ e, (∀ fault, e ≠ .write fault) ∧
      ∀ s, Instruction.writeBody [{ opcode := Opcode.ret.byte }] s = .error e s := by
  have hall : starting.write.produced =
      [0x00, 0x61, 0x73, 0x6d, 0x01, 0x00, 0x00, 0x00, 0x08, 0x01, 0x07] := by decide +kernel
  obtain ⟨hmodules, -, hpayloads, -, -, hbodies⟩ := writers_keep_beginnings
  obtain ⟨hkeeps, hfinishes⟩ := hmodules starting
  obtain ⟨hpart, -⟩ := hpayloads starting .start (Leb128.writeU32 7)
    (by simp [Module.payloads, starting])
  refine ⟨Prod.ext ?_ ?_, Prod.ext ?_ ?_, Prod.ext ?_ ?_, (hbodies _).2 (.inr (by decide))⟩
  · rw [hkeeps.kept_eq, hall]
    rfl
  · exact (hkeeps.full_iff 9).mpr (by rw [hall]; decide)
  · rw [hkeeps.kept_eq, hall]
    rfl
  · rw [hkeeps.ending_eq 11 (by rw [hall]; decide)]
    exact hfinishes
  · rw [hpart.kept_eq, List.take_zero]
  · exact (hpart.full_iff 0).mpr (by decide +kernel)

end IntWasm
