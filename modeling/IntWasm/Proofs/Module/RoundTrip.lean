import IntWasm.Proofs.Module.Contents
import IntWasm.Proofs.Module.Entries

/-!
# Modules that are written and read again

A module has a place in the format if all its entries have, and if there are few enough of them for
their numbers and the sizes of the sections to be written. Such a module is read back from its own
binary, with nothing lost but the places, which are those of the new binary. Every module that was
ever read has a place in the format. Main statement: `Module.decode_encode`.
-/

namespace IntWasm

open Leb128

/-! ## Places -/

/-- A body without its place. -/
def FuncBody.unplaced (b : FuncBody) : FuncBody := { b with offset := 0 }

namespace Content

/-- Contents without the places of bodies. -/
def unplaced : Content → Content
  | code entries => code (entries.map FuncBody.unplaced)
  | content => content

/-- The kind of a section does not depend on places. -/
@[simp] theorem id_unplaced (content : Content) : content.unplaced.id = content.id := by
  cases content <;> rfl

/-- Sections that differ in places only are of one kind. -/
theorem id_eq_of_unplaced {content other : Content} (h : content.unplaced = other.unplaced) :
    content.id = other.id := by
  rw [← id_unplaced content, h, id_unplaced]

end Content

namespace FuncBody

/-- Bodies that stand at a place stand there as bodies do anywhere. -/
theorem stands_row {place : Option Nat} {bodies : List FuncBody} {run : List UInt8}
    (hrow : Spelled.Row place bodies run) : Stands.Row bodies run := by
  induction bodies generalizing place run with
  | nil => exact hrow
  | cons b bodies ih =>
    obtain ⟨head, tail, rfl, ⟨size, locals, rfl, hsize, hlocals, -⟩, htail⟩ := hrow
    exact ⟨_, tail, rfl, ⟨size, locals, rfl, hsize, hlocals⟩, ih htail⟩

/-- What stands for bodies anywhere stands for them at every place, once they remember it. -/
theorem exists_spelled_row {bodies : List FuncBody} {run : List UInt8}
    (hrow : Stands.Row bodies run) (place : Option Nat) :
    ∃ placed : List FuncBody, placed.map unplaced = bodies.map unplaced ∧
      Spelled.Row place placed run := by
  induction bodies generalizing place run with
  | nil => exact ⟨[], rfl, hrow⟩
  | cons b bodies ih =>
    obtain ⟨_, tail, rfl, ⟨size, locals, rfl, hsize, hlocals⟩, htail⟩ := hrow
    obtain ⟨placed, hplaced, hrow⟩ := ih htail (place.map (· + (size ++ (locals ++ b.code)).length))
    let first := { b with offset := (place.map (· + size.length)).getD 0 + locals.length }
    have hfirst : first.unplaced = b.unplaced := rfl
    refine ⟨first :: placed, ?_, _, tail, rfl, ⟨size, locals, rfl, hsize, hlocals, rfl⟩, hrow⟩
    rw [List.map_cons, List.map_cons, hfirst, hplaced]

end FuncBody

namespace Content

/-- Contents that stand at a place stand there as they do anywhere. -/
theorem stands_of_spelled {content : Content} {place : Option Nat} {run : List UInt8}
    (hrun : content.Spelled place run) : content.Stands run := by
  cases content with
  | code bodies =>
    obtain ⟨count, tail, rfl, hcount, htail⟩ := hrun
    exact ⟨count, tail, rfl, hcount, FuncBody.stands_row htail⟩
  | _ => exact hrun

/-- What stands for contents anywhere stands for them at every place, but for the places they
remember. -/
theorem exists_spelled {content : Content} {run : List UInt8} (hrun : content.Stands run)
    (place : Option Nat) :
    ∃ placed : Content, placed.unplaced = content.unplaced ∧ placed.Spelled place run := by
  cases content with
  | code bodies =>
    obtain ⟨count, tail, rfl, hcount, htail⟩ := hrun
    obtain ⟨placed, hplaced, hrow⟩ :=
      FuncBody.exists_spelled_row htail (place.map (· + count.length))
    refine ⟨.code placed, by rw [unplaced, unplaced, hplaced], count, tail, rfl, ?_, hrow⟩
    have hlength : placed.length = bodies.length := by
      rw [← List.length_map, hplaced, List.length_map]
    rwa [hlength]
  | _ => exact ⟨_, rfl, hrun⟩

end Content

namespace Module

/-- A module without the places of its sections and bodies. -/
def unplaced (m : Module) : Module :=
  { m with code := m.code.map (·.map FuncBody.unplaced), spans := [] }

/-- Adding a section adds it without its places. -/
theorem unplaced_add (m : Module) (content : Content) :
    (m.add content).unplaced = m.unplaced.add content.unplaced := by
  cases content <;> rfl

/-- So does adding it with its span. -/
theorem unplaced_addSection (m : Module) (part : SectionSpan × Content) :
    (m.addSection part).unplaced = m.unplaced.add part.2.unplaced := by
  rw [← unplaced_add]
  rfl

/-- All sections are added without their places. -/
theorem unplaced_foldl_add (m : Module) (contents : List Content) :
    (contents.foldl add m).unplaced = (contents.map Content.unplaced).foldl add m.unplaced := by
  induction contents generalizing m with
  | nil => rfl
  | cons content contents ih =>
    rw [List.foldl_cons, ih, List.map_cons, List.foldl_cons, unplaced_add]

/-- So are all of them with their spans. -/
theorem unplaced_foldl_addSection (m : Module) (parts : List (SectionSpan × Content)) :
    (parts.foldl addSection m).unplaced =
      (parts.map fun part => part.2.unplaced).foldl add m.unplaced := by
  induction parts generalizing m with
  | nil => rfl
  | cons part parts ih =>
    rw [List.foldl_cons, ih, List.map_cons, List.foldl_cons, unplaced_addSection]

/-! ## What is written -/

/-- The contents of the sections that a module has, in the order in which they are written. -/
def contents (m : Module) : List Content := m.known ++ m.customs.map .custom

/-- A module is put together from its contents. -/
theorem foldl_contents (m : Module) : m.contents.foldl add {} = { m with spans := [] } := by
  let folded {α : Type} (make : α → Content) (field : Option α) (m : Module) : Module :=
    (field.map make).toList.foldl add m
  have hknown (m : Module) :
      (∀ o, folded .types o m = { m with types := o.or m.types }) ∧
      (∀ o, folded .imports o m = { m with imports := o.or m.imports }) ∧
      (∀ o, folded .functions o m = { m with functions := o.or m.functions }) ∧
      (∀ o, folded .tables o m = { m with tables := o.or m.tables }) ∧
      (∀ o, folded .memories o m = { m with memories := o.or m.memories }) ∧
      (∀ o, folded .globals o m = { m with globals := o.or m.globals }) ∧
      (∀ o, folded .exports o m = { m with exports := o.or m.exports }) ∧
      (∀ o, folded .start o m = { m with start := o.or m.start }) ∧
      (∀ o, folded .elements o m = { m with elements := o.or m.elements }) ∧
      (∀ o, folded .code o m = { m with code := o.or m.code }) ∧
      (∀ o, folded .data o m = { m with data := o.or m.data }) := by
    refine ⟨?_, ?_, ?_, ?_, ?_, ?_, ?_, ?_, ?_, ?_, ?_⟩ <;> rintro (_ | _) <;> rfl
  have hcustoms (entries : List CustomSection) (m : Module) :
      (entries.map Content.custom).foldl add m = { m with customs := m.customs ++ entries } := by
    induction entries generalizing m with
    | nil => simp
    | cons entry entries ih => simp [ih, add]
  simp only [folded] at hknown
  simp only [contents, known, List.foldl_append, hknown, hcustoms, Option.or_none, List.nil_append]

end Module

/-- The bytes of the section with given contents. -/
def Content.sectionBytes (content : Content) : List UInt8 :=
  content.id.number :: Encoder.sizedBytes content.write.produced

namespace Module

/-- A section is written as its id, its size and its payload. -/
theorem puts_writeSection (content : Content) :
    Writer.Puts id (writeSection content.id content.write) content.sectionBytes :=
  (Writer.puts_byte _).andThen (Encoder.puts_sized _)

/-- The bytes of a section whose payload may be missing. -/
def sectionOf (part : SectionId × Option Encoder) : List UInt8 :=
  match part.2 with
  | some w => part.1.number :: Encoder.sizedBytes w.produced
  | none => []

/-- A section that the module has is written, and nothing otherwise. -/
theorem puts_sectionOf (part : SectionId × Option Encoder) :
    Writer.Puts id (match part.2 with
      | some w => writeSection part.1 w
      | none => pure ()) (sectionOf part) := by
  obtain ⟨id, _ | w⟩ := part
  · exact Writer.puts_pure
  · exact (Writer.puts_byte _).andThen (Encoder.puts_sized _)

/-- The binary of a module is the header and the sections of its contents. -/
theorem encode_eq (m : Module) : m.encode = header ++ m.contents.flatMap Content.sectionBytes := by
  have hfield {α : Type} (make : α → Content) {field : Option α} {id : SectionId} {w : α → Encoder}
      (hid : ∀ a, (make a).id = id) (hw : ∀ a, (make a).write = w a) :
      sectionOf (id, field.map w) = (field.map make).toList.flatMap Content.sectionBytes := by
    cases field with
    | none => rfl
    | some a => simp [sectionOf, Content.sectionBytes, hid a, hw a]
  have hknown : m.payloads.flatMap sectionOf = m.known.flatMap Content.sectionBytes := by
    simp only [payloads, known, List.flatMap_cons, List.flatMap_nil, List.flatMap_append,
      List.append_nil]
    rw [hfield .types, hfield .imports, hfield .functions, hfield .tables, hfield .memories,
      hfield .globals, hfield .exports, hfield .start, hfield .elements, hfield .code, hfield .data]
    all_goals
      intro _
      rfl
  have hsections := Writer.puts_each fun part (_ : part ∈ m.payloads) => puts_sectionOf part
  have hcustoms := Writer.puts_each fun entry (_ : entry ∈ m.customs) =>
    puts_writeSection (.custom entry)
  have hwrite : Writer.Puts id m.write _ :=
    (Writer.puts_bytes header).andThen (hsections.andThen hcustoms)
  unfold encode contents
  rw [hwrite.produced, hknown, List.flatMap_append, List.flatMap_map]

/-- A module has a place in the format: the contents of each of its sections do, and their size can
be written. -/
def InFormat (m : Module) : Prop :=
  ∀ content ∈ m.contents, content.InFormat ∧ content.write.produced.length < 2 ^ 32

/-! ## The order of sections -/

/-- Contents whose sections may stand in a row, behind a known section with a given number. -/
def Ordered : SectionId → List Content → Prop
  | _, [] => True
  | last, content :: contents => MayFollow content last ∧ Ordered (lastKnown content last) contents

/-- Custom sections may come in any order. -/
theorem ordered_customs (last : SectionId) (entries : List CustomSection) :
    Ordered last (entries.map Content.custom) := by
  induction entries with
  | nil => trivial
  | cons entry entries ih => exact ⟨.inl rfl, ih⟩

/-- Known sections in the order of their numbers may stand in front of custom ones. -/
theorem ordered_append {last : SectionId} {knowns : List Content} (customs : List CustomSection)
    (hascending : (last :: knowns.map Content.id).Pairwise fun a b => a.number < b.number) :
    Ordered last (knowns ++ customs.map Content.custom) := by
  induction knowns generalizing last with
  | nil => exact ordered_customs last customs
  | cons content knowns ih =>
    have hsplit := List.pairwise_cons.mp hascending
    have hless : last.number < content.id.number := hsplit.1 content.id (by simp)
    have hknown : content.id ≠ .custom := by
      rintro hcustom
      rw [hcustom] at hless
      exact UInt8.not_lt.mpr UInt8.zero_le hless
    refine ⟨.inr hless, ?_⟩
    rw [lastKnown, if_neg hknown]
    exact ih hsplit.2

/-- The sections of a module are written in order. -/
theorem ordered_contents (m : Module) : Ordered .custom m.contents := by
  have hone {α : Type} (make : α → Content) {field : Option α} {id : SectionId}
      (hid : ∀ a, (make a).id = id) : ((field.map make).toList.map Content.id).Sublist [id] := by
    cases field with
    | none => exact List.nil_sublist _
    | some a => simp [hid a]
  have hsublist : (m.known.map Content.id).Sublist [.type, .imports, .function, .table, .memory,
      .global, .exports, .start, .element, .code, .data] := by
    simp only [known, List.map_append]
    exact (hone .types fun _ => rfl).append <| (hone .imports fun _ => rfl).append <|
      (hone .functions fun _ => rfl).append <| (hone .tables fun _ => rfl).append <|
      (hone .memories fun _ => rfl).append <| (hone .globals fun _ => rfl).append <|
      (hone .exports fun _ => rfl).append <| (hone .start fun _ => rfl).append <|
      (hone .elements fun _ => rfl).append <| (hone .code fun _ => rfl).append
        (hone .data fun _ => rfl)
  refine ordered_append m.customs (List.Pairwise.sublist (hsublist.cons_cons _) ?_)
  decide

/-! ## Reading what was written -/

/-- Contents in the format, written one after another, are sections of what they are but for
places. -/
theorem exists_sections {last : SectionId} {contents : List Content}
    (hordered : Ordered last contents)
    (hformat : ∀ content ∈ contents, content.InFormat ∧ content.write.produced.length < 2 ^ 32)
    (place : Nat) :
    ∃ parts, Sections last place (contents.flatMap Content.sectionBytes) parts ∧
      (parts.map fun part => part.2.unplaced) = contents.map Content.unplaced := by
  induction contents generalizing last place with
  | nil => exact ⟨[], .nil, rfl⟩
  | cons content contents ih =>
    obtain ⟨hfollows, hordered⟩ := hordered
    obtain ⟨hvalid, hlt⟩ := hformat content (by simp)
    let payload := content.write.produced
    let size := encodeNat (payload.length % 0x100000000)
    have hsize : SpellsUnsigned 32 payload.length size := Encodes.spells_mod hlt
    obtain ⟨placed, hplaced, hspelled⟩ :=
      Content.exists_spelled (content.encodes_write.stands hvalid) (some (place + 1 + size.length))
    have hid : placed.id = content.id := Content.id_eq_of_unplaced hplaced
    obtain ⟨parts, hparts, hsame⟩ :=
      ih hordered (fun other hother => hformat other (by simp [hother]))
      (place + 1 + size.length + payload.length)
    have hlast : lastKnown placed last = lastKnown content last := by simp only [lastKnown, hid]
    have hmay : MayFollow placed last := by rwa [MayFollow, hid]
    rw [← hlast] at hparts
    have hsections := Sections.cons hmay hsize rfl hspelled hparts
    have hbytes : placed.id.number :: (size ++ (payload ++ contents.flatMap Content.sectionBytes)) =
        (content :: contents).flatMap Content.sectionBytes := by
      rw [List.flatMap_cons, Content.sectionBytes, Encoder.sizedBytes, hid, List.cons_append,
        List.append_assoc]
    rw [hbytes] at hsections
    refine ⟨_, hsections, ?_⟩
    rw [List.map_cons, List.map_cons, hsame]
    exact congrArg (· :: _) hplaced

/-- The payloads of sections are small and stand for their contents. -/
theorem Sections.exists_run {last : SectionId} {place : Nat} {rest : List UInt8}
    {parts : List (SectionSpan × Content)} (hsections : Sections last place rest parts) :
    ∀ part ∈ parts, ∃ payload : List UInt8, part.2.Stands payload ∧ payload.length < 2 ^ 32 := by
  induction hsections with
  | nil => simp
  | @cons last place start size payload rest content parts hfollows hsize hstart
      hpayload hrest ih =>
    intro part hpart
    rcases List.mem_cons.mp hpart with rfl | hpart
    · exact ⟨payload, Content.stands_of_spelled hpayload, hsize.value_lt⟩
    · exact ih part hpart

/-- Every module that was decoded has a place in the format. -/
theorem inFormat_of_decode {bytes : List UInt8} {m : Module} (hdecode : decode bytes .eof = .ok m) :
    m.InFormat := by
  obtain ⟨rest, parts, -, hsections, rfl⟩ := decode_eq_ok_iff.mp hdecode
  have hknown : (parts.foldl addSection {}).known = (parts.map Prod.snd).filter isKnown :=
    known_foldl hsections.ascending.1
  have hcustoms := customs_foldl {} parts
  intro content hcontent
  have hmem : content ∈ parts.map Prod.snd := by
    rw [contents, List.mem_append, hknown, hcustoms] at hcontent
    rcases hcontent with hmem | hmem
    · exact (List.mem_filter.mp hmem).1
    · exact (List.mem_filter.mp hmem).1
  obtain ⟨part, hpart, rfl⟩ := List.mem_map.mp hmem
  obtain ⟨payload, hstands, hlt⟩ := hsections.exists_run part hpart
  have hencodes := part.2.encodes_write
  exact ⟨hencodes.valid_of_run hstands, Nat.lt_of_le_of_lt (hencodes.least hstands) hlt⟩

/-- A module in the format is read back from its binary, and nothing is lost but its places. Every
module that is read from any bytes is in the format, so writing and reading it again loses nothing
either. -/
theorem decode_encode (m : Module) :
    (m.InFormat → ∃ m', decode m.encode .eof = .ok m' ∧ m'.unplaced = m.unplaced) ∧
      ∀ bytes, decode bytes .eof = .ok m → m.InFormat := by
  constructor
  · intro hformat
    obtain ⟨parts, hsections, hsame⟩ := exists_sections m.ordered_contents hformat header.length
    have hdecode : decode m.encode .eof = .ok (parts.foldl addSection {}) :=
      decode_eq_ok_iff.mpr ⟨_, parts, m.encode_eq, hsections, rfl⟩
    have hspans : m.unplaced = ({ m with spans := [] } : Module).unplaced := rfl
    refine ⟨_, hdecode, ?_⟩
    rw [hspans, ← foldl_contents, unplaced_foldl_add, unplaced_foldl_addSection, hsame]
  · intro bytes hdecode
    exact inFormat_of_decode hdecode

/-- A binary with a section of every kind. The number of its types takes more bytes than it has to,
and a custom section stands in front. -/
def catalogue : List UInt8 :=
  header ++
    [0x00, 0x03, 0x01, 0x63, 0x01,
      0x01, 0x06, 0x81, 0x00, 0x60, 0x00, 0x01, 0x7f,
      0x02, 0x07, 0x01, 0x01, 0x65, 0x01, 0x66, 0x00, 0x00,
      0x03, 0x02, 0x01, 0x00,
      0x04, 0x04, 0x01, 0x70, 0x00, 0x01,
      0x05, 0x04, 0x01, 0x01, 0x01, 0x02,
      0x06, 0x06, 0x01, 0x7f, 0x01, 0x41, 0x00, 0x0b,
      0x07, 0x05, 0x01, 0x01, 0x78, 0x00, 0x00,
      0x08, 0x01, 0x00,
      0x09, 0x07, 0x01, 0x00, 0x41, 0x00, 0x0b, 0x01, 0x00,
      0x0a, 0x06, 0x01, 0x04, 0x01, 0x01, 0x7f, 0x0b,
      0x0b, 0x07, 0x01, 0x00, 0x41, 0x00, 0x0b, 0x01, 0x61]

/-- A module with a section of every kind. -/
theorem decode_encode_catalogue :
    ∃ m, decode catalogue .eof = .ok m ∧ m.contents.length = 12 ∧
      ∃ m', decode m.encode .eof = .ok m' ∧ m'.unplaced = m.unplaced := by
  have haccepted : (match decode catalogue .eof with
      | .ok m => m.contents.length == 12
      | .error _ => false) = true := by decide +kernel
  cases hdecode : decode catalogue .eof with
  | error e => simp [hdecode] at haccepted
  | ok m =>
    have hcount : m.contents.length = 12 := by simpa [hdecode] using haccepted
    have hformat : m.InFormat := (decode_encode m).2 catalogue hdecode
    exact ⟨m, rfl, hcount, (decode_encode m).1 hformat⟩

end Module

end IntWasm
