import IntWasm.Module.Names
import IntWasm.Proofs.Bytes.Taking
import IntWasm.Proofs.Module.Entries

/-!
# The subsections of a name section

A name section is read one subsection after another. Those of a known kind are kept in order, and
what they hold is read from their own bytes only; the others are passed over with their whole
payload, whatever it is. The kind of a subsection is told by the low byte of its number, so a number
is unknown only if its low byte is. Main statement: `NameSection.read_parts`.
-/

namespace IntWasm

open Leb128 Reader

/-! ## Names -/

/-- A naming stands as its index and its name. -/
def Naming.Spelled : Form Naming := fun n run =>
  ∃ index name, run = index ++ name ∧ U32 n.index index ∧ Text.Spelled n.name name

/-- A name whose size can be written. -/
def Naming.InFormat (n : Naming) : Prop := Text.InFormat n.name

/-- The names of locals stand as the index of their function and the list of namings. -/
def LocalNames.Spelled : Form LocalNames := fun l run =>
  ∃ function names, run = function ++ names ∧ U32 l.function function ∧
    Naming.Spelled.Counted l.names names

/-- Names of locals of which there are not too many. -/
def LocalNames.InFormat (l : LocalNames) : Prop := Few Naming.InFormat l.names

namespace NameSubsection

/-- A naming is read from its spellings. -/
theorem reads_readNaming : readNaming.Reads Naming.Spelled := by
  refine (reads_u32.bind fun index => reads_utf8.map fun name => Naming.mk index name).congr
    fun _ n run => ?_
  constructor
  · rintro ⟨index, head, tail, rfl, hhead, name, rfl, htail⟩
    exact ⟨head, tail, rfl, hhead, htail⟩
  · rintro ⟨head, tail, rfl, hhead, htail⟩
    exact ⟨n.index, head, tail, rfl, hhead, n.name, rfl, htail⟩

/-- A naming is written as a spelling of it. -/
theorem encodes_writeNaming (n : Naming) : Encodes (writeNaming n) n.Spelled n.InFormat :=
  ((Encodes.u32 n.index).andThen (Text.encodes_utf8 n.name)).congr (fun _ => Iff.rfl)
    (by simp [Naming.InFormat])

/-- Namings are read from their count and their spellings. -/
theorem reads_readNamings : readNamings.Reads Naming.Spelled.Counted :=
  Reads.counted (ReadsAt.counted reads_u32 fun n => ReadsAt.timesFrom
    (fun _ => reads_readNaming) 0 n.toNat)

/-- The names of a function's locals are read from their spellings. -/
theorem reads_readLocals : readLocals.Reads LocalNames.Spelled := by
  refine (reads_u32.bind fun function =>
    reads_readNamings.map fun names => LocalNames.mk function names).congr fun _ l run => ?_
  constructor
  · rintro ⟨function, head, tail, rfl, hhead, names, rfl, htail⟩
    exact ⟨head, tail, rfl, hhead, htail⟩
  · rintro ⟨head, tail, rfl, hhead, htail⟩
    exact ⟨l.function, head, tail, rfl, hhead, l.names, rfl, htail⟩

/-- The names of a function's locals are written as a spelling of them. -/
theorem encodes_writeLocals (l : LocalNames) : Encodes (writeLocals l) l.Spelled l.InFormat :=
  ((Encodes.u32 l.function).andThen (.vector encodes_writeNaming l.names)).congr (fun _ => Iff.rfl)
    (by simp [LocalNames.InFormat])

/-! ## Subsections -/

/-- What a subsection holds stands as a text or a list, depending on its kind. -/
def Spelled : Form NameSubsection
  | .module name, run => Text.Spelled name run
  | .functions names, run => Naming.Spelled.Counted names run
  | .locals entries, run => LocalNames.Spelled.Counted entries run

/-- Contents of which all sizes can be written. -/
def ContentsInFormat : NameSubsection → Prop
  | .module name => Text.InFormat name
  | .functions names => Few Naming.InFormat names
  | .locals entries => Few LocalNames.InFormat entries

/-- What a subsection holds is written as a spelling of it. -/
theorem encodes_writeContents (s : NameSubsection) :
    Encodes s.writeContents s.Spelled s.ContentsInFormat := by
  cases s with
  | module name => exact Text.encodes_utf8 name
  | functions names => exact .vector encodes_writeNaming names
  | locals entries => exact .vector encodes_writeLocals entries

/-- The contents of each kind are read from their form. -/
theorem reads_contents {kind : UInt8} {contents : Reader Fault NameSubsection}
    (hkind : read? kind = some contents) :
    contents.Reads fun s run => s.number = kind ∧ s.Spelled run := by
  unfold read? at hkind
  split at hkind
  · obtain rfl := Option.some.inj hkind
    refine (reads_utf8.map NameSubsection.module).congr fun _ s run => ?_
    cases s <;> simp [number, Spelled]
  · obtain rfl := Option.some.inj hkind
    refine (reads_readNamings.map NameSubsection.functions).congr fun _ s run => ?_
    cases s <;> simp [number, Spelled]
  · obtain rfl := Option.some.inj hkind
    have hentries : (do
        let count ← Reader.u32
        Reader.times count.toNat fun _ => readLocals).Reads LocalNames.Spelled.Counted :=
      Reads.counted (ReadsAt.counted reads_u32 fun n =>
        ReadsAt.timesFrom (fun _ => reads_readLocals) 0 n.toNat)
    have hmap := hentries.map NameSubsection.locals
    rw [bind_assoc] at hmap
    refine hmap.congr fun _ s run => ?_
    cases s <;> simp [number, Spelled]
  · cases hkind

/-- The numbers of the kinds are the first three. -/
theorem read?_eq_none {kind : UInt8} (hkind : 2 < kind) : read? kind = none := by
  unfold read?
  split
  · exact absurd hkind (by decide)
  · exact absurd hkind (by decide)
  · exact absurd hkind (by decide)
  · rfl

/-- Every kind of subsection that is written is one that is read. -/
theorem exists_read? (s : NameSubsection) : ∃ contents, read? s.number = some contents := by
  cases s <;> exact ⟨_, rfl⟩

end NameSubsection

/-! ## Name sections -/

namespace NameSection

open NameSubsection

/-- A subsection as it stands in a name section, with its number. -/
inductive Part where
  /-- A subsection that is kept. -/
  | known (id : UInt32) (s : NameSubsection)
  /-- A subsection that is passed over. -/
  | other (id : UInt32) (payload : List UInt8)

/-- The number of a subsection. -/
def Part.id : Part → UInt32
  | known id _ | other id _ => id

/-- The subsection, if it is kept. -/
def Part.kept? : Part → Option NameSubsection
  | known _ s => some s
  | other _ _ => none

/-- What a part has after its number and its size. The low byte of the number tells which kind the
contents have; if it tells none, they may be any bytes. -/
def Part.Holds : Form Part
  | known id s, contents => s.number = id.toUInt8 ∧ s.Spelled contents
  | other id payload, contents => 2 < id.toUInt8 ∧ contents = payload

/-- A part stands as its number and its contents behind their size. -/
def Part.Spelled : Form Part := fun part run =>
  ∃ number contents sized, run = number ++ sized ∧ U32 part.id number ∧ Form.Sized contents sized ∧
    part.Holds contents

/-- A payload that is skipped is passed over. -/
theorem takes_skip (payload : List UInt8) : (skip payload.length).Takes payload () := by
  intro c rest hrest
  have hroom : payload.length ≤ c.rest.length := by
    rw [hrest, List.length_append]
    omega
  rw [skip, if_pos hroom, c.advance_eq_past, hrest, List.take_left, List.drop_left]

/-- A subsection is read as the part that it is, or skipped. -/
theorem takes_readSubsection {part : Part} {contents run : List UInt8}
    (hrun : Form.Sized contents run) (hcontents : part.Holds contents) :
    (readSubsection part.id).Takes run part.kept? := by
  obtain ⟨size, rfl, hsize⟩ := hrun
  obtain ⟨n, hn⟩ := exists_u32 hsize
  have hnumber : (Reader.u32.lift NameFault.fault).Takes size n :=
    (reads_u32.takes (show SpellsUnsigned 32 n.toNat size from hn ▸ hsize)).lift _
  refine hnumber.bind ?_
  rw [hn]
  cases part with
  | known id s =>
    obtain ⟨hid, hspelled⟩ := hcontents
    obtain ⟨reader, hreader⟩ := exists_read? s
    have hread : reader.Takes contents s := (reads_contents hreader).takes ⟨rfl, hspelled⟩
    rw [hid] at hreader
    simp only [Part.id, hreader]
    exact (hread.lift _).within.map some
  | other id payload =>
    obtain ⟨hid, rfl⟩ := hcontents
    simp only [Part.id, read?_eq_none hid]
    exact ((takes_skip contents).lift _).map fun _ => none

/-- Parts are read one after another, up to the end of the input. -/
theorem readFrom_row {parts : List Part} {run : List UInt8} (hrow : Form.Row Part.Spelled parts run)
    {fuel : Nat} (hfuel : run.length < fuel) {c : Cursor} (hrest : c.rest = run)
    (hending : c.ending = .eof) :
    readFrom fuel c = .ok (parts.filterMap Part.kept?) (c.past run []) := by
  induction parts generalizing run fuel c with
  | nil =>
    obtain rfl : run = [] := hrow
    obtain ⟨fuel, rfl⟩ := Nat.exists_eq_add_one.mpr hfuel
    have hended : Leb128.u32 c = .error .ended c := by
      obtain ⟨rest, consumed, origin, ending⟩ := c
      subst hrest hending
      rfl
    have hpast : c.past [] [] = c := (congrArg (c.past []) hrest).symm.trans c.past_nil
    simp only [readFrom, hended, hpast, List.filterMap_nil]
  | cons part parts ih =>
    obtain ⟨head, tail, rfl, ⟨number, contents, sized, rfl, hnumber, hsized, hholds⟩, htail⟩ := hrow
    obtain ⟨fuel, rfl⟩ := Nat.exists_eq_add_one.mpr (Nat.zero_lt_of_lt hfuel)
    have hpos : 0 < number.length := hnumber.isRun.length_pos
    have hshorter : tail.length < fuel := by
      simp only [List.length_append] at hfuel
      omega
    rw [List.append_assoc] at hrest
    have hid := reads_leb128_u32.takes hnumber c _ hrest
    have hsubsection :=
      takes_readSubsection hsized hholds _ tail (c.rest_past number (sized ++ tail))
    have hmore := ih htail hshorter
      (Cursor.rest_past (c.past number (sized ++ tail)) sized tail) hending
    simp only [readFrom, hid, hsubsection, hmore]
    cases part <;> simp [Part.kept?, List.filterMap_cons]

end NameSection

/-- A subsection that can be written with its size. -/
def NameSubsection.InFormat (s : NameSubsection) : Prop :=
  s.ContentsInFormat ∧ s.writeContents.produced.length < 2 ^ 32

namespace NameSection

/-- The part that is written for a subsection. -/
def Part.ofSubsection (s : NameSubsection) : Part := known s.number.toUInt32 s

/-- A subsection is written as a spelling of its part. -/
theorem encodes_writeSubsection (s : NameSubsection) :
    Encodes s.write (Part.ofSubsection s).Spelled s.InFormat := by
  have hnumber : s.number = s.number.toUInt32.toUInt8 := by cases s <;> rfl
  have hcontents := s.encodes_writeContents.block []
  simp only [List.append_nil] at hcontents
  refine ((Encodes.u32 s.number.toUInt32).andThen hcontents).congr (fun run => ?_)
    (iff_of_eq (true_and _))
  constructor
  · rintro ⟨number, _, rfl, hid, size, contents, rfl, hsize, hspelled⟩
    exact ⟨number, contents, _, rfl, hid, ⟨size, rfl, hsize⟩, hnumber, hspelled⟩
  · rintro ⟨number, contents, _, rfl, hid, ⟨size, rfl, hsize⟩, -, hspelled⟩
    exact ⟨number, _, rfl, hid, size, contents, rfl, hsize, hspelled⟩

/-- A row of images is a row of the form composed with the map. -/
theorem row_map {α β : Type} {G : Form β} {f : α → β} {as : List α} {run : List UInt8} :
    G.Row (as.map f) run ↔ Form.Row (fun a => G (f a)) as run := by
  induction as generalizing run with
  | nil => exact Iff.rfl
  | cons a as ih => simp only [List.map_cons, Form.Row, ih]

/-- Parts are read to the end, and those that are kept are kept in order. -/
theorem read_row {parts : List Part} {run : List UInt8} (hrow : Form.Row Part.Spelled parts run) :
    NameSection.read { rest := run } =
      .ok { entries := parts.filterMap Part.kept? } { rest := [], consumed := run.length } := by
  have hread := readFrom_row hrow (Nat.lt_succ_self run.length) (c := { rest := run }) rfl rfl
  simp only [NameSection.read, hread, Cursor.past, Nat.zero_add]

/-- A name section is read from every run of parts of which the kept ones are its subsections, in
order: what the others hold does not matter. A number is known if its low byte is the number of a
kind. In particular what is written for the section is read back. -/
theorem read_parts (s : NameSection) :
    (∀ (parts : List Part) (run : List UInt8), Form.Row Part.Spelled parts run →
      parts.filterMap Part.kept? = s.entries →
      NameSection.read { rest := run } = .ok s { rest := [], consumed := run.length }) ∧
    ((∀ e ∈ s.entries, e.InFormat) →
      NameSection.read { rest := s.write.produced } =
        .ok s { rest := [], consumed := s.write.produced.length }) := by
  have hread {parts : List Part} {run : List UInt8} (hrow : Form.Row Part.Spelled parts run)
      (hkept : parts.filterMap Part.kept? = s.entries) :
      NameSection.read { rest := run } = .ok s { rest := [], consumed := run.length } := by
    rw [read_row hrow, hkept]
  refine ⟨fun _ _ => hread, fun hformat => ?_⟩
  have hrow : Form.Row Part.Spelled (s.entries.map Part.ofSubsection) s.write.produced :=
    row_map.mpr ((Encodes.row encodes_writeSubsection s.entries).stands hformat)
  refine hread hrow ?_
  rw [List.filterMap_map]
  exact List.filterMap_some

/-- A section with the name of one function. -/
def oneName : NameSection := { entries := [.functions [{ index := 7, name := "f" }]] }

/-- Names of labels are skipped, and the name of the module after them is kept. What is written for
a section with the name of a function is read back. -/
theorem read_parts_labels :
    NameSection.read { rest := [3, 2, 0xaa, 0xbb, 0, 4, 3, 0x61, 0x62, 0x63] } =
        .ok { entries := [.module "abc"] } { rest := [], consumed := 10 } ∧
      NameSection.read { rest := oneName.write.produced } =
        .ok oneName { rest := [], consumed := oneName.write.produced.length } := by
  have hspells {n : Nat} {b : UInt8} (hlast : continues b = false) (hvalue : group b = n)
      (hlt : n < 2 ^ 32) : SpellsUnsigned 32 n [b] := ⟨hlast, Nat.le_add_left 1 4, hvalue, hlt⟩
  have hlabels : Part.Spelled (.other 3 [0xaa, 0xbb]) [3, 2, 0xaa, 0xbb] :=
    ⟨[3], [0xaa, 0xbb], [2, 0xaa, 0xbb], rfl, hspells rfl rfl (by decide),
      ⟨[2], rfl, hspells rfl rfl (by decide)⟩, by decide, rfl⟩
  have hname : Text.Spelled "abc" [3, 0x61, 0x62, 0x63] := ⟨[3], rfl, hspells rfl rfl (by decide)⟩
  have hmodule : Part.Spelled (.known 0 (.module "abc")) [0, 4, 3, 0x61, 0x62, 0x63] :=
    ⟨[0], _, [4, 3, 0x61, 0x62, 0x63], rfl, hspells rfl rfl (by decide),
      ⟨[4], rfl, hspells rfl rfl (by decide)⟩, rfl, hname⟩
  constructor
  · exact (read_parts _).1 [.other 3 [0xaa, 0xbb], .known 0 (.module "abc")] _
      ⟨_, _, rfl, hlabels, _, [], rfl, hmodule, rfl⟩ rfl
  · refine (read_parts oneName).2 fun e he => ?_
    obtain rfl := List.mem_singleton.mp he
    refine ⟨⟨by decide, fun n hn => ?_⟩, by decide +kernel⟩
    obtain rfl := List.mem_singleton.mp hn
    exact show (Text.utf8 "f").length < 2 ^ 32 by decide

/-- A number that is none of the first three, but has zero as its low byte: the contents are taken
for the name of the module. -/
theorem read_takes_low_byte :
    (256 : UInt32) ≠ 0 ∧ (256 : UInt32) ≠ 1 ∧ (256 : UInt32) ≠ 2 ∧
      U32 256 [0x80, 2] ∧ Form.Sized [1, 0x61] [2, 1, 0x61] ∧
      NameSection.read { rest := [0x80, 2, 2, 1, 0x61] } =
        .ok { entries := [.module "a"] } { rest := [], consumed := 5 } := by
  have hnumber : U32 256 [0x80, 2] := ⟨⟨rfl, rfl⟩, by decide, rfl, by decide⟩
  have hsized : Form.Sized [1, 0x61] [2, 1, 0x61] := ⟨[2], rfl, rfl, by decide, rfl, by decide⟩
  have hname : Text.Spelled "a" [1, 0x61] := ⟨[1], rfl, rfl, by decide, rfl, by decide⟩
  have hpart : Part.Spelled (.known 256 (.module "a")) [0x80, 2, 2, 1, 0x61] :=
    ⟨[0x80, 2], [1, 0x61], _, rfl, hnumber, hsized, rfl, hname⟩
  exact ⟨by decide, by decide, by decide, hnumber, hsized,
    read_row (show Form.Row Part.Spelled [_] _ from ⟨_, [], rfl, hpart, rfl⟩)⟩

end NameSection

end IntWasm
