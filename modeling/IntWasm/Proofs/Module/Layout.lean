import IntWasm.Proofs.Module.Contents

/-!
# Where the parts of a binary lie

A decoded module remembers where its sections and the code of its functions lie. These places
account for every byte of the binary: the sections follow each other without a gap from the header
to the end, and the bodies of the functions do so within the code section, each up to its own
declared size. Main statement: `Module.decode_accounts`.
-/

namespace IntWasm

open Leb128 Reader

/-! ## Pieces of binaries -/

/-- The bytes from one place to before another. -/
def piece (b : List UInt8) (start stop : Nat) : List UInt8 := (b.drop start).take (stop - start)

/-- What stands between two lists. -/
theorem piece_between (front middle back : List UInt8) :
    piece (front ++ (middle ++ back)) front.length (front.length + middle.length) = middle := by
  simp [piece]

/-- Sections cover a binary from a place on: each is its number, its size and a payload of that
size, and the next one begins where it stops. -/
def SectionSpan.Cover (b : List UInt8) : Nat → List SectionSpan → Prop
  | place, [] => place = b.length
  | place, s :: spans =>
    b[place]? = some s.id.number ∧ place < s.start ∧ s.start ≤ s.stop ∧ s.stop ≤ b.length ∧
      SpellsUnsigned 32 (s.stop - s.start) (piece b (place + 1) s.start) ∧
      s.payload = piece b s.start s.stop ∧ Cover b s.stop spans

/-- Bodies cover a binary from a place to another: each is its size and as many bytes, which are its
locals and then its code. -/
def FuncBody.Cover (b : List UInt8) (stop : Nat) : Nat → List FuncBody → Prop
  | place, [] => place = stop
  | place, f :: bodies =>
    ∃ start size, place < start ∧ SpellsUnsigned 32 size (piece b place start) ∧ start ≤ f.offset ∧
      LocalGroup.Spelled.Counted f.locals (piece b start f.offset) ∧
      f.offset + f.code.length = start + size ∧
      f.code = piece b f.offset (f.offset + f.code.length) ∧ Cover b stop (start + size) bodies

/-- A section's payload, read for itself, is the contents. -/
def SectionSpan.Holds (s : SectionSpan) (content : Content) : Prop :=
  content.id = s.id ∧
    Module.readSectionPayload {} s.id s.payload s.start = .ok (Module.add {} content)

namespace Module

/-- Sections that follow one another cover the bytes that they are read from. -/
theorem Sections.cover {last : SectionId} {place : Nat} {rest : List UInt8}
    {parts : List (SectionSpan × Content)} (hsections : Sections last place rest parts)
    {front : List UInt8} (hplace : front.length = place) :
    SectionSpan.Cover (front ++ rest) place (parts.map Prod.fst) := by
  induction hsections generalizing front with
  | nil => simp [SectionSpan.Cover, hplace]
  | @cons last place start size payload rest content parts hfollows hsize hstart
      hpayload hrest ih =>
    subst hplace hstart
    have hid : front ++ content.id.number :: (size ++ (payload ++ rest)) =
        (front ++ [content.id.number]) ++ (size ++ (payload ++ rest)) := by simp
    have hfront : front ++ content.id.number :: (size ++ (payload ++ rest)) =
        (front ++ content.id.number :: size) ++ (payload ++ rest) := by simp
    have hlength : (front ++ content.id.number :: size).length = front.length + 1 +
        size.length := by
      simp only [List.length_append, List.length_cons]
      omega
    refine ⟨by simp [spanAt], ?_, Nat.le_add_right _ _, ?_, ?_, ?_, ?_⟩
    · simp only [spanAt]
      omega
    · simp only [spanAt, List.length_append, List.length_cons]
      omega
    · have hpiece := piece_between (front ++ [content.id.number]) size (payload ++ rest)
      rw [← hid, List.length_append, List.length_singleton] at hpiece
      simpa [spanAt, hpiece] using hsize
    · have hpiece := piece_between (front ++ content.id.number :: size) payload rest
      rw [← hfront, hlength] at hpiece
      exact hpiece.symm
    · have hplace : (front ++ content.id.number :: (size ++ payload)).length =
          front.length + 1 + size.length + payload.length := by
        simp only [List.length_append, List.length_cons]
        omega
      simpa [spanAt] using ih hplace

/-- Each section is listed with its own number, and its payload holds its contents. -/
theorem Sections.holds {last : SectionId} {place : Nat} {rest : List UInt8}
    {parts : List (SectionSpan × Content)} (hsections : Sections last place rest parts) :
    ∀ part ∈ parts, part.1.Holds part.2 := by
  induction hsections with
  | nil => simp
  | @cons last place start size payload rest content parts hfollows hsize hstart
      hpayload hrest ih =>
    intro part hpart
    rcases List.mem_cons.mp hpart with rfl | hpart
    · exact ⟨rfl, (readPayload_eq_ok content.id_le).mpr ⟨content, rfl, hpayload, rfl⟩⟩
    · exact ih part hpart

/-- A binary has each payload where its section is listed, and it stands for its contents there. -/
theorem Sections.exists_payload {last : SectionId} {place : Nat} {rest : List UInt8}
    {parts : List (SectionSpan × Content)} (hsections : Sections last place rest parts)
    {front : List UInt8} (hplace : front.length = place) :
    ∀ part ∈ parts, ∃ before after, front ++ rest = before ++ (part.1.payload ++ after) ∧
      before.length = part.1.start ∧ part.1.stop = part.1.start + part.1.payload.length ∧
      part.2.Spelled (some part.1.start) part.1.payload := by
  induction hsections generalizing front with
  | nil => simp
  | @cons last place start size payload rest content parts hfollows hsize hstart
      hpayload hrest ih =>
    subst hplace hstart
    intro part hpart
    rcases List.mem_cons.mp hpart with rfl | hpart
    · refine ⟨front ++ content.id.number :: size, rest, by simp [spanAt], ?_, rfl, hpayload⟩
      simp only [List.length_append, List.length_cons, spanAt]
      omega
    · have hplace : (front ++ content.id.number :: (size ++ payload)).length =
          front.length + 1 + size.length + payload.length := by
        simp only [List.length_append, List.length_cons]
        omega
      obtain ⟨before, after, hsplit, hbefore⟩ := ih hplace part hpart
      exact ⟨before, after, by simpa using hsplit, hbefore⟩

/-- The sections of one sort and what they hold correspond in order. -/
theorem forall₂_filter {parts : List (SectionSpan × Content)}
    (hholds : ∀ part ∈ parts, part.1.Holds part.2) (sort : SectionId → Bool) :
    List.Forall₂ SectionSpan.Holds ((parts.map Prod.fst).filter fun s => sort s.id)
      ((parts.map Prod.snd).filter fun content => sort content.id) := by
  induction parts with
  | nil => exact .nil
  | cons part parts ih =>
    have hpart := hholds part (by simp)
    have hrest := ih fun other hother => hholds other (List.mem_cons_of_mem _ hother)
    simp only [List.map_cons, List.filter_cons, ← hpart.1]
    split
    · exact .cons hpart hrest
    · exact hrest

end Module

/-! ## Bodies -/

/-- Bodies that follow one another cover the bytes of the code section. -/
theorem FuncBody.cover_of_row {bodies : List FuncBody} {front run back : List UInt8} {place : Nat}
    (hrow : FuncBody.Spelled.Row (some place) bodies run) (hplace : front.length = place) :
    FuncBody.Cover (front ++ (run ++ back)) (place + run.length) place bodies := by
  induction bodies generalizing front run place with
  | nil =>
    obtain rfl : run = [] := hrow
    exact rfl
  | cons f bodies ih =>
    obtain ⟨_, tail, rfl, ⟨size, locals, rfl, hsize, hlocals, hoffset⟩, htail⟩ := hrow
    subst hplace
    simp only [Option.map_some, Option.getD_some] at hoffset
    have hsizePiece := piece_between front size (locals ++ (f.code ++ (tail ++ back)))
    have hlocalsPiece := piece_between (front ++ size) locals (f.code ++ (tail ++ back))
    have hcodePiece := piece_between (front ++ (size ++ locals)) f.code (tail ++ back)
    have hlength : (front ++ (size ++ (locals ++ f.code))).length =
        front.length + (size ++ (locals ++ f.code)).length := List.length_append
    have hrest := ih htail hlength
    simp only [List.append_assoc,
      List.length_append] at hsizePiece hlocalsPiece hcodePiece hrest hsize ⊢
    rw [← Nat.add_assoc, ← hoffset] at hcodePiece
    rw [← hoffset] at hlocalsPiece
    refine ⟨front.length + size.length, locals.length + f.code.length, ?_, ?_, ?_, ?_, ?_, ?_, ?_⟩
    · have := hsize.isRun.length_pos
      omega
    · rwa [hsizePiece]
    · omega
    · rwa [hlocalsPiece]
    · omega
    · exact hcodePiece.symm
    · simpa [Nat.add_assoc] using hrest

/-- Bodies lie between the places that they cover. -/
theorem FuncBody.Cover.inside {b : List UInt8} {stop place : Nat} {bodies : List FuncBody}
    (hcover : FuncBody.Cover b stop place bodies) :
    place ≤ stop ∧ ∀ f ∈ bodies, place ≤ f.offset ∧ f.offset + f.code.length ≤ stop := by
  induction bodies generalizing place with
  | nil => exact ⟨Nat.le_of_eq hcover, by simp⟩
  | cons f bodies ih =>
    obtain ⟨start, size, hstart, -, hoffset, -, hend, -, hrest⟩ := hcover
    obtain ⟨hle, hbodies⟩ := ih hrest
    refine ⟨by omega, fun g hg => ?_⟩
    rcases List.mem_cons.mp hg with rfl | hg
    · exact ⟨by omega, by omega⟩
    · obtain ⟨hfrom, hto⟩ := hbodies g hg
      exact ⟨by omega, hto⟩

namespace Module

/-! ## Modules -/

/-- A module accounts for every byte of its binary. -/
structure Accounts (b : List UInt8) (m : Module) : Prop where
  header : b.take 8 = header
  sections : SectionSpan.Cover b 8 m.spans
  numbers : ∀ s ∈ m.spans, s.id.number ≤ 11
  ascending : ((m.spans.map (·.id)).filter (· ≠ .custom)).Pairwise fun a b => a.number < b.number
  /-- The known sections that the module has are those that are listed. -/
  known : List.Forall₂ SectionSpan.Holds (m.spans.filter (·.id ≠ .custom)) m.known
  customs : List.Forall₂ SectionSpan.Holds (m.spans.filter (·.id = .custom)) (m.customs.map .custom)
  bodies : ∀ bodies, m.code = some bodies → ∃ s ∈ m.spans, s.id = .code ∧
    (∃ first, s.start < first ∧ SpellsUnsigned 32 bodies.length (piece b s.start first) ∧
      FuncBody.Cover b s.stop first bodies) ∧
    ∀ f ∈ bodies, s.start ≤ f.offset ∧ f.offset + f.code.length ≤ s.stop

/-- What is decoded accounts for every byte. -/
theorem decode_accounts {b : List UInt8} {m : Module} (hok : decode b .eof = .ok m) :
    m.Accounts b := by
  obtain ⟨rest, parts, rfl, hsections, rfl⟩ := decode_eq_ok_iff.mp hok
  have hholds := hsections.holds
  have hspans : (parts.foldl addSection {}).spans = parts.map Prod.fst := spans_foldl {} parts
  have hknown : (parts.foldl addSection {}).known = (parts.map Prod.snd).filter isKnown :=
    known_foldl hsections.ascending.1
  have hcustoms : (parts.foldl addSection {}).customs.map Content.custom = _ :=
    customs_foldl {} parts
  constructor
  · rfl
  · rw [hspans]
    exact hsections.cover rfl
  · rw [hspans]
    intro s hs
    obtain ⟨part, hpart, rfl⟩ := List.mem_map.mp hs
    rw [← (hholds part hpart).1]
    exact part.2.id_le
  · have hids : (parts.map Prod.fst).map (·.id) = (parts.map Prod.snd).map Content.id := by
      simpa using fun s content hpart => (hholds (s, content) hpart).1.symm
    rw [hspans, hids, List.filter_map]
    exact List.pairwise_map.mpr hsections.ascending.1
  · rw [hspans, hknown]
    exact forall₂_filter hholds (· ≠ .custom)
  · rw [hspans, hcustoms]
    have hsort : (fun content : Content => !isKnown content) =
        fun content => decide (content.id = .custom) := by
      funext content
      simp [isKnown]
    rw [List.map_nil, List.nil_append, hsort]
    exact forall₂_filter hholds (· = .custom)
  -- The bodies stand in the payload of the code section behind their count, so what covers the
  -- payload from there on covers the bodies one after another.
  · intro bodies hcode
    have hmem : Content.code bodies ∈ (parts.foldl addSection {}).known := by simp [known, hcode]
    rw [hknown, List.mem_filter, List.mem_map] at hmem
    obtain ⟨⟨⟨s, content⟩, hpart, rfl⟩, -⟩ := hmem
    obtain ⟨before, after, hsplit, hbefore, hstop, count, run, hpayload, hcount, hrow⟩ :=
      hsections.exists_payload rfl _ hpart
    simp only at hsplit hbefore hstop hpayload
    have hcountPiece := piece_between before count (run ++ after)
    have hfront : (before ++ count).length = s.start + count.length := by
      rw [List.length_append, hbefore]
    have hcover : FuncBody.Cover ((before ++ count) ++ (run ++ after))
        (s.start + count.length + run.length) (s.start + count.length) bodies :=
      FuncBody.cover_of_row hrow hfront
    have hall : before ++ (s.payload ++ after) = before ++ (count ++ (run ++ after)) := by
      rw [hpayload, List.append_assoc]
    have hend : s.start + count.length + run.length = s.stop := by
      rw [hstop, hpayload, List.length_append]
      omega
    have hpos := hcount.isRun.length_pos
    rw [List.append_assoc, hend] at hcover
    rw [hsplit, hall, hspans]
    rw [hbefore] at hcountPiece
    obtain ⟨-, hinside⟩ := hcover.inside
    refine ⟨s, List.mem_map.mpr ⟨_, hpart, rfl⟩, ((hholds _ hpart).1).symm,
      ⟨s.start + count.length, by omega, by rwa [hcountPiece], hcover⟩, fun f hf => ?_⟩
    obtain ⟨hfrom, hto⟩ := hinside f hf
    exact ⟨Nat.le_of_add_right_le hfrom, hto⟩

/-- A function without parameters or results, behind a custom section. -/
def namedEmpty : List UInt8 :=
  header ++ [0x01, 0x04, 0x01, 0x60, 0x00, 0x00, 0x00, 0x02, 0x01, 0x61, 0x03, 0x02, 0x01, 0x00,
    0x0a, 0x04, 0x01, 0x02, 0x00, 0x0b]

/-- A module with two custom sections among others. -/
theorem exists_decode_namedEmpty :
    ∃ m, decode namedEmpty .eof = .ok m ∧ m.spans.map (·.stop) = [14, 18, 22, 28] := by
  have hspans : (decode namedEmpty .eof).toOption.map (fun m => m.spans.map (·.stop)) =
      some [14, 18, 22, 28] := by decide +kernel
  cases hok : decode namedEmpty .eof with
  | error e => simp [hok, Except.toOption] at hspans
  | ok m => exact ⟨m, rfl, by simpa [hok, Except.toOption] using hspans⟩

/-- All of its bytes are accounted for. -/
theorem decode_accounts_namedEmpty :
    ∃ m, decode namedEmpty .eof = .ok m ∧ m.Accounts namedEmpty := by
  obtain ⟨m, hok, -⟩ := exists_decode_namedEmpty
  exact ⟨m, hok, decode_accounts hok⟩

end Module

end IntWasm
