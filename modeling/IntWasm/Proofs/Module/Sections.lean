import IntWasm.Module.Write
import IntWasm.Proofs.Module.Format

/-!
# The format of modules

A binary is the header and a row of sections, and a section is its number, its size and what stands
for its contents. Decoding accepts exactly these binaries, and the module that it gives is made of
the contents of the sections one after another. Main statement: `Module.decode_eq_ok_iff`.
-/

namespace IntWasm

open Leb128 Reader

/-! ## Contents -/

/-- The contents of a section. -/
inductive Content where
  | types (entries : List FuncType)
  | imports (entries : List Import)
  | functions (entries : List UInt32)
  | tables (entries : List TableType)
  | memories (entries : List Limits)
  | globals (entries : List GlobalDef)
  | exports (entries : List Export)
  | start (index : UInt32)
  | elements (entries : List ElementSegment)
  | code (entries : List FuncBody)
  | data (entries : List DataSegment)
  | custom (entry : CustomSection)

namespace Content

/-- The number of the section that has given contents. -/
def id : Content → SectionId
  | types _ => .type
  | imports _ => .imports
  | functions _ => .function
  | tables _ => .table
  | memories _ => .memory
  | globals _ => .global
  | exports _ => .exports
  | start _ => .start
  | elements _ => .element
  | code _ => .code
  | data _ => .data
  | custom _ => .custom

/-- The ids of sections are at most 11. -/
theorem id_le (content : Content) : content.id.number ≤ 11 := by
  cases content <;> exact of_decide_eq_true rfl

/-- Contents do not have another number than their own. -/
theorem id_ne {content : Content} {id : SectionId} (hid : content.id = id)
    (hother : (content.id.number.toNat == id.number.toNat) = false) : False := by
  rw [hid, beq_self_eq_true] at hother
  cases hother

/-- What stands for contents. -/
def Spelled : PlacedForm Content
  | _, types entries, run => FuncType.Spelled.Counted entries run
  | _, imports entries, run => Import.Spelled.Counted entries run
  | _, functions entries, run => U32.Counted entries run
  | _, tables entries, run => TableType.Spelled.Counted entries run
  | _, memories entries, run => Limits.Spelled.Counted entries run
  | _, globals entries, run => GlobalDef.Spelled.Counted entries run
  | _, exports entries, run => Export.Spelled.Counted entries run
  | _, start index, run => U32 index run
  | _, elements entries, run => ElementSegment.Spelled.Counted entries run
  | place, code entries, run => FuncBody.Spelled.Counted place entries run
  | _, data entries, run => DataSegment.Spelled.Counted entries run
  | _, custom entry, run => ∃ name, run = name ++ entry.bytes ∧ Text.Spelled entry.name name

end Content

namespace Module

/-- A module with the contents of one more section. -/
def add (m : Module) : Content → Module
  | .types entries => { m with types := some entries }
  | .imports entries => { m with imports := some entries }
  | .functions entries => { m with functions := some entries }
  | .tables entries => { m with tables := some entries }
  | .memories entries => { m with memories := some entries }
  | .globals entries => { m with globals := some entries }
  | .exports entries => { m with exports := some entries }
  | .start index => { m with start := some index }
  | .elements entries => { m with elements := some entries }
  | .code entries => { m with code := some entries }
  | .data entries => { m with data := some entries }
  | .custom entry => { m with customs := m.customs ++ [entry] }

/-- What a section holds does not change where sections are. -/
@[simp] theorem spans_add (m : Module) (content : Content) : (m.add content).spans = m.spans := by
  cases content <;> rfl

/-- A module with one more section: where it lies and what it holds. -/
def addSection (m : Module) (part : SectionSpan × Content) : Module :=
  { m.add part.2 with spans := m.spans ++ [part.1] }

/-! ## Payloads -/

/-- A payload is read exactly to its end. -/
theorem readSectionPayload_eq_ok {m m' : Module} {id : SectionId} {payload : List UInt8}
    {start : Nat} :
    readSectionPayload m id payload start = .ok m' ↔
      ∃ c, readPayload m id { rest := payload, origin := some start } = .ok m' c ∧ c.rest = [] := by
  unfold readSectionPayload
  cases hread : readPayload m id { rest := payload, origin := some start } with
  | error e c => simp
  | ok read c =>
    by_cases hrest : c.rest = []
    · simp [hrest]
    · simp [hrest, List.isEmpty_iff]

/-- A payload of one list, or one number, is read whole. -/
theorem read_whole {α : Type} {r : Reader Fault α} {G : PlacedForm α} (hr : r.ReadsAt G)
    (content : α → Content) {m m' : Module} {payload : List UInt8} {start : Nat} :
    (∃ c, (r >>= fun a => pure (m.add (content a))) { rest := payload, origin := some start } =
      .ok m' c ∧ c.rest = []) ↔ ∃ a, G (some start) a payload ∧ m' = m.add (content a) := by
  have hmap := (hr.map fun a => m.add (content a)) { rest := payload, origin := some start } m'
  constructor
  · rintro ⟨c, hok, hnil⟩
    obtain ⟨run, rest, hrest, ⟨a, rfl, hrun⟩, rfl⟩ := (hmap c).mp hok
    obtain rfl : rest = [] := hnil
    obtain rfl : payload = run ++ [] := hrest
    exact ⟨a, by simpa using hrun, rfl⟩
  · rintro ⟨a, hrun, rfl⟩
    exact ⟨_, (hmap _).mpr ⟨payload, [], by simp, ⟨a, rfl, by simpa using hrun⟩, rfl⟩, rfl⟩

/-- A text and everything behind it are a custom section. -/
theorem custom_eq_ok {payload : List UInt8} {start : Nat} {entry : CustomSection} :
    (∃ c, CustomSection.read { rest := payload, origin := some start } = .ok entry c ∧
      c.rest = []) ↔
      ∃ name, payload = name ++ entry.bytes ∧ Text.Spelled entry.name name := by
  have hname := (reads_utf8.located fun c fault =>
    Fault.decode (fault.labelled "custom section name" c.offset?))
      { rest := payload, origin := some start }
  constructor
  · rintro ⟨c, hok, -⟩
    obtain ⟨name, t, hfirst, hok⟩ := estate_bind_eq_ok.mp hok
    obtain ⟨run, rest, hrest, hrun, rfl⟩ := (hname name t).mp hfirst
    obtain ⟨bytes, t, hsecond, hok⟩ := estate_bind_eq_ok.mp hok
    obtain ⟨rfl, rfl⟩ := estate_pure_eq_ok.mp hok
    obtain ⟨rfl, -⟩ := EStateM.Result.ok.inj hsecond
    exact ⟨run, hrest, hrun⟩
  · rintro ⟨name, rfl, hrun⟩
    refine ⟨_, estate_bind_eq_ok.mpr ⟨entry.name, _,
      (hname _ _).mpr ⟨name, entry.bytes, rfl, hrun, rfl⟩,
      estate_bind_eq_ok.mpr ⟨entry.bytes, _, rfl, rfl⟩⟩, ?_⟩
    simp [Cursor.advance, Cursor.past]

/-- A reader of the contents of one kind of section adds what stands in the payload. -/
theorem read_content {α : Type} {r : Reader Fault α} {G : PlacedForm α} (hr : r.ReadsAt G)
    (make : α → Content) {m m' : Module} {id : SectionId} {payload : List UInt8} {start : Nat}
    (hid : ∀ a, (make a).id = id)
    (honly : ∀ content, Content.id content = id → ∃ a, content = make a)
    (hforms : ∀ a, (make a).Spelled (some start) payload ↔ G (some start) a payload) :
    (∃ c, (r >>= fun a => pure (m.add (make a)))
      { rest := payload, origin := some start } = .ok m' c ∧
      c.rest = []) ↔
      ∃ content : Content, content.id = id ∧ content.Spelled (some start) payload ∧
        m' = m.add content := by
  rw [read_whole hr make]
  constructor
  · rintro ⟨a, ha, rfl⟩
    exact ⟨make a, hid a, (hforms a).mpr ha, rfl⟩
  · rintro ⟨content, hcontent, hrun, rfl⟩
    obtain ⟨a, rfl⟩ := honly content hcontent
    exact ⟨a, (hforms a).mp hrun, rfl⟩

/-- The numbers up to eleven that no other section has are those of custom ones. -/
theorem eq_custom_of_le {id : SectionId} (hid : id.number ≤ 11) (htype : id ≠ .type)
    (himports : id ≠ .imports) (hfunction : id ≠ .function) (htable : id ≠ .table)
    (hmemory : id ≠ .memory) (hglobal : id ≠ .global) (hexports : id ≠ .exports)
    (hstart : id ≠ .start) (helement : id ≠ .element) (hcode : id ≠ .code) (hdata : id ≠ .data) :
    id = .custom := by
  obtain ⟨⟨⟨n, hn⟩⟩⟩ := id
  have hle : n ≤ 11 := hid
  interval_cases n <;> first | rfl | exact absurd rfl ‹_›

/-- A payload is accepted if and only if it stands for contents of its section, which are then
added. -/
theorem readPayload_eq_ok {m m' : Module} {id : SectionId} {payload : List UInt8} {start : Nat}
    (hid : id.number ≤ 11) :
    readSectionPayload m id payload start = .ok m' ↔
      ∃ content : Content, content.id = id ∧ content.Spelled (some start) payload ∧
        m' = m.add content := by
  -- The reader tries the identifiers one after another. Each case keeps that the earlier ones did
  -- not match, which leaves only custom sections at the end.
  have hcase {condition : Prop} [Decidable condition] {r r' : Reader Fault Module} {Q : Prop}
      (hthen : condition → ((∃ c, r { rest := payload, origin := some start } = .ok m' c ∧
        c.rest = []) ↔ Q))
      (helse : ¬ condition → ((∃ c, r' { rest := payload, origin := some start } = .ok m' c ∧
        c.rest = []) ↔ Q)) :
      (∃ c, (if condition then r else r') { rest := payload, origin := some start } = .ok m' c ∧
        c.rest = []) ↔ Q := by
    split
    · exact hthen ‹_›
    · exact helse ‹_›
  rw [readSectionPayload_eq_ok]
  unfold readPayload
  refine hcase (fun h => ?types) fun htype => hcase (fun h => ?imports) fun himports =>
    hcase (fun h => ?functions) fun hfunction => hcase (fun h => ?tables) fun htable =>
    hcase (fun h => ?memories) fun hmemory => hcase (fun h => ?globals) fun hglobal =>
    hcase (fun h => ?exports) fun hexports => hcase (fun h => ?start) fun hstart =>
    hcase (fun h => ?elements) fun helement => hcase (fun h => ?code) fun hcode =>
    hcase (fun h => ?data) fun hdata => ?custom
  case custom =>
    obtain rfl := eq_custom_of_le hid htype himports hfunction htable hmemory hglobal hexports
      hstart helement hcode hdata
    constructor
    · rintro ⟨c, hok, hnil⟩
      obtain ⟨entry, t, hread, hok⟩ := estate_bind_eq_ok.mp hok
      obtain ⟨rfl, rfl⟩ := estate_pure_eq_ok.mp hok
      exact ⟨.custom entry, rfl, custom_eq_ok.mp ⟨t, hread, hnil⟩, rfl⟩
    · rintro ⟨content, hcontent, hrun, rfl⟩
      obtain ⟨entry, rfl⟩ : ∃ entry, content = .custom entry := by
        rcases content with _ | _ | _ | _ | _ | _ | _ | _ | _ | _ | _ | entry <;>
          first | exact ⟨_, rfl⟩ | exact (Content.id_ne hcontent rfl).elim
      obtain ⟨c, hread, hnil⟩ := custom_eq_ok.mpr hrun
      exact ⟨c, estate_bind_eq_ok.mpr ⟨entry, c, hread, rfl⟩, hnil⟩
  all_goals subst h
  case' types =>
    refine read_content (Reads.vector FuncType.reads_read) .types (fun _ => rfl) ?_ fun _ => Iff.rfl
  case' imports =>
    refine read_content (Reads.vector Import.reads_read) .imports (fun _ => rfl) ?_ fun _ => Iff.rfl
  case' functions =>
    refine read_content (Reads.vector reads_u32) .functions (fun _ => rfl) ?_ fun _ => Iff.rfl
  case' tables =>
    refine read_content (Reads.vector TableType.reads_read) .tables (fun _ => rfl) ?_
      fun _ => Iff.rfl
  case' memories =>
    refine read_content (Reads.vector Limits.reads_read) .memories (fun _ => rfl) ?_
      fun _ => Iff.rfl
  case' globals =>
    refine read_content (Reads.vector GlobalDef.reads_read) .globals (fun _ => rfl) ?_
      fun _ => Iff.rfl
  case' exports =>
    refine read_content (Reads.vector Export.reads_read) .exports (fun _ => rfl) ?_ fun _ => Iff.rfl
  case' start => refine read_content reads_u32 .start (fun _ => rfl) ?_ fun _ => Iff.rfl
  case' elements =>
    refine read_content (Reads.vector ElementSegment.reads_read) .elements (fun _ => rfl) ?_
      fun _ => Iff.rfl
  case' code =>
    refine read_content (ReadsAt.vector FuncBody.reads_read) .code (fun _ => rfl) ?_
      fun _ => Iff.rfl
  case' data =>
    refine read_content (Reads.vector DataSegment.reads_read) .data (fun _ => rfl) ?_
      fun _ => Iff.rfl
  all_goals
    rintro (_ | _) hid
    all_goals first | exact ⟨_, rfl⟩ | exact (Content.id_ne hid rfl).elim

/-! ## Sections -/

/-- Where a section lies whose payload begins at a place. -/
def spanAt (content : Content) (start : Nat) (payload : List UInt8) : SectionSpan :=
  { id := content.id, start, stop := start + payload.length, payload }

/-- The payload of a section is taken if it spells contents of the section's kind. -/
theorem reads_sectionPayload (m : Module) {id : SectionId} (hid : id.number ≤ 11)
    (start size : Nat) (payload : List UInt8) :
    (match readSectionPayload m id payload start with
      | .error e => throw e
      | .ok m => return { m with spans := m.spans ++
          [{ id, start, stop := start + size, payload }] } :
        Reader DecodeError Module).Reads fun m' run => run = [] ∧ ∃ content : Content,
      content.id = id ∧ content.Spelled (some start) payload ∧
        m' = { m.add content with spans := m.spans ++
          [{ id, start, stop := start + size, payload }] } := by
  have hread {read : Module} : readSectionPayload m id payload start = .ok read ↔
      ∃ content : Content, content.id = id ∧ content.Spelled (some start) payload ∧
        read = m.add content := readPayload_eq_ok hid
  cases hresult : readSectionPayload m id payload start with
  | error e =>
    simp only [hresult] at hread
    refine ReadsAt.of_never (reads_throw e) ?_
    rintro _ m' run ⟨-, content, hcontent, hrun, -⟩
    cases hread.mpr ⟨content, hcontent, hrun, rfl⟩
  | ok read =>
    simp only [hresult, Except.ok.injEq] at hread
    refine (reads_pure _).congr fun _ m' run => ?_
    constructor
    · rintro ⟨rfl, rfl⟩
      obtain ⟨content, hcontent, hrun, hadd⟩ := hread.mp rfl
      exact ⟨rfl, content, hcontent, hrun, by rw [hadd, spans_add]⟩
    · rintro ⟨rfl, content, hcontent, hrun, rfl⟩
      rw [hread.mpr ⟨content, hcontent, hrun, rfl⟩, spans_add]
      exact ⟨rfl, rfl⟩

/-- What follows a section's number is its size and its payload. -/
theorem reads_readSection (m : Module) {id : SectionId} (hid : id.number ≤ 11) :
    (readSection m id).ReadsAt fun place m' run => ∃ size payload content, run = size ++ payload ∧
      SpellsUnsigned 32 payload.length size ∧ content.id = id ∧
      content.Spelled (some ((place.map (· + size.length)).getD 0)) payload ∧
      m' = m.addSection
        (spanAt content ((place.map (· + size.length)).getD 0) payload, content) := by
  have hbody (size : UInt32) :=
    ReadsAt.afterPlace (H := fun place _ m' run => run.length = size.toNat ∧ ∃ content : Content,
      content.id = id ∧ content.Spelled (some (place.getD 0)) run ∧
        m' = m.addSection (spanAt content (place.getD 0) run, content)) fun t =>
      (((reads_bytes size.toNat).located fun c e =>
          ({ offset := c.offset?, kind := .truncated, detail := id.text ++ " section"
             cause := some (.read e) } : DecodeError)).bind
        (reads_sectionPayload m hid (t.offset?.getD 0) size.toNat ·)).congr fun _ m' run => by
          constructor
          · rintro ⟨payload, head, tail, rfl, ⟨rfl, hsize⟩, rfl, content, rfl, hrun, rfl⟩
            rw [List.append_nil, ← hsize]
            exact ⟨rfl, content, rfl, hrun, rfl⟩
          · rintro ⟨hsize, content, rfl, hrun, rfl⟩
            rw [← hsize]
            exact ⟨run, run, [], by simp, ⟨rfl, rfl⟩, rfl, content, rfl, hrun, rfl⟩
  refine ((reads_leb128_u32.located _).bind hbody).congr fun place m' run => ?_
  constructor
  · rintro ⟨n, size, payload, rfl, hsize, hlength, content, hcontent, hrun, rfl⟩
    exact ⟨size, payload, content, rfl, hlength ▸ hsize, hcontent, hrun, rfl⟩
  · rintro ⟨size, payload, content, rfl, hsize, hcontent, hrun, rfl⟩
    obtain ⟨n, hn⟩ := exists_u32 hsize
    exact ⟨n, size, payload, rfl, show SpellsUnsigned 32 n.toNat size from hn ▸ hsize, hn.symm,
      content, hcontent, hrun, rfl⟩

/-- A section may follow a known one with a given number. -/
def MayFollow (content : Content) (last : SectionId) : Prop :=
  content.id = .custom ∨ last.number < content.id.number

/-- The number of the last known section after a section. -/
def lastKnown (content : Content) (last : SectionId) : SectionId :=
  if content.id = .custom then last else content.id

/-- What stands for sections, one after another, from a place on, behind a known section with a
given number. -/
inductive Sections : SectionId → Nat → List UInt8 → List (SectionSpan × Content) → Prop
  | nil {last : SectionId} {place : Nat} : Sections last place [] []
  | cons {last : SectionId} {place start : Nat} {size payload rest : List UInt8} {content : Content}
      {parts : List (SectionSpan × Content)} (hfollows : MayFollow content last)
      (hsize : SpellsUnsigned 32 payload.length size) (hstart : start = place + 1 + size.length)
      (hpayload : content.Spelled (some start) payload)
      (hrest : Sections (lastKnown content last) (start + payload.length) rest parts) :
      Sections last place (content.id.number :: (size ++ (payload ++ rest)))
        ((spanAt content start payload, content) :: parts)

/-- A section may come if its id is known and, unless it is a custom one, larger than those before.
-/
theorem checkSection_eq_ok {id last : SectionId} {offset : Option Nat} :
    checkSection id last offset = .ok () ↔
      id.number ≤ 11 ∧ (id = .custom ∨ last.number < id.number) := by
  unfold checkSection
  by_cases hcount : id = .dataCount
  · subst hcount
    exact ⟨nofun, fun h => absurd h.1 (by decide)⟩
  · rw [if_neg hcount]
    by_cases htag : id = .tag
    · subst htag
      exact ⟨nofun, fun h => absurd h.1 (by decide)⟩
    · rw [if_neg htag]
      by_cases hlarge : SectionId.data.number < id.number
      · rw [if_pos hlarge]
        exact ⟨nofun, fun h => absurd h.1 (UInt8.not_le.mpr hlarge)⟩
      · rw [if_neg hlarge]
        split
        · exact ⟨fun _ => ⟨UInt8.not_lt.mp hlarge, ‹_›⟩, fun _ => rfl⟩
        · exact ⟨nofun, fun h => absurd h.2 ‹_›⟩

/-- No bytes are no sections. -/
theorem Sections.of_nil {last : SectionId} {place : Nat} {parts : List (SectionSpan × Content)}
    (hsections : Sections last place [] parts) : parts = [] := by
  cases hsections
  rfl

/-- The sections that are read are those that stand for the input. -/
theorem readSections_eq_ok {fuel : Nat} {last : SectionId} {m m' : Module} {c c' : Cursor}
    {place : Nat} (hplace : c.offset? = some place) (hending : c.ending = .eof)
    (hfuel : c.rest.length < fuel) :
    readSections fuel last m c = .ok m' c' ↔
      ∃ parts, Sections last place c.rest parts ∧ m' = parts.foldl addSection m ∧
        c' = c.past c.rest [] := by
  induction fuel generalizing last m c place with
  | zero => omega
  -- Every section takes at least its identifier, so the fuel outlasts the bytes.
  | succ fuel ih =>
    unfold readSections
    cases hrest : c.rest with
    | nil =>
      have hbyte : byte c = .error .ended c := by simp [byte, hrest, hending, Ending.fault]
      have hpast : c.past [] [] = c := by simpa [hrest] using c.past_nil
      simp only [hbyte, EStateM.Result.ok.injEq]
      constructor
      · rintro ⟨rfl, rfl⟩
        exact ⟨[], .nil, rfl, hpast.symm⟩
      · rintro ⟨parts, hsections, rfl, rfl⟩
        obtain rfl := hsections.of_nil
        exact ⟨rfl, hpast.symm⟩
    | cons b rest =>
      have hbyte : byte c = .ok b (c.past [b] rest) := reads_byte.ok hrest rfl
      have hsection (hle : SectionId.number ⟨b⟩ ≤ 11) := reads_readSection m hle
      have hlast {content : Content} (hcontent : content.id = ⟨b⟩) :
          (if b = 0 then last else ⟨b⟩) = lastKnown content last := by
        simp [lastKnown, hcontent, SectionId.custom]
      have hlength {run tail : List UInt8} (hrun : rest = run ++ tail) : tail.length < fuel := by
        rw [hrest, hrun, List.length_cons, List.length_append] at hfuel
        omega
      -- Sections know where they start from the offset of the cursor, which is that of the list
      -- plus the bytes that were taken.
      have hstart (size : List UInt8) :
          ((c.past [b] rest).offset?.map (· + size.length)).getD 0 = place + 1 + size.length := by
        simp [hplace]
      have hplace' (size payload tail : List UInt8) :
          ((c.past [b] rest).past (size ++ payload) tail).offset? =
            some (place + 1 + size.length + payload.length) := by
        simp only [Cursor.offset?_past, hplace, Option.map_some, List.length_append,
          List.length_singleton, Nat.add_assoc]
      simp only [hbyte]
      constructor
      · intro hok
        cases hcheck : checkSection ⟨b⟩ last c.offset? with
        | error e => simp [hcheck] at hok
        | ok u =>
          obtain ⟨hle, hfollows⟩ := checkSection_eq_ok.mp hcheck
          cases hread : readSection m ⟨b⟩ (c.past [b] rest) with
          | error e t => simp [hcheck, hread] at hok
          | ok m₁ t =>
            simp only [hcheck, hread] at hok
            obtain ⟨run, tail, hrun,
                ⟨size, payload, content, rfl, hsize, hcontent, hspelled, rfl⟩, rfl⟩ :=
              (hsection hle _ _ _).mp hread
            rw [hlast hcontent] at hok
            rw [hstart] at hspelled hok
            obtain ⟨parts, hparts, rfl, rfl⟩ :=
              (ih (hplace' size payload tail) hending (hlength hrun)).mp hok
            obtain rfl : rest = size ++ payload ++ tail := hrun
            have hnumber : content.id.number = b := by rw [hcontent]
            refine ⟨(spanAt content (place + 1 + size.length) payload, content) ::
              parts, ?_, rfl, ?_⟩
            · rw [← hnumber, List.append_assoc]
              exact .cons (by rwa [MayFollow, hcontent]) hsize rfl hspelled hparts
            · simp
      · rintro ⟨parts, hsections, rfl, rfl⟩
        cases hsections with
        | @cons _ _ start size payload tail content parts hfollows hsize hstart' hspelled hparts =>
          subst hstart'
          have hcheck : checkSection content.id last c.offset? = .ok () :=
            checkSection_eq_ok.mpr ⟨content.id_le, hfollows⟩
          have hread := (hsection content.id_le
            (c.past [content.id.number] (size ++ (payload ++ tail)))
            _ _).mpr ⟨size ++ payload, tail, (List.append_assoc _ _ _).symm,
            ⟨size, payload, content, rfl, hsize, rfl, by rwa [hstart], rfl⟩, rfl⟩
          rw [hstart] at hread
          have hafter := (ih (m := m.addSection
            (spanAt content (place + 1 + size.length) payload, content)) (hplace' size payload tail)
            hending (hlength (List.append_assoc _ _ _).symm)).mpr ⟨parts, hparts, rfl, by simp⟩
          simpa only [hcheck, hread, hlast rfl] using hafter

/-! ## Binaries -/

/-- Four bytes are determined by the number that they make. -/
theorem littleEndian_injective {as bs : List UInt8} (has : as.length = 4) (hbs : bs.length = 4)
    (hnumber : littleEndian as = littleEndian bs) : as = bs := by
  obtain ⟨a₀, a₁, a₂, a₃, rfl⟩ := List.length_eq_four.mp has
  obtain ⟨b₀, b₁, b₂, b₃, rfl⟩ := List.length_eq_four.mp hbs
  simp only [littleEndian, List.foldr_cons, List.foldr_nil] at hnumber
  have hlt (b : UInt8) : b.toNat < 256 := b.toNat_lt
  have h₀ : a₀.toNat = b₀.toNat := by have := hlt a₀; have := hlt b₀; omega
  have h₁ : a₁.toNat = b₁.toNat := by have := hlt a₁; have := hlt b₁; omega
  have h₂ : a₂.toNat = b₂.toNat := by have := hlt a₂; have := hlt b₂; omega
  have h₃ : a₃.toNat = b₃.toNat := by omega
  rw [UInt8.toNat_inj.mp h₀, UInt8.toNat_inj.mp h₁, UInt8.toNat_inj.mp h₂, UInt8.toNat_inj.mp h₃]

/-- A word of the header is four bytes, the least first. -/
theorem reads_readHeaderWord :
    readHeaderWord.Reads fun n run => n = littleEndian run ∧ run.length = 4 := by
  refine (((reads_bytes 4).located _).map littleEndian).congr fun _ n run => ?_
  constructor
  · rintro ⟨bs, rfl, rfl, hlength⟩
    exact ⟨rfl, hlength⟩
  · rintro ⟨rfl, hlength⟩
    exact ⟨run, rfl, rfl, hlength⟩

/-- What follows the header is read as sections. -/
theorem read_header (rest : List UInt8) (ending : Ending) :
    read { rest := header ++ rest, origin := some 0, ending } =
      readSections (rest.length + 1) .custom {}
        { rest, consumed := header.length, origin := some 0, ending } := by
  have hword {n : Nat} {c : Cursor} {run rest : List UInt8} (hrest : c.rest = run ++ rest)
      (hn : n = littleEndian run) (hlength : run.length = 4) :
      readHeaderWord c = .ok n (c.past run rest) :=
    reads_readHeaderWord.ok hrest ⟨hn, hlength⟩
  let start : Cursor := { rest := header ++ rest, origin := some 0, ending }
  have hfirst : readHeaderWord start =
      .ok magic (start.past [0x00, 0x61, 0x73, 0x6d] ([0x01, 0x00, 0x00, 0x00] ++ rest)) :=
    hword rfl rfl rfl
  have hsecond : readHeaderWord
      (start.past [0x00, 0x61, 0x73, 0x6d] ([0x01, 0x00, 0x00, 0x00] ++ rest)) =
        .ok version ((start.past [0x00, 0x61, 0x73, 0x6d] ([0x01, 0x00, 0x00, 0x00] ++ rest)).past
          [0x01, 0x00, 0x00, 0x00] rest) :=
    hword rfl rfl rfl
  refine (estate_bind_of_ok hfirst).trans ?_
  rw [if_neg (by decide)]
  refine (estate_bind_of_ok hsecond).trans ?_
  rw [if_neg (by decide)]
  rfl

/-- A module is its two words and its sections. -/
theorem read_eq_ok_iff {bytes : List UInt8} {ending : Ending} {m : Module} {c : Cursor} :
    read { rest := bytes, origin := some 0, ending } = .ok m c ↔
      ∃ rest, bytes = header ++ rest ∧
        readSections (rest.length + 1) .custom {}
          { rest, consumed := header.length, origin := some 0, ending } = .ok m c := by
  constructor
  · intro hok
    suffices hheader : ∃ rest, bytes = header ++ rest by
      obtain ⟨rest, rfl⟩ := hheader
      exact ⟨rest, rfl, by rwa [← read_header]⟩
    obtain ⟨first, t, hfirst, hok⟩ := estate_bind_eq_ok.mp hok
    obtain ⟨run, middle, hrun, ⟨rfl, hlength⟩, rfl⟩ := (reads_readHeaderWord _ _ _).mp hfirst
    by_cases hmagic : littleEndian run = magic
    · simp only [hmagic, ne_eq, not_true_eq_false, if_false] at hok
      obtain ⟨second, t, hsecond, hok⟩ := estate_bind_eq_ok.mp hok
      obtain ⟨run', rest, hrun', ⟨rfl, hlength'⟩, rfl⟩ := (reads_readHeaderWord _ _ _).mp hsecond
      by_cases hversion : littleEndian run' = version
      · obtain rfl : run = [0x00, 0x61, 0x73, 0x6d] := littleEndian_injective hlength rfl hmagic
        obtain rfl : run' = [0x01, 0x00, 0x00, 0x00] := littleEndian_injective hlength' rfl hversion
        refine ⟨rest, ?_⟩
        rw [show bytes = _ from hrun, show middle = _ from hrun']
        rfl
      · simp [hversion, Bind.bind, EStateM.bind, estate_throw] at hok
    · simp [hmagic, Bind.bind, EStateM.bind, estate_throw] at hok
  · rintro ⟨rest, rfl, hok⟩
    rwa [read_header]

/-- The binaries that are accepted are the header followed by what stands for sections. -/
theorem decode_eq_ok_iff {bytes : List UInt8} {m : Module} :
    decode bytes .eof = .ok m ↔
      ∃ rest parts, bytes = header ++ rest ∧ Sections .custom header.length rest parts ∧
        m = parts.foldl addSection {} := by
  have hsections (rest : List UInt8) (c' : Cursor) :
      readSections (rest.length + 1) .custom {}
        { rest, consumed := header.length, origin := some 0 } = .ok m c' ↔
          ∃ parts, Sections .custom header.length rest parts ∧ m = parts.foldl addSection {} ∧
          c' = Cursor.past { rest, consumed := header.length, origin := some 0 } rest [] :=
    readSections_eq_ok rfl rfl (Nat.lt_succ_self _)
  unfold decode
  constructor
  · intro hok
    cases hread : read { rest := bytes, origin := some 0, ending := .eof } with
    | error e c => simp [hread] at hok
    | ok read c =>
      simp only [hread, Except.ok.injEq] at hok
      subst hok
      obtain ⟨rest, hbytes, hok⟩ := read_eq_ok_iff.mp hread
      obtain ⟨parts, hparts, hm, -⟩ := (hsections rest c).mp hok
      exact ⟨rest, parts, hbytes, hparts, hm⟩
  · rintro ⟨rest, parts, hbytes, hparts, hm⟩
    rw [read_eq_ok_iff.mpr ⟨rest, hbytes, (hsections rest _).mpr ⟨parts, hparts, hm, rfl⟩⟩]

end Module

end IntWasm
