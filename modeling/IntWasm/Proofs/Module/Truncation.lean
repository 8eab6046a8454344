import IntWasm.Proofs.Module.Layout

/-!
# Beginnings of binaries

A beginning of an accepted binary that ends where a section ends, or with the header, is accepted
too, as the module of the sections up to there. Every other beginning is refused because it is
truncated, whether it breaks off in the header, in the size of a section or in its payload. Main
statement: `Module.decode_take`.
-/

namespace IntWasm

open Leb128 Reader

/-! ## Numbers that break off -/

/-- Failures that only say that the input has ended. -/
def ReadFault.IsEnd (e : ReadFault) : Prop := e = .ended ∨ e = .truncated

/-- Where the input has ended the error is a truncation. -/
theorem Fault.kind_classify {e : ReadFault} (he : e.IsEnd) (offset : Option Nat) (detail : String) :
    (Fault.classify offset detail e).kind = .truncated := by
  rcases he with rfl | rfl <;> rfl

namespace Leb128

/-- Where the input has ended there is no next byte. -/
theorem nextByte_nil (first : Bool) {c : Cursor} (hrest : c.rest = []) (hending : c.ending = .eof) :
    ∃ e, nextByte first c = .error e c ∧ e.IsEnd := by
  have hbyte : byte c = .error .ended c := by simp [byte, hrest, hending, Ending.fault]
  cases first with
  | true => exact ⟨.ended, hbyte, .inl rfl⟩
  | false => exact ⟨.truncated, by
      simp [nextByte, innerByte, lift, hbyte, ReadFault.inside], .inr rfl⟩

/-- A run that breaks off before its last byte ends too early. -/
theorem unsignedGroups_take {used left k : Nat} {first : Bool} {run : List UInt8} {c : Cursor}
    (hrun : IsRun run) (hleft : run.length ≤ left) (hk : k < run.length)
    (hrest : c.rest = run.take k) (hending : c.ending = .eof) :
    ∃ e c', unsignedGroups used left first c = .error e c' ∧ e.IsEnd := by
  induction left generalizing first run k c with
  | zero => omega
  | succ left ih =>
    cases k with
    | zero =>
      obtain ⟨e, hnext, hend⟩ := nextByte_nil first hrest hending
      exact ⟨e, c, estate_bind_of_error hnext, hend⟩
    | succ k =>
      obtain ⟨b, bs, rfl⟩ := List.exists_cons_of_length_pos (Nat.zero_lt_of_lt hk)
      have htail : k < bs.length := Nat.lt_of_succ_lt_succ hk
      have hle : bs.length ≤ left := Nat.le_of_succ_le_succ hleft
      obtain ⟨hcontinues, hbs⟩ : continues b = true ∧ IsRun bs := by
        rcases isRun_cons.mp hrun with ⟨-, rfl⟩ | hmore
        · exact absurd htail (Nat.not_lt_zero k)
        · exact hmore
      obtain ⟨e, c', hread, hend⟩ :
          ∃ e c', unsignedGroups used left false (c.past [b] (bs.take k)) = .error e c' ∧ e.IsEnd :=
        ih hbs hle htail rfl hending
      have hnext : nextByte first c = .ok b (c.past [b] (bs.take k)) := by
        have hcons := nextByte_cons first b (bs.take k) c
        rwa [← List.take_succ_cons, ← hrest] at hcons
      have hleft' : ¬ left = 0 := by omega
      refine ⟨e, c', (estate_bind_of_ok hnext).trans ?_, hend⟩
      simp only [hleft', hcontinues, false_and, if_false, if_true]
      exact estate_bind_of_error hread

/-- A 32-bit number that breaks off before its last byte ends too early. -/
theorem u32_take {n k : Nat} {run : List UInt8} {c : Cursor} (hrun : SpellsUnsigned 32 n run)
    (hk : k < run.length) (hrest : c.rest = run.take k) (hending : c.ending = .eof) :
    ∃ e c', u32 c = .error e c' ∧ e.IsEnd := by
  obtain ⟨e, c', hread, hend⟩ : ∃ e c', unsigned 32 c = .error e c' ∧ e.IsEnd :=
    unsignedGroups_take hrun.isRun hrun.length_le hk hrest hending
  exact ⟨e, c', u32_eq ▸ estate_bind_of_error hread, hend⟩

end Leb128

namespace Module

/-! ## Sections that break off -/

/-- Of too few bytes none are given. -/
theorem bytes_short {ε : Type} {n : Nat} {c : Cursor} (hshort : ¬ n ≤ c.rest.length)
    (hending : c.ending = .eof) (relabel : Cursor → ReadFault → ε) :
    (bytes n).located relabel c =
      .error (relabel (c.advance c.rest.length) .truncated) (c.advance c.rest.length) := by
  simp [located, bytes, hshort, hending, Ending.fault, ReadFault.inside]

/-- A section that breaks off in its size or in its payload is truncated. -/
theorem readSection_take (m : Module) (id : SectionId) {size payload : List UInt8} {k : Nat}
    {c : Cursor} (hsize : SpellsUnsigned 32 payload.length size)
    (hk : k < size.length + payload.length) (hrest : c.rest = (size ++ payload).take k)
    (hending : c.ending = .eof) :
    ∃ e c', readSection m id c = .error e c' ∧ e.kind = .truncated := by
  by_cases hbreak : k < size.length
  · rw [List.take_append_of_le_length hbreak.le] at hrest
    obtain ⟨e, c', hread, hend⟩ := u32_take hsize hbreak hrest hending
    refine ⟨_, c', estate_bind_of_error ?_, Fault.kind_classify hend c'.offset? ""⟩
    simp only [located, hread]
  · obtain ⟨n, hn⟩ := exists_u32 hsize
    have hshort : ¬ n.toNat ≤ (payload.take (k - size.length)).length := by
      rw [List.length_take, hn]
      omega
    rw [List.take_append, List.take_of_length_le (Nat.le_of_not_lt hbreak)] at hrest
    have hnumber := (reads_leb128_u32.located fun c e => Fault.classify c.offset? "" e).ok hrest
      (show U32 n size from show SpellsUnsigned 32 n.toNat size from hn ▸ hsize)
    obtain ⟨e, t, hpayload, hkind⟩ : ∃ e t, (bytes n.toNat).located (fun c e =>
        ({ offset := c.offset?, kind := .truncated, detail := id.text ++ " section"
           cause := some (.read e) } : DecodeError))
           (c.past size (payload.take (k - size.length))) =
        .error e t ∧ e.kind = .truncated :=
          ⟨_, _, bytes_short (c := c.past size (payload.take (k - size.length))) hshort
            hending _, rfl⟩
    exact ⟨e, t, (estate_bind_of_ok hnumber).trans
      ((estate_bind_of_ok (x := cursor) rfl).trans (estate_bind_of_error hpayload)), hkind⟩

/-- The sections behind a place stop behind it. -/
theorem Sections.lt_stop {last : SectionId} {place : Nat} {rest : List UInt8}
    {parts : List (SectionSpan × Content)} (hsections : Sections last place rest parts) :
    ∀ part ∈ parts, place < part.1.stop := by
  induction hsections with
  | nil => simp
  | @cons last place start size payload rest content parts hfollows hsize hstart
      hpayload hrest ih =>
    subst hstart
    intro part hpart
    rcases List.mem_cons.mp hpart with rfl | hpart
    · simp only [spanAt]
      omega
    · have hlater := ih part hpart
      omega

/-- Reading sections fails where the first one does. -/
theorem readSections_error {fuel : Nat} {last : SectionId} {m : Module} {content : Content}
    {c t : Cursor} {rest : List UInt8} {e : DecodeError} (hfollows : MayFollow content last)
    (hrest : c.rest = content.id.number :: rest)
    (hread : readSection m content.id (c.past [content.id.number] rest) = .error e t) :
    readSections (fuel + 1) last m c = .error e t := by
  have hbyte : byte c = .ok content.id.number (c.past [content.id.number] rest) :=
    reads_byte.ok hrest rfl
  have hcheck : checkSection content.id last c.offset? = .ok () :=
    checkSection_eq_ok.mpr ⟨content.id_le, hfollows⟩
  simp only [readSections, hbyte, hcheck, hread]

/-- Reading sections goes on behind the first one. -/
theorem readSections_more {fuel : Nat} {last : SectionId} {m : Module} {content : Content}
    {c : Cursor} {size payload rest : List UInt8} {place : Nat} (hplace : c.offset? = some place)
    (hfollows : MayFollow content last) (hsize : SpellsUnsigned 32 payload.length size)
    (hpayload : content.Spelled (some (place + 1 + size.length)) payload)
    (hrest : c.rest = content.id.number :: (size ++ (payload ++ rest))) :
    readSections (fuel + 1) last m c =
      readSections fuel (lastKnown content last)
        (m.addSection (spanAt content (place + 1 + size.length) payload, content))
        (c.past (content.id.number :: (size ++ payload)) rest) := by
  have hbyte : byte c = .ok content.id.number
      (c.past [content.id.number] (size ++ (payload ++ rest))) := reads_byte.ok hrest rfl
  have hcheck : checkSection content.id last c.offset? = .ok () :=
    checkSection_eq_ok.mpr ⟨content.id_le, hfollows⟩
  have hstart : ((c.past [content.id.number] (size ++ (payload ++ rest))).offset?.map
      (· + size.length)).getD 0 = place + 1 + size.length := by simp [hplace]
  have hread := (reads_readSection m content.id_le).ok
    (c := c.past [content.id.number] (size ++ (payload ++ rest)))
    (List.append_assoc size payload rest).symm
    ⟨size, payload, content, rfl, hsize, rfl, by rwa [hstart], rfl⟩
  have hlast : (if content.id.number = 0 then last else ⟨content.id.number⟩) =
      lastKnown content last := by
    cases hid : content.id
    simp [lastKnown, hid, SectionId.custom]
  rw [hstart] at hread
  simp only [readSections, hbyte, hcheck, hread, hlast, Cursor.past_past]
  rfl

/-- Sections that break off are sections if they break off at the stop of one of them; otherwise
reading them fails. -/
theorem Sections.take {last : SectionId} {place : Nat} {rest : List UInt8}
    {parts : List (SectionSpan × Content)} (hsections : Sections last place rest parts) {k : Nat}
    (hk : k ≤ rest.length) :
    ((k = 0 ∨ ∃ part ∈ parts, part.1.stop = place + k) ∧ ∃ n,
      parts.filter (·.1.stop ≤ place + k) = parts.take n ∧
        Sections last place (rest.take k) (parts.take n)) ∨
    (k ≠ 0 ∧ (∀ part ∈ parts, part.1.stop ≠ place + k) ∧
      ∀ fuel m c, c.rest = rest.take k → c.offset? = some place → c.ending = .eof → k < fuel →
        ∃ e c', readSections fuel last m c = .error e c' ∧ e.kind = .truncated) := by
  induction hsections generalizing k with
  | nil => exact .inl ⟨.inl (Nat.le_zero.mp hk), 0, rfl, by simpa using Sections.nil⟩
  | @cons last place start size payload rest content parts hfollows hsize hstart
      hpayload hrest ih =>
    subst hstart
    -- Three cases: the beginning stops before this section, inside it, or after it. Inside it no
    -- section stops, and reading fails there; after it the hypothesis for the rest decides.
    have hlater := hrest.lt_stop
    have hnone {n : Nat} (hn : n < 1 + size.length + payload.length) :
        ∀ part ∈ (spanAt content (place + 1 + size.length) payload, content) :: parts,
          part.1.stop ≠ place + n := by
      intro part hpart
      rcases List.mem_cons.mp hpart with rfl | hpart
      · simp only [spanAt]
        omega
      · have hless := hlater part hpart
        omega
    rcases Nat.eq_zero_or_pos k with rfl | hpos
    · refine .inl ⟨.inl rfl, 0, ?_, by simpa using Sections.nil⟩
      rw [List.take_zero, List.filter_eq_nil_iff]
      intro part hpart
      have hless := (Sections.cons hfollows hsize rfl hpayload hrest).lt_stop part hpart
      simpa using hless
    · by_cases hbreak : k < 1 + size.length + payload.length
      · refine .inr ⟨by omega, hnone hbreak, fun fuel m c hc hoffset hending hfuel => ?_⟩
        obtain ⟨fuel, rfl⟩ := Nat.exists_eq_add_one.mpr (hpos.trans hfuel)
        obtain ⟨k, rfl⟩ := Nat.exists_eq_add_one.mpr hpos
        have htake : (size ++ (payload ++ rest)).take k = (size ++ payload).take k := by
          rw [← List.append_assoc, List.take_append_of_le_length]
          rw [List.length_append]
          omega
        rw [List.take_succ_cons, htake] at hc
        obtain ⟨e, c', hread, hkind⟩ := readSection_take m content.id hsize
          (show k < size.length + payload.length by omega)
          (c := c.past [content.id.number] ((size ++ payload).take k)) rfl hending
        exact ⟨e, c', readSections_error hfollows hc hread, hkind⟩
      · obtain ⟨j, rfl⟩ := Nat.exists_eq_add_of_le (Nat.le_of_not_lt hbreak)
        have hlength : j ≤ rest.length := by
          simp only [List.length_cons, List.length_append] at hk
          omega
        have htake : (content.id.number :: (size ++ (payload ++ rest))).take
            (1 + size.length + payload.length + j) =
            content.id.number :: (size ++ (payload ++ rest.take j)) := by
          rw [show 1 + size.length + payload.length + j = size.length + (payload.length + j) + 1 by
            omega, List.take_succ_cons, List.take_length_add_append, List.take_length_add_append]
        have hplace : place + (1 + size.length + payload.length + j) =
            place + 1 + size.length + payload.length + j := by omega
        rw [hplace, htake]
        rcases ih hlength with ⟨hstops, n, hfilter, hsections⟩ | ⟨hzero, hstops, hfails⟩
        · refine .inl ⟨.inr ?_, n + 1, ?_, .cons hfollows hsize rfl hpayload hsections⟩
          · rcases hstops with rfl | ⟨part, hpart, hstop⟩
            · exact ⟨_, List.mem_cons_self, rfl⟩
            · exact ⟨part, List.mem_cons_of_mem _ hpart, hstop⟩
          · rw [List.filter_cons_of_pos, hfilter, List.take_succ_cons]
            simp [spanAt]
        · refine .inr ⟨by omega, ?_, fun fuel m c hc hoffset hending hfuel => ?_⟩
          · intro part hpart
            rcases List.mem_cons.mp hpart with rfl | hpart
            · simp only [spanAt]
              omega
            · exact hstops part hpart
          · obtain ⟨fuel, rfl⟩ := Nat.exists_eq_add_one.mpr (Nat.zero_lt_of_lt hfuel)
            rw [readSections_more hoffset hfollows hsize hpayload hc]
            refine hfails fuel _ _ rfl ?_ hending (by omega)
            simp only [Cursor.offset?_past, hoffset, Option.map_some, List.length_cons,
              List.length_append, Option.some.injEq]
            omega

/-! ## Modules of the first sections -/

/-- A section with a given number stops at a place or before it. -/
def stopsBy (m : Module) (place : Nat) (id : SectionId) : Bool :=
  m.spans.any fun s => s.id = id ∧ s.stop ≤ place

/-- The part of a module that stands in the sections up to a place. -/
def upTo (m : Module) (place : Nat) : Module :=
  { types := m.types.filter fun _ => m.stopsBy place .type
    imports := m.imports.filter fun _ => m.stopsBy place .imports
    functions := m.functions.filter fun _ => m.stopsBy place .function
    tables := m.tables.filter fun _ => m.stopsBy place .table
    memories := m.memories.filter fun _ => m.stopsBy place .memory
    globals := m.globals.filter fun _ => m.stopsBy place .global
    exports := m.exports.filter fun _ => m.stopsBy place .exports
    start := m.start.filter fun _ => m.stopsBy place .start
    elements := m.elements.filter fun _ => m.stopsBy place .element
    code := m.code.filter fun _ => m.stopsBy place .code
    data := m.data.filter fun _ => m.stopsBy place .data
    customs := m.customs.take ((m.spans.filter (·.stop ≤ place)).countP (·.id = .custom))
    spans := m.spans.filter (·.stop ≤ place) }

section

variable {parts : List (SectionSpan × Content)} {place n : Nat}

/-- Of the known contents, those remain whose sections stop early enough. -/
theorem mem_known_take {last : SectionId} {place₀ : Nat} {rest : List UInt8}
    (hsections : Sections last place₀ rest parts)
    (hfilter : parts.filter (·.1.stop ≤ place) = parts.take n) (content : Content) :
    content ∈ ((parts.take n).map Prod.snd).filter isKnown ↔
      content ∈ (parts.map Prod.snd).filter isKnown ∧
        ∃ part ∈ parts, part.1.id = content.id ∧ part.1.stop ≤ place := by
  have hholds := hsections.holds
  have hascending := hsections.ascending.1
  rw [← hfilter, List.mem_filter, List.mem_filter, List.mem_map, List.mem_map]
  constructor
  · rintro ⟨⟨part, hpart, rfl⟩, hknown⟩
    obtain ⟨hmem, hstop⟩ := List.mem_filter.mp hpart
    exact ⟨⟨⟨part, hmem, rfl⟩, hknown⟩, part, hmem, (hholds part hmem).1.symm, by simpa using hstop⟩
  · rintro ⟨⟨⟨part, hpart, rfl⟩, hknown⟩, other, hother, hid, hstop⟩
    have hids : other.2.id = part.2.id := (hholds other hother).1.trans hid
    have hnodup : (((parts.map Prod.snd).filter isKnown).map (·.id.number)).Nodup :=
      (List.pairwise_map.mpr hascending).imp UInt8.ne_of_lt
    have hother' : other.2 ∈ (parts.map Prod.snd).filter isKnown :=
      List.mem_filter.mpr ⟨List.mem_map.mpr ⟨other, hother, rfl⟩, by
        simpa [isKnown, hids] using hknown⟩
    have hpart' : part.2 ∈ (parts.map Prod.snd).filter isKnown :=
      List.mem_filter.mpr ⟨List.mem_map.mpr ⟨part, hpart, rfl⟩, hknown⟩
    have hsame := List.inj_on_of_nodup_map hnodup hother' hpart' (by rw [hids])
    exact ⟨⟨other, List.mem_filter.mpr ⟨hother, by simpa using hstop⟩, hsame⟩, hknown⟩

/-- The first entries of a sort are those among the first entries. -/
theorem take_filter {α : Type} (l : List α) (p : α → Bool) (n : Nat) :
    (l.filter p).take ((l.take n).filter p).length = (l.take n).filter p := by
  have hsplit : l.filter p = (l.take n).filter p ++ (l.drop n).filter p := by
    rw [← List.filter_append, List.take_append_drop]
  rw [hsplit, List.take_left]

/-- The first sections make the part of the module up to where the last of them stops. -/
theorem Sections.foldl_take {last : SectionId} {place₀ : Nat} {rest : List UInt8}
    (hsections : Sections last place₀ rest parts)
    (hfilter : parts.filter (·.1.stop ≤ place) = parts.take n) :
    (parts.take n).foldl addSection {} = (parts.foldl addSection {}).upTo place := by
  have hascending := hsections.ascending.1
  have hspans : (parts.foldl addSection {}).spans = parts.map Prod.fst := spans_foldl {} parts
  have hknown : (parts.foldl addSection {}).known = (parts.map Prod.snd).filter isKnown :=
    known_foldl hascending
  have hknown' : ((parts.take n).foldl addSection {}).known =
      ((parts.take n).map Prod.snd).filter isKnown :=
    known_foldl (hascending.sublist (((List.take_sublist n parts).map _).filter _))
  have hmem := mem_known_take hsections hfilter
  rw [← hknown, ← hknown'] at hmem
  have hstopsBy (id : SectionId) : (parts.foldl addSection {}).stopsBy place id = true ↔
      ∃ part ∈ parts, part.1.id = id ∧ part.1.stop ≤ place := by
    simp [stopsBy, hspans]
  -- Known sections occur once, so a field is there exactly if its section is among the first;
  -- custom sections may repeat and are counted instead.
  have hfield {α : Type} (make : α → Content) {id : SectionId} {field field' : Option α}
      (hid : ∀ a, (make a).id = id)
      (hin : ∀ a, make a ∈ (parts.foldl addSection {}).known ↔ field = some a)
      (hin' : ∀ a, make a ∈ ((parts.take n).foldl addSection {}).known ↔ field' = some a) :
      field' = field.filter fun _ => (parts.foldl addSection {}).stopsBy place id := by
    refine Option.ext fun a => ?_
    rw [← hin' a, hmem, hin, hid, ← hstopsBy, Option.filter_eq_some_iff]
  have hcustoms : ((parts.take n).foldl addSection {}).customs =
      ((parts.foldl addSection {}).upTo place).customs := by
    have hcount : (((parts.take n).map Prod.fst).countP (·.id = .custom)) =
        (((parts.take n).map Prod.snd).filter fun content => !isKnown content).length := by
      rw [← List.countP_eq_length_filter, List.countP_map, List.countP_map]
      refine List.countP_congr fun part hpart => ?_
      have hid := (hsections.holds part (List.mem_of_mem_take hpart)).1
      simp [isKnown, hid]
    have hspans' : (parts.map Prod.fst).filter (·.stop ≤ place) = (parts.take n).map Prod.fst := by
      rw [← hfilter, List.filter_map]
      rfl
    refine List.map_injective_iff.mpr (fun _ _ => Content.custom.inj) ?_
    have htake := take_filter (parts.map Prod.snd) (fun content => !isKnown content) n
    rw [← List.map_take, ← hcount] at htake
    simpa [upTo, List.map_take, customs_foldl, hspans, hspans'] using htake.symm
  have hspans' : ((parts.take n).foldl addSection {}).spans =
      ((parts.foldl addSection {}).upTo place).spans := by
    simp only [upTo, hspans, spans_foldl, List.filter_map, ← hfilter]
    rfl
  refine Module.ext_iff.mpr ⟨hfield .types ?_ ?_ ?_, hfield .imports ?_ ?_ ?_,
    hfield .functions ?_ ?_ ?_, hfield .tables ?_ ?_ ?_, hfield .memories ?_ ?_ ?_,
    hfield .globals ?_ ?_ ?_, hfield .exports ?_ ?_ ?_, hfield .start ?_ ?_ ?_,
    hfield .elements ?_ ?_ ?_, hfield .code ?_ ?_ ?_, hfield .data ?_ ?_ ?_, hcustoms, hspans'⟩
  all_goals
    intro a
    first | rfl | simp [known]

end

/-- A beginning of a binary that stops where a section does is the module up to there, and any other
is truncated. -/
theorem decode_take {b : List UInt8} {m : Module} (hok : decode b .eof = .ok m) {n : Nat}
    (hn : n < b.length) :
    ((n = 8 ∨ ∃ s ∈ m.spans, s.stop = n) → decode (b.take n) .eof = .ok (m.upTo n)) ∧
    (¬ (n = 8 ∨ ∃ s ∈ m.spans, s.stop = n) →
      ∃ e, decode (b.take n) .eof = .error e ∧ e.kind = .truncated) := by
  obtain ⟨rest, parts, rfl, hsections, rfl⟩ := decode_eq_ok_iff.mp hok
  have hspans : (parts.foldl addSection {}).spans = parts.map Prod.fst := spans_foldl {} parts
  have hstop : (∃ s ∈ (parts.foldl addSection {}).spans, s.stop = n) ↔
      ∃ part ∈ parts, part.1.stop = n := by simp [hspans]
  rw [hstop]
  -- A beginning of the header stops at no section and is too short for every length.
  by_cases hheader : n < 8
  · have hlater := hsections.lt_stop
    rw [List.take_append_of_le_length (by exact hheader.le)]
    constructor
    · rintro (rfl | ⟨part, hpart, rfl⟩)
      · omega
      · exact absurd (hlater part hpart) (Nat.lt_asymm hheader)
    · intro _
      interval_cases n <;> exact ⟨_, rfl, rfl⟩
  · obtain ⟨k, rfl⟩ := Nat.exists_eq_add_of_le (Nat.le_of_not_lt hheader)
    have hk : k ≤ rest.length := by
      rw [List.length_append] at hn
      exact Nat.le_of_lt (Nat.lt_of_add_lt_add_left hn)
    have htake : (header ++ rest).take (8 + k) = header ++ rest.take k :=
      show (header ++ rest).take (header.length + k) = _ from List.take_length_add_append k
    have hzero : 8 + k = 8 ↔ k = 0 := by omega
    rw [htake, hzero]
    have hbreak := hsections.take hk
    rw [show header.length = 8 from rfl] at hbreak
    rcases hbreak with ⟨hstops, n, hfilter, htaken⟩ | ⟨hne, hstops, hfails⟩
    · refine ⟨fun _ => ?_, fun hnot => absurd hstops hnot⟩
      rw [← hsections.foldl_take hfilter]
      exact decode_eq_ok_iff.mpr ⟨_, _, rfl, htaken, rfl⟩
    · refine ⟨?_, fun _ => ?_⟩
      · rintro (hk | ⟨part, hpart, hat⟩)
        · exact absurd hk hne
        · exact absurd hat (hstops part hpart)
      · obtain ⟨e, c', hread, hkind⟩ := hfails ((rest.take k).length + 1) {}
          { rest := rest.take k, consumed := header.length, origin := some 0 } rfl rfl rfl
          (by rw [List.length_take]; omega)
        refine ⟨e, ?_, hkind⟩
        unfold decode
        rw [read_header, hread]

/-- A module that is cut off between sections, and one that is cut off within. -/
theorem decode_take_namedEmpty :
    ∃ m, decode namedEmpty .eof = .ok m ∧
      decode (namedEmpty.take 18) .eof = .ok (m.upTo 18) ∧
      ∃ e, decode (namedEmpty.take 17) .eof = .error e ∧ e.kind = .truncated := by
  obtain ⟨m, hok, hstops⟩ := exists_decode_namedEmpty
  have hstop (n : Nat) : (∃ s ∈ m.spans, s.stop = n) ↔ n ∈ [14, 18, 22, 28] := by
    rw [← hstops, List.mem_map]
  refine ⟨m, hok, (decode_take hok (by decide)).1 (.inr ((hstop 18).mpr (by decide))),
    (decode_take hok (by decide)).2 ?_⟩
  rw [hstop]
  decide

end Module

end IntWasm
