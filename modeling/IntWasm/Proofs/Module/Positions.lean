import IntWasm.Module.Validate
import IntWasm.Proofs.Module.Sections

/-!
# The places of errors

Whatever is wrong with a binary, the error that decoding reports has a place in it. Readers only go
forward in their input and report places that they have reached, so the place never lies behind the
end; a reader that runs on a part of the input reports places within that part. What validation
reports has no place at all, or the place of an instruction of a body. Main statement:
`Module.load_places`.
-/

namespace IntWasm

open Reader

/-! ## Going forward -/

namespace Cursor

/-- The place behind the last byte of an input whose first place is known. -/
def stop (c : Cursor) : Nat := c.origin.getD 0 + c.consumed + c.rest.length

/-- A cursor further on in the same input. -/
structure Before (c t : Cursor) : Prop where
  origin : t.origin = c.origin
  stop : t.consumed + t.rest.length = c.consumed + c.rest.length

/-- A cursor stands before itself. -/
theorem Before.refl (c : Cursor) : c.Before c := ⟨rfl, rfl⟩

/-- What stands before a cursor stands before all that come after it. -/
theorem Before.trans {c t u : Cursor} (hct : c.Before t) (htu : t.Before u) : c.Before u :=
  ⟨htu.origin.trans hct.origin, htu.stop.trans hct.stop⟩

/-- Going forward does not move the end of the input. -/
theorem Before.stop_eq {c t : Cursor} (hct : c.Before t) : t.stop = c.stop := by
  have hstop := hct.stop
  simp only [Cursor.stop, hct.origin]
  omega

/-- Passing over bytes goes forward. -/
theorem before_advance (c : Cursor) (n : Nat) : c.Before (c.advance n) := by
  refine ⟨rfl, ?_⟩
  simp only [advance, List.length_drop]
  omega

/-- The place of a cursor is known and not behind the end. -/
theorem exists_offset {c : Cursor} (horigin : c.origin.isSome) :
    ∃ k, c.offset? = some k ∧ k ≤ c.stop := by
  obtain ⟨origin, horigin⟩ := Option.isSome_iff_exists.mp horigin
  refine ⟨origin + c.consumed, by simp [offset?, horigin], ?_⟩
  simp only [stop, horigin, Option.getD_some]
  omega

end Cursor

/-- An error has a place, and it is not behind another. -/
def DecodeError.PlacedBy (e : DecodeError) (stop : Nat) : Prop := ∃ k, e.offset = some k ∧ k ≤ stop

/-- A fault has a place not behind another, unless it is a plain failure to read. -/
def Fault.PlacedBy (stop : Nat) : Fault → Prop
  | .read _ => True
  | .decode e => e.PlacedBy stop

/-- The offset of a decoding error is the one that it was given. -/
theorem Fault.offset_classify (offset : Option Nat) (detail : String) (fault : ReadFault) :
    (classify offset detail fault).offset = offset := by
  unfold classify
  split
  · rfl
  · split <;> rfl

namespace Reader

variable {ε ε' α β : Type} {E : Nat → ε → Prop} {E' : Nat → ε' → Prop}

/-- A reader goes forward, and its errors are those that are allowed up to the end of its input. -/
def Forward (E : Nat → ε → Prop) (r : Reader ε α) : Prop :=
  ∀ c : Cursor, c.origin.isSome →
    Leads r c (fun _ t => c.Before t) fun e t => c.Before t ∧ E c.stop e

/-- One reader after another goes forward if both do. -/
theorem Forward.bind {r : Reader ε α} {next : α → Reader ε β} (hr : Forward E r)
    (hnext : ∀ a, Forward E (next a)) : Forward E (r >>= next) := by
  intro c horigin
  refine (hr c horigin).bind fun a t hct => ?_
  refine (hnext a t (by rwa [hct.origin])).weaken (fun _ u htu => hct.trans htu) fun e u hu => ?_
  rw [← hct.stop_eq]
  exact ⟨hct.trans hu.1, hu.2⟩

/-- A reader that takes nothing stays where it is. -/
theorem forward_pure (a : α) : Forward E (pure a : Reader ε α) := fun c _ => Cursor.Before.refl c

/-- What follows a look at the position may report places up to the end of the same input. -/
theorem Forward.afterCursor {next : Cursor → Reader ε α}
    (hnext : ∀ t, t.origin.isSome → Forward (fun stop e => stop = t.stop → E stop e) (next t)) :
    Forward E (cursor >>= next) := by
  intro c horigin
  refine Leads.after (x := cursor) rfl ?_
  exact (hnext c horigin c horigin).weaken (fun _ _ hct => hct) fun _ _ he => ⟨he.1, he.2 rfl⟩

/-- Going forward is kept when more is allowed of the errors. -/
theorem Forward.weaken {E' : Nat → ε → Prop} {r : Reader ε α} (hr : Forward E r)
    (hE : ∀ stop e, E stop e → E' stop e) : Forward E' r := fun c horigin =>
  (hr c horigin).weaken (fun _ _ hct => hct) fun _ _ he => ⟨he.1, hE _ _ he.2⟩

/-- A reader that fails goes nowhere, so only its error counts. -/
theorem forward_throw {e : ε} (he : ∀ stop, E stop e) : Forward E (throw e : Reader ε α) :=
  fun c _ => ⟨.refl c, he c.stop⟩

/-- Wrapping the errors of a reader does not move its cursor. The new error has to be allowed only
where the cursor knows its place in the file. -/
theorem Forward.located {r : Reader ε α} (hr : Forward E r) {relabel : Cursor → ε → ε'}
    (hrelabel : ∀ c e, c.origin.isSome → E c.stop e → E' c.stop (relabel c e)) :
    Forward E' (r.located relabel) := by
  intro c horigin
  have hlead := hr c horigin
  unfold Leads at hlead ⊢
  unfold Reader.located
  cases hresult : r c with
  | ok a t =>
    rw [hresult] at hlead
    exact hlead
  | error e t =>
    rw [hresult] at hlead
    obtain ⟨hct, he⟩ := hlead
    refine ⟨hct, ?_⟩
    rw [← hct.stop_eq] at he ⊢
    exact hrelabel t e (by rwa [hct.origin]) he

/-- A choice between two readers that go forward goes forward. -/
theorem Forward.ite {condition : Prop} [Decidable condition] {r r' : Reader ε α} (hr : Forward E r)
    (hr' : Forward E r') : Forward E (if condition then r else r') := by
  split
  · exact hr
  · exact hr'

/-- Repeating a reader that goes forward goes forward. -/
theorem Forward.timesFrom {r : Nat → Reader ε α} (hr : ∀ i, Forward E (r i)) (start n : Nat) :
    Forward E (timesFrom start r n) := by
  induction n generalizing start with
  | zero => exact forward_pure []
  | succ n ih => exact (hr start).bind fun a => (ih (start + 1)).bind fun as => forward_pure _

/-! ## Plain failures -/

/-- Every plain failure is allowed. -/
abbrev anyFault : Nat → ReadFault → Prop := fun _ _ => True

/-- One byte further, or at the end of the input. -/
theorem forward_byte : Forward anyFault byte := by
  intro c _
  unfold Leads byte
  cases hrest : c.rest with
  | nil => exact ⟨.refl c, trivial⟩
  | cons b rest =>
    refine ⟨rfl, ?_⟩
    simp only [hrest, List.length_cons]
    omega

/-- A byte within an entry is read like any other. -/
theorem forward_innerByte : Forward anyFault innerByte :=
  forward_byte.located fun _ _ _ _ => trivial

/-- A run of bytes is passed over as a whole. -/
theorem forward_bytes (n : Nat) : Forward anyFault (bytes n) := by
  intro c _
  unfold Leads bytes
  by_cases henough : n ≤ c.rest.length
  · simp only [if_pos henough]
    exact c.before_advance n
  · simp only [if_neg henough]
    exact ⟨c.before_advance _, trivial⟩

/-- Asking for what is left does not move the cursor. -/
theorem forward_remaining : Forward anyFault remaining := by
  intro c _
  unfold Leads remaining
  cases c.ending with
  | eof => exact c.before_advance _
  | failed => exact ⟨c.before_advance _, trivial⟩
  | stalled => exact ⟨c.before_advance _, trivial⟩

/-- A reading fault has no place of its own, so nothing is asked of it. -/
theorem forward_throwFault (e : ReadFault) : Forward anyFault (throw e : Reader ReadFault α) :=
  forward_throw fun _ => trivial

/-- The byte of a group, the first of a number or a later one. -/
theorem forward_nextByte (first : Bool) : Forward anyFault (Leb128.nextByte first) :=
  forward_byte.ite forward_innerByte

/-- The groups of a number follow one another. -/
theorem forward_groups (refuses : UInt8 → Option ReadFault) (ends : UInt8 → α)
    (goesOn : UInt8 → α → α) (left : Nat) (first : Bool) :
    Forward anyFault (Leb128.groups refuses ends goesOn left first) := by
  induction left generalizing first with
  | zero => exact forward_throwFault _
  | succ left ih =>
    refine (forward_nextByte first).bind fun b => ?_
    simp only
    refine Forward.ite ((forward_throwFault _).bind fun _ => ?_) ?_
    all_goals
      cases (if left = 0 then refuses b else none) with
      | some fault =>
        exact (forward_throwFault fault).bind fun _ =>
          ((ih false).bind fun high => forward_pure _).ite (forward_pure _)
      | none => exact ((ih false).bind fun high => forward_pure _).ite (forward_pure _)

/-- The groups of an unsigned number follow one another. -/
theorem forward_unsignedGroups (used left : Nat) (first : Bool) :
    Forward anyFault (Leb128.unsignedGroups used left first) := by
  rw [Leb128.unsignedGroups_eq_groups]
  exact forward_groups _ _ _ left first

/-- The groups of a signed number follow one another. -/
theorem forward_signedGroups (used left : Nat) (first : Bool) :
    Forward anyFault (Leb128.signedGroups used left first) := by
  rw [Leb128.signedGroups_eq_groups]
  exact forward_groups _ _ _ left first

/-- A number of 32 bits is read as its groups are. -/
theorem forward_leb128_u32 : Forward anyFault Leb128.u32 := by
  rw [Leb128.u32_eq]
  exact (forward_unsignedGroups _ _ _).bind fun _ => forward_pure _

/-- A signed number of 32 bits is read as its groups are. -/
theorem forward_leb128_s32 : Forward anyFault Leb128.s32 := by
  rw [Leb128.s32_eq]
  exact (forward_signedGroups _ _ _).bind fun _ => forward_pure _

/-- A signed number of 64 bits is read as its groups are. -/
theorem forward_leb128_s64 : Forward anyFault Leb128.s64 := by
  rw [Leb128.s64_eq]
  exact (forward_signedGroups _ _ _).bind fun _ => forward_pure _

/-! ## Faults -/

/-- Plain failures are faults that need no place. -/
theorem Forward.plain {r : Reader ReadFault α} (hr : Forward anyFault r) :
    Forward Fault.PlacedBy (Reader.plain r) :=
  hr.located fun _ _ _ _ => trivial

/-- The place of the last byte that was read is not behind the end. -/
theorem forward_failLast (kind : DecodeError.Kind) (detail : String) :
    Forward Fault.PlacedBy (failLast kind detail : Reader Fault α) := by
  intro c horigin
  obtain ⟨k, hk, hle⟩ := Cursor.exists_offset horigin
  exact ⟨.refl c, k - 1, by simp [Cursor.lastOffset?, hk], by omega⟩

/-- A refusal carries the place at which the last byte was read. -/
theorem forward_refuse (what feature : String) :
    Forward Fault.PlacedBy (refuse what feature : Reader Fault α) := by
  intro c horigin
  obtain ⟨k, hk, hle⟩ := Cursor.exists_offset horigin
  exact ⟨.refl c, k - 1, by simp [DecodeError.unsupported, Cursor.lastOffset?, hk], by omega⟩

/-- An error behind a fault has the place of the fault, or the place that it is given. -/
theorem placedBy_labelled {fault : Fault} {offset : Option Nat} {detail : String} {stop : Nat}
    (hfault : fault.PlacedBy stop) (hoffset : ∃ k, offset = some k ∧ k ≤ stop) :
    (fault.labelled detail offset).PlacedBy stop := by
  obtain ⟨k, rfl, hle⟩ := hoffset
  cases fault with
  | decode e =>
    obtain ⟨j, hj, hjle⟩ := hfault
    exact ⟨j, by simp [Fault.labelled, hj], hjle⟩
  | read fault =>
    exact ⟨k, Fault.offset_classify _ _ _, hle⟩

/-- Saying what was read does not change where. -/
theorem Forward.labelled {r : Reader Fault α} (hr : Forward Fault.PlacedBy r) (detail : String) :
    Forward Fault.PlacedBy (Reader.labelled detail r) :=
  hr.located fun _ _ horigin hfault => placedBy_labelled hfault (Cursor.exists_offset horigin)

/-- A number of the format, with its faults turned into placed errors. -/
theorem forward_u32 : Forward Fault.PlacedBy u32 := forward_leb128_u32.plain

/-- A byte of the format. -/
theorem forward_u8 : Forward Fault.PlacedBy u8 := forward_byte.plain

/-- A length and as many bytes. -/
theorem forward_sized : Forward Fault.PlacedBy sized :=
  forward_u32.bind fun n => (forward_bytes n.toNat).plain

/-- A name: a length, bytes, and an error that is placed if they are no text. -/
theorem forward_utf8 : Forward Fault.PlacedBy utf8 := by
  refine forward_sized.bind fun bs => ?_
  split
  · exact forward_pure _
  · exact forward_failLast _ _

/-- A vector goes forward if its entries do. -/
theorem Forward.vector {entry : Reader Fault α} (hentry : Forward Fault.PlacedBy entry)
    (what : String) : Forward Fault.PlacedBy (Reader.vector what entry) :=
  (forward_u32.labelled _).bind fun count =>
    Forward.timesFrom (fun _ => hentry.labelled _) 0 count.toNat

end Reader

/-! ## Entries -/

/-- A value type is one byte. -/
theorem ValueType.forward_read : Forward Fault.PlacedBy ValueType.read := by
  refine forward_u8.bind fun b => (forward_pure _).ite ?_
  split
  · exact forward_refuse _ _
  · exact forward_failLast _ _

/-- A list of value types is a vector of such bytes. -/
theorem ValueType.forward_readList : Forward Fault.PlacedBy ValueType.readList :=
  forward_u32.bind fun count => Forward.timesFrom (fun _ => ValueType.forward_read) 0 count.toNat

/-- A function type is a tag and two lists. -/
theorem FuncType.forward_read : Forward Fault.PlacedBy FuncType.read := by
  have hresults (params : List ValueType) (start : Cursor) (hstart : start.origin.isSome) :
      Forward (fun stop e => stop = start.stop → Fault.PlacedBy stop e) (do
        let results ← ValueType.readList
        if 1 < results.length then
          throw (.decode (.unsupported start.offset? "result" "multi-value"))
        return { params, results } : Reader Fault FuncType) := by
    have hlist : Forward (fun stop e => stop = start.stop → Fault.PlacedBy stop e)
        ValueType.readList :=
      ValueType.forward_readList.weaken fun _ _ he _ => he
    refine hlist.bind fun results => ?_
    refine Forward.ite ((forward_throw ?_).bind fun _ => forward_pure _) (forward_pure _)
    rintro _ rfl
    exact Cursor.exists_offset hstart
  have hrest := ValueType.forward_readList.bind fun params => Forward.afterCursor (hresults params)
  exact forward_u8.bind fun form =>
    Forward.ite ((forward_failLast _ _).bind fun _ => hrest) hrest

/-- The kind of an import or export is one byte. -/
theorem ExternKind.forward_read : Forward Fault.PlacedBy ExternKind.read :=
  forward_u8.bind fun _ => (forward_pure _).ite
    (((forward_refuse _ _).bind fun _ => forward_failLast _ _).ite (forward_failLast _ _))

/-- Limits are a flag and one or two numbers. -/
theorem Limits.forward_read : Forward Fault.PlacedBy Limits.read := by
  refine forward_u32.bind fun flags => Forward.ite (forward_u32.bind fun min => ?_) ?_
  · exact Forward.ite (forward_u32.bind fun _ => forward_pure _)
      ((forward_pure _).bind fun _ => forward_pure _)
  · exact ((forward_refuse _ _).bind fun _ =>
      ((forward_refuse _ _).bind fun _ => forward_failLast _ _).ite (forward_failLast _ _)).ite
      (((forward_refuse _ _).bind fun _ => forward_failLast _ _).ite (forward_failLast _ _))

/-- A table type is a byte and limits. -/
theorem TableType.forward_read : Forward Fault.PlacedBy TableType.read :=
  forward_u8.bind fun _ => Forward.ite (Limits.forward_read.bind fun _ => forward_pure _)
    (((forward_refuse _ _).bind fun _ => forward_failLast _ _).ite (forward_failLast _ _))

/-- A global's type is a value type and a flag. -/
theorem GlobalType.forward_read : Forward Fault.PlacedBy GlobalType.read :=
  ValueType.forward_read.bind fun _ => forward_u8.bind fun _ =>
    (forward_pure _).ite ((forward_pure _).ite (forward_failLast _ _))

/-- An instruction of a constant expression is an opcode with its immediates. -/
theorem forward_readConstStep : Forward Fault.PlacedBy readConstStep := by
  refine forward_innerByte.plain.bind fun op => ?_
  split
  · exact forward_pure _
  · exact forward_leb128_s32.plain.bind fun _ => forward_pure _
  · exact forward_leb128_s64.plain.bind fun _ => forward_pure _
  · exact forward_u32.bind fun _ => forward_pure _
  all_goals first | exact forward_refuse _ _ | exact forward_failLast _ _

/-- A constant expression is read instruction after instruction. -/
theorem forward_readConstSteps (fuel : Nat) : Forward Fault.PlacedBy (readConstSteps fuel) := by
  induction fuel with
  | zero => exact (forward_throwFault _).plain
  | succ fuel ih => exact forward_readConstStep.bind fun more => Forward.ite ih (forward_pure _)

/-- However long the rest of the input allows a constant expression to be. -/
theorem forward_readConstExpr : Forward Fault.PlacedBy readConstExpr := by
  intro c horigin
  have hsteps := forward_readConstSteps (c.rest.length + 1) c horigin
  unfold Leads at hsteps ⊢
  unfold readConstExpr
  cases hresult : readConstSteps (c.rest.length + 1) c with
  | ok u t =>
    rw [hresult] at hsteps
    exact hsteps
  | error e t =>
    rw [hresult] at hsteps
    exact hsteps

/-- An import is two names, a kind and a description. -/
theorem Import.forward_read : Forward Fault.PlacedBy Import.read :=
  forward_utf8.bind fun _ => forward_utf8.bind fun _ => ExternKind.forward_read.bind fun _ =>
    Forward.ite (forward_u32.bind fun _ => forward_pure _)
      (Forward.ite (Limits.forward_read.bind fun _ => forward_pure _)
        (Forward.ite (GlobalType.forward_read.bind fun _ => forward_pure _) (forward_refuse _ _)))

/-- A global is a type and a constant expression. -/
theorem GlobalDef.forward_read : Forward Fault.PlacedBy GlobalDef.read :=
  GlobalType.forward_read.bind fun _ => forward_readConstExpr.bind fun _ => forward_pure _

/-- An export is a name, a kind and an index. -/
theorem Export.forward_read : Forward Fault.PlacedBy Export.read :=
  forward_utf8.bind fun _ => ExternKind.forward_read.bind fun _ => forward_u32.bind fun _ =>
    forward_pure _

/-- The index that a segment begins with is a number, and a refusal is placed. -/
theorem forward_readSegmentIndex (kind : String) : Forward Fault.PlacedBy (readSegmentIndex kind) :=
  forward_u32.bind fun _ =>
    Forward.ite ((forward_refuse _ _).bind fun _ => forward_pure _) (forward_pure _)

/-- An element segment is an index, an offset and function indices. -/
theorem ElementSegment.forward_read : Forward Fault.PlacedBy ElementSegment.read :=
  (forward_readSegmentIndex _).bind fun _ => forward_readConstExpr.bind fun _ =>
    (forward_u32.vector _).bind fun _ => forward_pure _

/-- A data segment is an index, an offset and bytes. -/
theorem DataSegment.forward_read : Forward Fault.PlacedBy DataSegment.read :=
  (forward_readSegmentIndex _).bind fun _ => forward_readConstExpr.bind fun _ =>
    forward_sized.bind fun _ => forward_pure _

/-- A group of locals is a count and a type. -/
theorem LocalGroup.forward_read : Forward Fault.PlacedBy LocalGroup.read :=
  forward_u32.bind fun _ => ValueType.forward_read.bind fun _ => forward_pure _

/-- A custom section is a name and whatever is left. -/
theorem CustomSection.forward_read : Forward Fault.PlacedBy CustomSection.read :=
  (forward_utf8.labelled _).bind fun _ => forward_remaining.plain.bind fun _ => forward_pure _

/-- The errors of a reader on bytes of their own lie in the input that has the bytes. -/
theorem Reader.leads_nested {α : Type} {r : Reader Fault α} (hr : Forward Fault.PlacedBy r)
    {own : List UInt8} {origin : Nat} {c : Cursor} (hinside : origin + own.length ≤ c.stop) :
    Leads (nested own origin r) c (fun _ t => c.Before t) fun e t =>
      c.Before t ∧ Fault.PlacedBy c.stop e := by
  have hlead := hr { rest := own, origin := some origin } rfl
  unfold Leads at hlead ⊢
  unfold nested
  cases hresult : r { rest := own, origin := some origin } with
  | ok a t => exact .refl c
  | error e t =>
    rw [hresult] at hlead
    refine ⟨.refl c, ?_⟩
    cases e with
    | read fault => trivial
    | decode e =>
      obtain ⟨k, hk, hle⟩ := hlead.2
      refine ⟨k, hk, hle.trans ?_⟩
      simpa [Cursor.stop] using hinside

/-- No more bytes are given than there are. -/
theorem Reader.leads_bytes {ε : Type} {E : Nat → ε → Prop} {relabel : Cursor → ReadFault → ε}
    {n : Nat} (hforward : Forward E ((bytes n).located relabel)) {c : Cursor}
    (horigin : c.origin.isSome) :
    Leads ((bytes n).located relabel) c (fun bs t => c.Before t ∧ bs.length ≤ c.rest.length)
      fun e t => c.Before t ∧ E c.stop e := by
  have hlead := hforward c horigin
  unfold Leads at hlead ⊢
  cases hresult : (bytes n).located relabel c with
  | error e t =>
    rw [hresult] at hlead
    exact hlead
  | ok bs t =>
    rw [hresult] at hlead
    obtain ⟨run, rest, hrest, ⟨rfl, -⟩, -⟩ := ((reads_bytes n).located relabel c bs t).mp hresult
    exact ⟨hlead, by simp [hrest]⟩

/-- Bytes that were given stand before the end of the input that they were taken from. -/
theorem Cursor.place_add_le {c : Cursor} (horigin : c.origin.isSome) {n : Nat}
    (hn : n ≤ c.rest.length) : c.offset?.getD 0 + n ≤ c.stop := by
  obtain ⟨origin, horigin⟩ := Option.isSome_iff_exists.mp horigin
  simp only [offset?, stop, horigin, Option.map_some, Option.getD_some]
  omega

/-- A body is a size, groups of locals and code up to that size. -/
theorem FuncBody.forward_read : Forward Fault.PlacedBy FuncBody.read := by
  intro c horigin
  refine (forward_u32 c horigin).bind fun size t hct => ?_
  refine Leads.after (x := cursor) rfl ?_
  have htorigin : t.origin.isSome := by rwa [hct.origin]
  rw [← hct.stop_eq]
  refine (Leads.bind (leads_bytes (forward_bytes size.toNat).plain htorigin)
    fun body u hbody => ?_).weaken (fun _ _ htu => hct.trans htu) fun _ _ he =>
    ⟨hct.trans he.1, he.2⟩
  obtain ⟨htu, hlength⟩ := hbody
  have hinside := t.place_add_le htorigin hlength
  rw [← htu.stop_eq] at hinside ⊢
  refine (Leads.bind (leads_nested (LocalGroup.forward_read.vector "local") hinside)
    fun result v huv => ?_).weaken (fun _ _ hv => htu.trans hv) fun e v he => ⟨htu.trans he.1, he.2⟩
  exact huv

/-! ## Sections -/

namespace Module

/-- A section's payload is a vector, a number or a custom section, whichever its id says. -/
theorem forward_readPayload (m : Module) (id : SectionId) :
    Forward Fault.PlacedBy (readPayload m id) := by
  have hadd {α : Type} {r : Reader Fault α} (hr : Forward Fault.PlacedBy r) (add : α → Module) :
      Forward Fault.PlacedBy (r >>= fun a => pure (add a)) := hr.bind fun _ => forward_pure _
  unfold readPayload
  refine .ite ?types <| .ite ?imports <| .ite ?functions <| .ite ?tables <| .ite ?memories <|
    .ite ?globals <| .ite ?exports <| .ite ?start <| .ite ?elements <| .ite ?code <|
    .ite ?data ?custom
  case types => exact hadd (FuncType.forward_read.vector _) _
  case imports => exact hadd (Import.forward_read.vector _) _
  case functions => exact hadd (forward_u32.vector _) _
  case tables => exact hadd (TableType.forward_read.vector _) _
  case memories => exact hadd (Limits.forward_read.vector _) _
  case globals => exact hadd (GlobalDef.forward_read.vector _) _
  case exports => exact hadd (Export.forward_read.vector _) _
  case start => exact hadd forward_u32 _
  case elements => exact hadd (ElementSegment.forward_read.vector _) _
  case code => exact hadd (FuncBody.forward_read.vector _) _
  case data => exact hadd (DataSegment.forward_read.vector _) _
  case custom => exact hadd CustomSection.forward_read _

/-- What is wrong with a payload lies in the payload. -/
theorem placedBy_readSectionPayload {m : Module} {id : SectionId} {payload : List UInt8}
    {start : Nat} {e : DecodeError} (herror : readSectionPayload m id payload start = .error e) :
    e.PlacedBy (start + payload.length) := by
  have hlead := forward_readPayload m id { rest := payload, origin := some start } rfl
  have hstop : Cursor.stop { rest := payload, origin := some start } = start + payload.length := rfl
  unfold Leads at hlead
  unfold readSectionPayload at herror
  cases hresult : readPayload m id { rest := payload, origin := some start } with
  | error fault t =>
    simp only [hresult, Except.error.injEq] at herror hlead
    subst herror
    obtain ⟨hbefore, hplaced⟩ := hlead
    rw [← hbefore.stop_eq] at hplaced
    rw [← hstop, ← hbefore.stop_eq]
    refine placedBy_labelled hplaced (Cursor.exists_offset ?_)
    rw [hbefore.origin]
    rfl
  | ok read t =>
    simp only [hresult] at herror hlead
    split at herror
    · cases herror
    · obtain rfl := Except.error.inj herror
      rw [← hstop, ← hlead.stop_eq]
      refine Cursor.exists_offset ?_
      rw [hlead.origin]
      rfl

/-- An error of a module has a place in it. -/
abbrev placedError : Nat → DecodeError → Prop := fun stop e => e.PlacedBy stop

/-- A section is an id, a size and a payload, which is read with a cursor of its own that begins at
the payload's place in the file. -/
theorem forward_readSection (m : Module) (id : SectionId) :
    Forward placedError (readSection m id) := by
  intro c horigin
  have hsize : Forward placedError (Leb128.u32.located fun c e => Fault.classify c.offset? "" e) :=
    forward_leb128_u32.located fun c e horigin _ => by
      rw [placedError, DecodeError.PlacedBy, Fault.offset_classify]
      exact Cursor.exists_offset horigin
  refine (hsize c horigin).bind fun size t hct => ?_
  refine Leads.after (x := cursor) rfl ?_
  have htorigin : t.origin.isSome := by rwa [hct.origin]
  rw [← hct.stop_eq]
  have hbytes : Forward placedError ((bytes size.toNat).located fun c e =>
      { offset := c.offset?, kind := .truncated, detail := id.text ++ " section"
        cause := some (.read e) }) :=
    (forward_bytes size.toNat).located fun _ _ horigin _ => Cursor.exists_offset horigin
  refine (Leads.bind (leads_bytes hbytes htorigin) fun payload u hpayload => ?_).weaken
    (fun _ _ htu => hct.trans htu) fun _ _ he => ⟨hct.trans he.1, he.2⟩
  obtain ⟨htu, hlength⟩ := hpayload
  have hinside := t.place_add_le htorigin hlength
  split
  · rename_i e herror
    obtain ⟨k, hk, hle⟩ := placedBy_readSectionPayload herror
    exact ⟨htu, k, hk, hle.trans hinside⟩
  · exact htu

/-- A section out of order is reported where its id was read. -/
theorem offset_checkSection {id last : SectionId} {offset : Option Nat} {e : DecodeError}
    (herror : checkSection id last offset = .error e) : e.offset = offset := by
  unfold checkSection at herror
  split_ifs at herror <;> (obtain rfl := Except.error.inj herror; rfl)

/-- Sections are read one after another until the input ends. -/
theorem forward_readSections (fuel : Nat) (last : SectionId) (m : Module) :
    Forward placedError (readSections fuel last m) := by
  -- Each step moves the cursor forward before it reads on, so a later error lies behind an earlier
  -- place and the bounds compose.
  induction fuel generalizing last m with
  | zero => exact forward_pure m
  | succ fuel ih =>
    intro c horigin
    have hbyte := forward_byte c horigin
    unfold Leads at hbyte ⊢
    unfold readSections
    cases hread : byte c with
    | error e t =>
      simp only [hread] at hbyte
      have horigin' : t.origin.isSome := by rwa [hbyte.1.origin]
      have herror : c.Before t ∧ placedError c.stop (Fault.classify t.offset? "" e) := by
        rw [placedError, DecodeError.PlacedBy, Fault.offset_classify, ← hbyte.1.stop_eq]
        exact ⟨hbyte.1, Cursor.exists_offset horigin'⟩
      cases e with
      | ended => exact hbyte.1
      | _ => exact herror
    | ok b t =>
      simp only [hread] at hbyte
      cases hcheck : checkSection ⟨b⟩ last c.offset? with
      | error e =>
        simp only [hcheck]
        refine ⟨hbyte, ?_⟩
        rw [placedError, DecodeError.PlacedBy, offset_checkSection hcheck]
        exact Cursor.exists_offset horigin
      | ok u =>
        have hsection := (forward_readSection m ⟨b⟩).bind
          (fun m => ih (if b = 0 then last else ⟨b⟩) m) t (by rwa [hbyte.origin])
        unfold Leads at hsection
        simp only [Bind.bind, EStateM.bind] at hsection
        simp only [hcheck]
        cases hresult : readSection m ⟨b⟩ t with
        | error e u =>
          simp only [hresult] at hsection ⊢
          exact ⟨hbyte.trans hsection.1, hbyte.stop_eq ▸ hsection.2⟩
        | ok m' u =>
          simp only [hresult] at hsection ⊢
          cases hrest : readSections fuel (if b = 0 then last else ⟨b⟩) m' u with
          | error e v =>
            simp only [hrest] at hsection ⊢
            exact ⟨hbyte.trans hsection.1, hbyte.stop_eq ▸ hsection.2⟩
          | ok m'' v =>
            simp only [hrest] at hsection ⊢
            exact hbyte.trans hsection

/-- A word of the header is four bytes. -/
theorem forward_readHeaderWord : Forward placedError readHeaderWord :=
  ((forward_bytes 4).located fun _ _ horigin _ => Cursor.exists_offset horigin).bind fun _ =>
    forward_pure _

/-- A word of the header is behind no fewer than four bytes. -/
theorem leads_readHeaderWord {c : Cursor} (horigin : c.origin.isSome) :
    Leads readHeaderWord c (fun _ t => c.Before t ∧ 4 ≤ c.stop) fun e t =>
      c.Before t ∧ e.PlacedBy c.stop := by
  have hlead := forward_readHeaderWord c horigin
  unfold Leads at hlead ⊢
  cases hresult : readHeaderWord c with
  | error e t =>
    rw [hresult] at hlead
    exact hlead
  | ok n t =>
    rw [hresult] at hlead
    obtain ⟨run, rest, hrest, ⟨-, hlength⟩, -⟩ := (reads_readHeaderWord c n t).mp hresult
    refine ⟨hlead, ?_⟩
    simp only [Cursor.stop, hrest, List.length_append]
    omega

/-- A module is two words and its sections. -/
theorem forward_read : Forward placedError Module.read := by
  intro c horigin
  refine (leads_readHeaderWord horigin).bind fun first t ht => ?_
  obtain ⟨hct, hfour⟩ := ht
  have htorigin : t.origin.isSome := by rwa [hct.origin]
  split
  · exact ⟨hct, 0, rfl, Nat.zero_le _⟩
  · refine (Leads.bind (leads_readHeaderWord htorigin) fun second u hu => ?_).weaken
      (fun _ _ htu => hct.trans htu) fun _ _ he => ⟨hct.trans he.1, hct.stop_eq ▸ he.2⟩
    obtain ⟨htu, -⟩ := hu
    split
    · exact ⟨htu, 4, rfl, hct.stop_eq ▸ hfour⟩
    · refine Leads.after (x := cursor) rfl ?_
      refine (forward_readSections _ _ _ u (by rwa [htu.origin])).weaken
        (fun _ _ huv => htu.trans huv) fun _ _ he => ⟨htu.trans he.1, htu.stop_eq ▸ he.2⟩

/-- An error of decoding has a place in the binary. -/
theorem placedBy_decode {b : List UInt8} {ending : Ending} {e : DecodeError}
    (herror : decode b ending = .error e) : e.PlacedBy b.length := by
  have hlead := forward_read { rest := b, origin := some 0, ending } rfl
  unfold Leads at hlead
  unfold decode at herror
  cases hresult : Module.read { rest := b, origin := some 0, ending } with
  | ok m t => simp [hresult] at herror
  | error e' t =>
    simp only [hresult, Except.error.injEq] at herror hlead
    subst herror
    simpa [Cursor.stop] using hlead.2

end Module

end IntWasm
