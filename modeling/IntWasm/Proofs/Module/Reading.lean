import IntWasm.Module.Read
import IntWasm.Proofs.Leb128.Runs
import IntWasm.Proofs.Structured.Typing
import IntWasm.Text.Utf8

/-!
# What a decoded module is made of

Whatever the bytes are, a module that was read has integer types only, no signature with more than
one result, and no body of more bytes than a 32-bit size can announce. A reader is followed step by
step: `Reader.Gives` says something of all that it gives, and `Reader.Shrinks` that it never puts
bytes back. Main statement: `Module.plain_of_decode`.
-/

namespace IntWasm

namespace Reader

variable {ε ε' α β : Type} {P : α → Prop} {Q : β → Prop}

/-! ## What readers give -/

/-- Everything that a reader gives has a property. -/
def Gives (r : Reader ε α) (P : α → Prop) : Prop := ∀ c a c', r c = .ok a c' → P a

/-- A reader leaves no more bytes than there were. -/
def Shrinks (r : Reader ε α) : Prop :=
  ∀ c a c', r c = .ok a c' → c'.rest.length ≤ c.rest.length

/-- Every reader gives something. -/
theorem gives_true (r : Reader ε α) : r.Gives fun _ => True := fun _ _ _ _ => trivial

/-- A reader whose errors are embedded succeeds where the reader does. -/
theorem lift_eq_ok {r : Reader ε α} {embed : ε → ε'} {c c' : Cursor} {a : α} :
    r.lift embed c = .ok a c' ↔ r c = .ok a c' := by
  unfold Reader.lift
  cases r c <;> simp

/-- A reader whose errors are wrapped succeeds where the reader does. -/
theorem located_eq_ok {r : Reader ε α} {relabel : Cursor → ε → ε'} {c c' : Cursor} {a : α} :
    r.located relabel c = .ok a c' ↔ r c = .ok a c' := by
  unfold Reader.located
  cases r c <;> simp

/-- What the first reader gives is what the next one may assume. -/
theorem Gives.bind {r : Reader ε α} {next : α → Reader ε β} (hr : r.Gives P)
    (hnext : ∀ a, P a → (next a).Gives Q) : (r >>= next).Gives Q := by
  intro c b c' hok
  obtain ⟨a, t, hfirst, hsecond⟩ := estate_bind_eq_ok.mp hok
  exact hnext a (hr c a t hfirst) t b c' hsecond

/-- A reader that takes nothing gives its value. -/
theorem gives_pure {a : α} (ha : P a) : (pure a : Reader ε α).Gives P := by
  rintro c b c' ⟨⟩
  exact ha

/-- A reader that fails gives nothing, so it gives whatever is asked. -/
theorem gives_throw (e : ε) : (throw e : Reader ε α).Gives P := fun _ _ _ hok =>
  absurd hok estate_throw_ne_ok

/-- A choice gives what both readers give. -/
theorem Gives.ite {condition : Prop} [Decidable condition] {r r' : Reader ε α} (hr : r.Gives P)
    (hr' : r'.Gives P) : (if condition then r else r').Gives P := by
  split
  · exact hr
  · exact hr'

/-- A refusal gives whatever is asked. -/
theorem gives_failLast (kind : DecodeError.Kind) (detail : String) :
    (failLast kind detail : Reader Fault α).Gives P := nofun

/-- A refusal of a feature gives whatever is asked. -/
theorem gives_refuse (what feature : String) :
    (refuse what feature : Reader Fault α).Gives P := nofun

/-- Wrapping errors does not change what is given. -/
theorem Gives.located {r : Reader ε α} (hr : r.Gives P) (relabel : Cursor → ε → ε') :
    (r.located relabel).Gives P :=
  fun c a c' hok => hr c a c' (located_eq_ok.mp hok)

/-- Embedding errors does not change what is given. -/
theorem Gives.lift {r : Reader ε α} (hr : r.Gives P) (embed : ε → ε') : (r.lift embed).Gives P :=
  fun c a c' hok => hr c a c' (lift_eq_ok.mp hok)

/-- Never more bytes than were asked for. -/
theorem gives_bytes (n : Nat) : (bytes n).Gives fun bs => bs.length ≤ n := by
  intro c a c' hok
  unfold bytes at hok
  by_cases henough : n ≤ c.rest.length
  · simp only [if_pos henough, EStateM.Result.ok.injEq] at hok
    obtain ⟨rfl, rfl⟩ := hok
    exact List.length_take_le n _
  · simp [if_neg henough] at hok

/-- Every entry is as the reader gives it. -/
theorem Gives.timesFrom {r : Nat → Reader ε α} (hr : ∀ i, (r i).Gives P) (start n : Nat) :
    (timesFrom start r n).Gives fun as => ∀ a ∈ as, P a := by
  induction n generalizing start with
  | zero => exact gives_pure (by simp)
  | succ n ih =>
    refine (hr start).bind fun a ha => (ih (start + 1)).bind fun as has => gives_pure ?_
    intro b hb
    rcases List.mem_cons.mp hb with rfl | hb
    · exact ha
    · exact has b hb

/-- As many entries as were asked for. -/
theorem gives_length_timesFrom (r : Nat → Reader ε α) (start n : Nat) :
    (timesFrom start r n).Gives fun as => as.length = n := by
  induction n generalizing start with
  | zero => exact gives_pure rfl
  | succ n ih =>
    refine (gives_true _).bind fun a _ => (ih (start + 1)).bind fun as has => gives_pure ?_
    rw [List.length_cons, has]

/-- Every entry of a vector is as the reader gives it. -/
theorem Gives.vector {what : String} {entry : Reader Fault α} (hentry : entry.Gives P) :
    (vector what entry).Gives fun as => ∀ a ∈ as, P a := by
  refine (gives_true _).bind fun count _ => ?_
  exact Gives.timesFrom (fun _ => hentry.located _) 0 count.toNat

/-! ## What readers leave -/

/-- Two readers one after the other leave no more than was there. -/
theorem Shrinks.bind {r : Reader ε α} {next : α → Reader ε β} (hr : r.Shrinks)
    (hnext : ∀ a, (next a).Shrinks) : (r >>= next).Shrinks := by
  intro c b c' hok
  obtain ⟨a, t, hfirst, hsecond⟩ := estate_bind_eq_ok.mp hok
  exact (hnext a t b c' hsecond).trans (hr c a t hfirst)

/-- A reader that takes nothing leaves everything. -/
theorem shrinks_pure (a : α) : (pure a : Reader ε α).Shrinks := by
  rintro c b c' ⟨⟩
  exact le_rfl

/-- Embedding errors takes no bytes. -/
theorem Shrinks.lift {r : Reader ε α} (hr : r.Shrinks) (embed : ε → ε') :
    (r.lift embed).Shrinks :=
  fun c a c' hok => hr c a c' (lift_eq_ok.mp hok)

/-- Wrapping errors takes no bytes. -/
theorem Shrinks.located {r : Reader ε α} (hr : r.Shrinks) (relabel : Cursor → ε → ε') :
    (r.located relabel).Shrinks :=
  fun c a c' hok => hr c a c' (located_eq_ok.mp hok)

/-- A byte is taken from the front. -/
theorem shrinks_byte : byte.Shrinks := by
  intro c a c' hok
  unfold byte at hok
  cases hrest : c.rest with
  | nil => simp [hrest] at hok
  | cons b rest =>
    simp only [hrest, EStateM.Result.ok.injEq] at hok
    obtain ⟨rfl, rfl⟩ := hok
    simp

/-- A number is taken from the front. -/
theorem shrinks_u32 : u32.Shrinks := by
  refine Shrinks.lift ?_ _
  intro c a c' hok
  obtain ⟨run, rest, hrest, -, rfl⟩ := Leb128.u32_eq_ok_iff.mp hok
  simp [hrest]

/-- Repeating a reader leaves no more than was there. -/
theorem Shrinks.timesFrom {r : Nat → Reader ε α} (hr : ∀ i, (r i).Shrinks) (start n : Nat) :
    (timesFrom start r n).Shrinks := by
  induction n generalizing start with
  | zero => exact shrinks_pure _
  | succ n ih =>
    exact (hr start).bind fun a => (ih (start + 1)).bind fun as => shrinks_pure _

/-- A vector leaves no more than was there. -/
theorem Shrinks.vector {what : String} {entry : Reader Fault α} (hentry : entry.Shrinks) :
    (vector what entry).Shrinks :=
  (shrinks_u32.located _).bind fun count =>
    Shrinks.timesFrom (fun _ => hentry.located _) 0 count.toNat

/-- A reader that always fails leaves nothing to compare. -/
theorem shrinks_failLast (kind : DecodeError.Kind) (detail : String) :
    (failLast kind detail : Reader Fault α).Shrinks := nofun

/-- A refusal leaves nothing to compare. -/
theorem shrinks_refuse (what feature : String) :
    (refuse what feature : Reader Fault α).Shrinks := nofun

/-- A reader that is run on bytes of their own leaves some of them. -/
theorem Gives.nested {r : Reader Fault α} (hr : r.Gives P) (hshrinks : r.Shrinks)
    (own : List UInt8) (origin : Nat) :
    (nested own origin r).Gives fun result =>
      P result.1 ∧ result.2.rest.length ≤ own.length := by
  intro c a c' hok
  unfold Reader.nested at hok
  cases hresult : r { rest := own, origin := some origin } with
  | ok b t =>
    simp only [hresult, EStateM.Result.ok.injEq] at hok
    obtain ⟨rfl, rfl⟩ := hok
    exact ⟨hr _ b t hresult, hshrinks _ b t hresult⟩
  | error e t => simp [hresult] at hok

end Reader

open Reader

/-! ## Texts -/

/-- Bytes are a text exactly if they are its encoding. -/
theorem Text.fromUTF8?_eq_some {bs : List UInt8} {s : String} :
    String.fromUTF8? (ByteArray.mk bs.toArray) = some s ↔ utf8 s = bs := by
  unfold String.fromUTF8? utf8
  split
  · rename_i hvalid
    rw [Option.some.injEq, ← String.toByteArray_inj]
    constructor
    · intro hbytes
      rw [String.toUTF8, ← hbytes]
      rfl
    · rintro rfl
      rfl
  · rename_i hinvalid
    refine ⟨nofun, ?_⟩
    rintro rfl
    exact (hinvalid s.isValidUTF8).elim

/-- A text has a size of 32 bits. -/
theorem Reader.gives_utf8 : utf8.Gives fun s => (Text.utf8 s).length < 2 ^ 32 := by
  refine Gives.bind (P := fun bs => bs.length < 2 ^ 32) ?_ fun bs hbs => ?_
  · refine (gives_true _).bind fun n _ c bs c' hok => ?_
    exact Nat.lt_of_le_of_lt ((gives_bytes n.toNat).lift _ c bs c' hok) n.toNat_lt
  · cases htext : String.fromUTF8? (ByteArray.mk bs.toArray) with
    | none => exact gives_failLast _ _
    | some s => exact gives_pure (by rwa [Text.fromUTF8?_eq_some.mp htext])

/-! ## Entries of sections -/

/-- One of the two integer types. -/
def ValueType.IsInt (t : ValueType) : Prop := ∃ width : IntType, t = width.valueType

/-- Only the integer types are read; the others are refused. -/
theorem ValueType.gives_read : ValueType.read.Gives ValueType.IsInt := by
  refine (gives_true _).bind fun b _ => ?_
  split
  · rename_i hcode
    refine gives_pure ?_
    rcases hcode with rfl | rfl
    · exact ⟨.i32, rfl⟩
    · exact ⟨.i64, rfl⟩
  · split
    · exact gives_refuse _ _
    · exact gives_failLast _ _

/-- There are as many types in a list as its number of 32 bits says. -/
theorem ValueType.gives_readList :
    ValueType.readList.Gives fun types => types.length < 2 ^ 32 ∧ ∀ t ∈ types, t.IsInt :=
  (gives_true _).bind fun count _ c types c' hok => by
    have hints := Gives.timesFrom (fun _ => ValueType.gives_read) 0 count.toNat c types c' hok
    have hlength := gives_length_timesFrom (fun _ => ValueType.read) 0 count.toNat c types c' hok
    exact ⟨hlength ▸ count.toNat_lt, hints⟩

/-- A signature over the integer types with at most one result. -/
structure FuncType.Plain (f : FuncType) : Prop where
  params_lt : f.params.length < 2 ^ 32
  params : ∀ t ∈ f.params, t.IsInt
  results : ∀ t ∈ f.results, t.IsInt
  results_le : f.results.length ≤ 1

/-- A function type is read with integer types only. -/
theorem FuncType.gives_read : FuncType.read.Gives FuncType.Plain := by
  refine (gives_true _).bind fun form _ => ?_
  by_cases hform : form ≠ mark
  · simp only [if_pos hform]
    exact Gives.bind (P := fun _ => False) (gives_failLast _ _) fun _ h => h.elim
  · simp only [if_neg hform]
    refine ValueType.gives_readList.bind fun params hparams => ?_
    refine (gives_true _).bind fun start _ => ?_
    refine ValueType.gives_readList.bind fun results hresults => ?_
    by_cases hmany : 1 < results.length
    · simp only [if_pos hmany]
      exact Gives.bind (P := fun _ => False) (gives_throw _) fun _ h => h.elim
    · simp only [if_neg hmany]
      exact gives_pure ⟨hparams.1, hparams.2, hresults.2, Nat.not_lt.mp hmany⟩

/-- A global is read with an integer type only. -/
theorem GlobalType.gives_read : GlobalType.read.Gives fun g => g.type.IsInt := by
  refine ValueType.gives_read.bind fun type htype => (gives_true _).bind fun m _ => ?_
  split
  · exact gives_pure htype
  · split
    · exact gives_pure htype
    · exact gives_failLast _ _

/-- An import of a global has an integer type, and the name of its module has a 32-bit size. -/
structure Import.Plain (i : Import) : Prop where
  moduleName_lt : (Text.utf8 i.moduleName).length < 2 ^ 32
  global : ∀ g, i.type = .global g → g.type.IsInt

/-- An import is described with integer types only. -/
theorem Import.gives_read : Import.read.Gives Import.Plain := by
  refine gives_utf8.bind fun moduleName hname => (gives_true _).bind fun field _ => ?_
  refine (gives_true _).bind fun kind _ => ?_
  split
  · exact (gives_true _).bind fun type _ => gives_pure ⟨hname, nofun⟩
  · split
    · exact (gives_true _).bind fun limits _ => gives_pure ⟨hname, nofun⟩
    · split
      · refine GlobalType.gives_read.bind fun type htype => gives_pure ⟨hname, ?_⟩
        rintro g ⟨⟩
        exact htype
      · exact gives_refuse _ _

/-- A global is defined with an integer type only. -/
theorem GlobalDef.gives_read : GlobalDef.read.Gives fun g => g.type.type.IsInt :=
  GlobalType.gives_read.bind fun _ htype => (gives_true _).bind fun _ _ => gives_pure htype

/-- Locals are of integer types only. -/
theorem LocalGroup.gives_read : LocalGroup.read.Gives fun g => g.type.IsInt :=
  (gives_true _).bind fun _ _ => ValueType.gives_read.bind fun _ htype => gives_pure htype

/-- A body has locals of integer types, and its code has a 32-bit size. -/
structure FuncBody.Plain (b : FuncBody) : Prop where
  locals : ∀ g ∈ b.locals, g.type.IsInt
  length_lt : b.code.length < 2 ^ 32

/-- A value type is taken from the front. -/
theorem ValueType.shrinks_read : ValueType.read.Shrinks := by
  refine (shrinks_byte.lift _).bind fun b => ?_
  split
  · exact shrinks_pure _
  · split
    · exact shrinks_refuse _ _
    · exact shrinks_failLast _ _

/-- A group of locals is taken from the front. -/
theorem LocalGroup.shrinks_read : LocalGroup.read.Shrinks :=
  shrinks_u32.bind fun _ => ValueType.shrinks_read.bind fun _ => shrinks_pure _

/-- A body has integer locals, and its code is no longer than its size can say. -/
theorem FuncBody.gives_read : FuncBody.read.Gives FuncBody.Plain := by
  refine (gives_true _).bind fun size _ => (gives_true _).bind fun start _ => ?_
  refine ((gives_bytes size.toNat).lift _).bind fun body hbody => ?_
  refine (Gives.nested LocalGroup.gives_read.vector LocalGroup.shrinks_read.vector _ _).bind ?_
  rintro ⟨locals, inner⟩ ⟨hlocals, hinner⟩
  refine gives_pure ⟨hlocals, ?_⟩
  have hsize := size.toNat_lt
  have hle : inner.rest.length ≤ body.length := hinner
  exact Nat.lt_of_le_of_lt (hle.trans hbody) hsize

/-! ## Sections -/

namespace Module

/-- All types of a module are integer types, and all sizes are small. -/
structure Plain (m : Module) : Prop where
  types : ∀ f ∈ m.types.getD [], f.Plain
  imports : ∀ i ∈ m.importList, i.Plain
  globals : ∀ g ∈ m.globals.getD [], g.type.type.IsInt
  code : ∀ b ∈ m.code.getD [], b.Plain

/-- The module without sections is plain. -/
theorem plain_empty : ({} : Module).Plain := by
  constructor <;> simp [importList]

/-- A section is read as it should be and leaves the rest of the module as it is. -/
theorem Plain.readPayload {m : Module} (hm : m.Plain) (id : SectionId) :
    (readPayload m id).Gives Plain := by
  have hkept {α : Type} {r : Reader Fault α} {change : α → Module}
      (hchange : ∀ a, (change a).Plain) : (r >>= fun a => pure (change a)).Gives Plain :=
    (gives_true r).bind fun a _ => gives_pure (hchange a)
  unfold Module.readPayload
  refine .ite ?types <| .ite ?imports <| .ite ?functions <| .ite ?tables <| .ite ?memories <|
    .ite ?globals <| .ite ?exports <| .ite ?start <| .ite ?elements <| .ite ?code <|
    .ite ?data ?custom
  case types =>
    exact FuncType.gives_read.vector.bind fun types htypes => gives_pure { hm with types := htypes }
  case imports =>
    exact Import.gives_read.vector.bind fun imports himports =>
      gives_pure { hm with imports := himports }
  case globals =>
    exact GlobalDef.gives_read.vector.bind fun globals hglobals =>
      gives_pure { hm with globals := hglobals }
  case code =>
    exact FuncBody.gives_read.vector.bind fun code hcode => gives_pure { hm with code := hcode }
  all_goals exact hkept fun _ => { hm with }

/-- Reading a section's payload adds only what is plain. -/
theorem Plain.readSectionPayload {m m' : Module} (hm : m.Plain) {id : SectionId}
    {payload : List UInt8} {start : Nat} (hok : readSectionPayload m id payload start = .ok m') :
    m'.Plain := by
  unfold Module.readSectionPayload at hok
  cases hresult : Module.readPayload m id { rest := payload, origin := some start } with
  | error e c => simp [hresult] at hok
  | ok read c =>
    simp only [hresult] at hok
    split at hok
    · obtain rfl := Except.ok.inj hok
      exact hm.readPayload id _ _ _ hresult
    · cases hok

/-- Reading a section keeps the module plain. -/
theorem Plain.readSection {m : Module} (hm : m.Plain) (id : SectionId) :
    (readSection m id).Gives Plain := by
  refine (gives_true _).bind fun size _ => (gives_true _).bind fun start _ => ?_
  refine (gives_true _).bind fun payload _ => ?_
  cases hresult : Module.readSectionPayload m id payload (start.offset?.getD 0) with
  | error e => exact gives_throw e
  | ok read => exact gives_pure { hm.readSectionPayload hresult with }

/-- Reading all sections keeps the module plain. -/
theorem Plain.readSections (fuel : Nat) (last : SectionId) {m : Module} (hm : m.Plain) :
    (readSections fuel last m).Gives Plain := by
  induction fuel generalizing last m with
  | zero => exact gives_pure hm
  | succ fuel ih =>
    intro c m' c' hok
    unfold Module.readSections at hok
    split at hok
    · obtain ⟨rfl, rfl⟩ := EStateM.Result.ok.inj hok
      exact hm
    · cases hok
    · split at hok
      · cases hok
      · split at hok
        · cases hok
        · rename_i hread
          exact ih _ (hm.readSection _ _ _ _ hread) _ _ _ hok

/-- A module that was decoded has integer types only, and its sizes are small. -/
theorem plain_of_decode {bytes : List UInt8} {ending : Ending} {m : Module}
    (hok : decode bytes ending = .ok m) : m.Plain := by
  have hread : Module.read.Gives Plain := by
    refine (gives_true _).bind fun first _ => ?_
    by_cases hmagic : first ≠ magic
    · simp only [if_pos hmagic]
      exact Gives.bind (P := fun _ => False) (gives_throw _) fun _ h => h.elim
    · simp only [if_neg hmagic]
      refine (gives_true _).bind fun second _ => ?_
      by_cases hversion : second ≠ version
      · simp only [if_pos hversion]
        exact Gives.bind (P := fun _ => False) (gives_throw _) fun _ h => h.elim
      · simp only [if_neg hversion]
        exact (gives_true _).bind fun c _ => plain_empty.readSections _ _
  unfold decode at hok
  cases hresult : Module.read { rest := bytes, origin := some 0, ending } with
  | error e c => simp [hresult] at hok
  | ok read c =>
    simp only [hresult, Except.ok.injEq] at hok
    obtain rfl := hok
    exact hread _ _ _ hresult

end Module

end IntWasm
