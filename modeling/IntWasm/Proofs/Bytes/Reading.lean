import IntWasm.Module.Read
import IntWasm.Proofs.Leb128.Runs

/-!
# What readers read

A form says which runs of bytes stand for a value. A reader of the form takes such a run off the
front of its input and gives the value; it gives nothing if there is no such run. The forms of a
reader's steps make up its own form, so a reader is described once and for both directions: what it
accepts, and what was there when it did. Main statement: `Reader.ReadsAt.bind`, which composes
readers.
-/

namespace IntWasm

open Leb128

/-! ## Forms -/

/-- Which runs of bytes stand for a value. -/
abbrev Form (α : Type) := α → List UInt8 → Prop

/-- Which runs of bytes stand for a value, given the place of the first byte. -/
abbrev PlacedForm (α : Type) := Option Nat → Form α

variable {α : Type}

/-- Values one after another. -/
def Form.Row (G : Form α) : Form (List α)
  | [], run => run = []
  | a :: as, run => ∃ head tail, run = head ++ tail ∧ G a head ∧ Row G as tail

/-- Values one after another behind their number. -/
def Form.Counted (G : Form α) : Form (List α) := fun as run =>
  ∃ count tail, run = count ++ tail ∧ SpellsUnsigned 32 as.length count ∧ G.Row as tail

/-- Values one after another, each at its place. -/
def PlacedForm.Row (G : PlacedForm α) : PlacedForm (List α)
  | _, [], run => run = []
  | place, a :: as, run =>
    ∃ head tail, run = head ++ tail ∧ G place a head ∧ Row G (place.map (· + head.length)) as tail

/-- Values one after another behind their number, each at its place. -/
def PlacedForm.Counted (G : PlacedForm α) : PlacedForm (List α) := fun place as run =>
  ∃ count tail, run = count ++ tail ∧ SpellsUnsigned 32 as.length count ∧
    G.Row (place.map (· + count.length)) as tail

/-- The place does not matter to values whose forms do not depend on it. -/
theorem PlacedForm.row_iff {G : Form α} {place : Option Nat} {as : List α} {run : List UInt8} :
    PlacedForm.Row (fun _ => G) place as run ↔ G.Row as run := by
  induction as generalizing place run with
  | nil => exact Iff.rfl
  | cons a as ih => simp only [PlacedForm.Row, Form.Row, ih]

/-- Bytes behind their number. -/
def Form.Sized : Form (List UInt8) := fun bytes run =>
  ∃ size, run = size ++ bytes ∧ SpellsUnsigned 32 bytes.length size

/-- The cursor after a run of bytes. -/
def Cursor.past (c : Cursor) (run rest : List UInt8) : Cursor :=
  { c with rest, consumed := c.consumed + run.length }

namespace Cursor

variable (c : Cursor) (run rest more end' : List UInt8)

/-- What is left past a run. -/
@[simp] theorem rest_past : (c.past run rest).rest = rest := rfl

/-- The offset moves by the length of the run. -/
@[simp] theorem offset?_past : (c.past run rest).offset? = c.offset?.map (· + run.length) := by
  unfold past offset?
  cases c.origin with
  | none => rfl
  | some origin => simp [Nat.add_assoc]

/-- A cursor that starts at a place of the file is there. -/
@[simp] theorem offset?_start (bytes : List UInt8) (origin : Nat) :
    ({ rest := bytes, origin := some origin } : Cursor).offset? = some origin := rfl

/-- Nothing has been passed over. -/
theorem past_nil : c.past [] c.rest = c := rfl

/-- Two runs are passed over one after the other. -/
@[simp] theorem past_past : (c.past run rest).past more end' = c.past (run ++ more) end' := by
  simp [past, Nat.add_assoc]

/-- Advancing passes over the first bytes. -/
theorem advance_eq_past (n : Nat) : c.advance n = c.past (c.rest.take n) (c.rest.drop n) := by
  simp [advance, past]

end Cursor

/-! ## Readers -/

/-- A step that succeeds is followed by the next one. -/
theorem estate_bind_of_ok {ε σ α β : Type} {x : EStateM ε σ α} {next : α → EStateM ε σ β} {s t : σ}
    {a : α} (hx : x s = .ok a t) : (x >>= next) s = next a t := by
  simp only [Bind.bind, EStateM.bind, hx]

/-- A step that fails ends everything. -/
theorem estate_bind_of_error {ε σ α β : Type} {x : EStateM ε σ α} {next : α → EStateM ε σ β}
    {s t : σ} {e : ε} (hx : x s = .error e t) : (x >>= next) s = .error e t := by
  simp only [Bind.bind, EStateM.bind, hx]

namespace Reader

variable {ε ε' α β : Type} {G : PlacedForm α}

/-- A reader reads a form: it gives a value if and only if a run for the value stands in front, and
goes on behind that run. -/
def ReadsAt (r : Reader ε α) (G : PlacedForm α) : Prop :=
  ∀ c a c', r c = .ok a c' ↔
    ∃ run rest, c.rest = run ++ rest ∧ G c.offset? a run ∧ c.past run rest = c'

/-- A reader reads a form that does not depend on the place. -/
abbrev Reads (r : Reader ε α) (G : Form α) : Prop := r.ReadsAt fun _ => G

/-- Forms that have the same runs are read by the same readers. -/
theorem ReadsAt.congr {r : Reader ε α} {G' : PlacedForm α} (hr : r.ReadsAt G)
    (hforms : ∀ place a run, G place a run ↔ G' place a run) : r.ReadsAt G' := by
  intro c a c'
  simp only [hr c a c', hforms]

/-- A run of the form is read and passed over. -/
theorem ReadsAt.ok {r : Reader ε α} (hr : r.ReadsAt G) {c : Cursor} {a : α} {run rest : List UInt8}
    (hrest : c.rest = run ++ rest) (hrun : G c.offset? a run) : r c = .ok a (c.past run rest) :=
  (hr c a _).mpr ⟨run, rest, hrest, hrun, rfl⟩

/-- A reader that gives nothing reads what nothing stands for. -/
theorem reads_never {r : Reader ε α} (hr : ∀ c a c', r c ≠ .ok a c') :
    r.Reads fun _ _ => False := by
  intro c a c'
  constructor
  · intro hok
    exact (hr c a c' hok).elim
  · rintro ⟨_, _, _, hfalse, _⟩
    exact hfalse.elim

/-- A reader that fails reads no form. -/
theorem reads_throw (e : ε) : (throw e : Reader ε α).Reads fun _ _ => False :=
  reads_never fun _ _ _ => estate_throw_ne_ok

/-- A refusal reads no form. -/
theorem reads_failLast (kind : DecodeError.Kind) (detail : String) :
    (failLast kind detail : Reader Fault α).Reads fun _ _ => False :=
  reads_never nofun

/-- A refused feature is no form. -/
theorem reads_refuse (what feature : String) :
    (refuse what feature : Reader Fault α).Reads fun _ _ => False :=
  reads_never nofun

/-- A reader that takes nothing reads the empty run. -/
theorem reads_pure (a : α) : (pure a : Reader ε α).Reads fun b run => b = a ∧ run = [] := by
  intro c b c'
  rw [estate_pure_eq_ok]
  constructor
  · rintro ⟨rfl, rfl⟩
    exact ⟨[], c.rest, rfl, ⟨rfl, rfl⟩, c.past_nil⟩
  · rintro ⟨run, rest, hrest, ⟨rfl, rfl⟩, rfl⟩
    obtain rfl : c.rest = rest := hrest
    exact ⟨rfl, rfl⟩

/-- A reader after another reads a run behind the other's run. -/
theorem ReadsAt.bind {r : Reader ε α} {next : α → Reader ε β} {H : α → PlacedForm β}
    (hr : r.ReadsAt G) (hnext : ∀ a, (next a).ReadsAt (H a)) :
    (r >>= next).ReadsAt fun place b run =>
      ∃ a head tail, run = head ++ tail ∧ G place a head ∧
        H a (place.map (· + head.length)) b tail := by
  intro c b c'
  rw [estate_bind_eq_ok]
  constructor
  · rintro ⟨a, t, hfirst, hsecond⟩
    obtain ⟨head, middle, hc, hhead, rfl⟩ := (hr c a t).mp hfirst
    obtain ⟨tail, rest, hmiddle, htail, rfl⟩ := (hnext a _ b c').mp hsecond
    refine ⟨head ++ tail, rest, ?_, ⟨a, head, tail, rfl, hhead, ?_⟩, ?_⟩
    · rw [hc, ← Cursor.rest_past c head middle, hmiddle, List.append_assoc]
    · simpa using htail
    · simp
  · rintro ⟨run, rest, hc, ⟨a, head, tail, rfl, hhead, htail⟩, rfl⟩
    rw [List.append_assoc] at hc
    refine ⟨a, c.past head (tail ++ rest), hr.ok hc hhead, ?_⟩
    rw [(hnext a).ok (c.rest_past head (tail ++ rest)) (by simpa using htail), Cursor.past_past]

/-- A reader whose result is only rearranged. -/
theorem ReadsAt.map {r : Reader ε α} (hr : r.ReadsAt G) (f : α → β) :
    (r >>= fun a => pure (f a)).ReadsAt fun place b run => ∃ a, b = f a ∧ G place a run := by
  refine (hr.bind fun a => reads_pure (f a)).congr fun place b run => ?_
  constructor
  · rintro ⟨a, head, tail, rfl, hhead, rfl, rfl⟩
    exact ⟨a, rfl, by rwa [List.append_nil]⟩
  · rintro ⟨a, rfl, hrun⟩
    exact ⟨a, run, [], by simp, hrun, rfl, rfl⟩

/-- Looking at the position reads nothing; what follows may depend on the place. -/
theorem ReadsAt.afterPlace {next : Cursor → Reader ε α} {H : Option Nat → PlacedForm α}
    (hnext : ∀ t, (next t).ReadsAt (H t.offset?)) :
    (cursor >>= next).ReadsAt fun place => H place place := by
  intro c a c'
  rw [estate_bind_eq_ok, ← hnext c c a c']
  constructor
  · rintro ⟨t, s, hget, hok⟩
    obtain ⟨rfl, rfl⟩ := estate_get_eq_ok.mp hget
    exact hok
  · intro hok
    exact ⟨c, c, rfl, hok⟩

/-- Nothing is given behind a reader that gives nothing. -/
theorem never_bind {r : Reader ε α} (hr : r.Reads fun _ _ => False) (next : α → Reader ε β) :
    (r >>= next).Reads fun _ _ => False := by
  refine reads_never fun c b c' hok => ?_
  obtain ⟨a, t, hfirst, -⟩ := estate_bind_eq_ok.mp hok
  obtain ⟨-, -, -, hfalse, -⟩ := (hr c a t).mp hfirst
  exact hfalse

/-- A reader that gives nothing reads every form that nothing stands for. -/
theorem ReadsAt.of_never {r : Reader ε α} (hr : r.Reads fun _ _ => False)
    (hnone : ∀ place a run, ¬ G place a run) : r.ReadsAt G :=
  hr.congr fun place a run => ⟨False.elim, hnone place a run⟩

/-- What follows does not depend on the position. -/
theorem ReadsAt.afterCursor {next : Cursor → Reader ε α} (hnext : ∀ t, (next t).ReadsAt G) :
    (cursor >>= next).ReadsAt G :=
  ReadsAt.afterPlace (H := fun _ => G) hnext

/-- Wrapping errors does not change the form. -/
theorem ReadsAt.located {r : Reader ε α} (hr : r.ReadsAt G) (relabel : Cursor → ε → ε') :
    (r.located relabel).ReadsAt G := by
  intro c a c'
  rw [← hr c a c']
  unfold Reader.located
  cases r c with
  | ok b t => simp
  | error e t => simp

/-- Embedding errors does not change the form. -/
theorem ReadsAt.lift {r : Reader ε α} (hr : r.ReadsAt G) (embed : ε → ε') :
    (r.lift embed).ReadsAt G :=
  hr.located fun _ e => embed e

/-! ## Bytes and numbers -/

/-- A byte is a run of one. -/
theorem reads_byte : byte.Reads fun b run => run = [b] := by
  intro c b c'
  unfold byte
  cases hrest : c.rest with
  | nil => simp
  | cons head rest =>
    simp only [EStateM.Result.ok.injEq]
    constructor
    · rintro ⟨rfl, rfl⟩
      exact ⟨[head], rest, rfl, rfl, rfl⟩
    · rintro ⟨_, tail, hsplit, rfl, rfl⟩
      obtain ⟨rfl, rfl⟩ := List.cons.inj hsplit
      exact ⟨rfl, rfl⟩

/-- A byte within an entry is a run of one. -/
theorem reads_innerByte : innerByte.Reads fun b run => run = [b] := reads_byte.lift _

/-- A byte of the format is a run of one. -/
theorem reads_u8 : u8.Reads fun b run => run = [b] := reads_byte.lift _

/-- Bytes are a run of the length that is asked for. -/
theorem reads_bytes (n : Nat) : (bytes n).Reads fun bs run => bs = run ∧ run.length = n := by
  intro c bs c'
  unfold bytes
  by_cases henough : n ≤ c.rest.length
  · simp only [if_pos henough, EStateM.Result.ok.injEq, c.advance_eq_past]
    constructor
    · rintro ⟨rfl, rfl⟩
      exact ⟨_, _, (List.take_append_drop n c.rest).symm, ⟨rfl, by simpa using henough⟩, rfl⟩
    · rintro ⟨run, rest, hrest, ⟨rfl, rfl⟩, rfl⟩
      simp [hrest]
  · rw [if_neg henough]
    constructor
    · intro hok
      cases hok
    · rintro ⟨run, rest, hrest, ⟨rfl, rfl⟩, -⟩
      rw [hrest, List.length_append] at henough
      omega

/-- The form of a 32-bit number. -/
def U32 : Form UInt32 := fun n run => SpellsUnsigned 32 n.toNat run

/-- A number of 32 bits is read from any of its spellings. -/
theorem reads_leb128_u32 : Leb128.u32.Reads U32 := fun _ _ _ => u32_eq_ok_iff

/-- So is a number of the format. -/
theorem reads_u32 : u32.Reads U32 := reads_leb128_u32.lift _

/-- A number below its bound is a 32-bit number. -/
theorem exists_u32 {n : Nat} {run : List UInt8} (hrun : SpellsUnsigned 32 n run) :
    ∃ v : UInt32, v.toNat = n := by
  refine ⟨UInt32.ofNat n, ?_⟩
  rw [UInt32.toNat_ofNat', Nat.mod_eq_of_lt hrun.value_lt]

/-! ## Rows -/

/-- Repeating a reader reads a row of its form. -/
theorem ReadsAt.timesFrom {r : Nat → Reader ε α} (hr : ∀ i, (r i).ReadsAt G) (start n : Nat) :
    (timesFrom start r n).ReadsAt fun place as run => as.length = n ∧ G.Row place as run := by
  induction n generalizing start with
  | zero =>
    refine (reads_pure []).congr fun place as run => ?_
    constructor
    · rintro ⟨rfl, rfl⟩
      exact ⟨rfl, rfl⟩
    · rintro ⟨hlength, hrow⟩
      obtain rfl := List.eq_nil_of_length_eq_zero hlength
      exact ⟨rfl, hrow⟩
  | succ n ih =>
    refine ((hr start).bind fun a => (ih (start + 1)).map (a :: ·)).congr fun place as run => ?_
    constructor
    · rintro ⟨a, head, tail, rfl, hhead, rest, rfl, rfl, htail⟩
      exact ⟨rfl, head, tail, rfl, hhead, htail⟩
    · rintro ⟨hlength, hrow⟩
      obtain ⟨a, rest, rfl⟩ := List.exists_cons_of_length_eq_add_one hlength
      obtain ⟨head, tail, rfl, hhead, htail⟩ := hrow
      exact ⟨a, head, tail, rfl, hhead, rest, rfl, by simpa using hlength, htail⟩

/-- A count and as many entries are the entries behind their number. -/
theorem ReadsAt.counted {count : Reader ε UInt32} {entries : UInt32 → Reader ε (List α)}
    (hcount : count.Reads U32)
    (hentries : ∀ n, (entries n).ReadsAt fun place as run => as.length = n.toNat ∧
      G.Row place as run) :
    (count >>= entries).ReadsAt G.Counted := by
  refine (hcount.bind hentries).congr fun place as run => ?_
  constructor
  · rintro ⟨n, head, tail, rfl, hhead, hlength, htail⟩
    exact ⟨head, tail, rfl, hlength ▸ hhead, htail⟩
  · rintro ⟨head, tail, rfl, hhead, htail⟩
    obtain ⟨n, hn⟩ := exists_u32 hhead
    exact ⟨n, head, tail, rfl, show SpellsUnsigned 32 n.toNat head from hn ▸ hhead, hn.symm, htail⟩

/-- A vector is a count and a row. -/
theorem ReadsAt.vector {what : String} {entry : Reader Fault α} (hentry : entry.ReadsAt G) :
    (vector what entry).ReadsAt G.Counted :=
  ReadsAt.counted (reads_u32.located _) fun n =>
    ReadsAt.timesFrom (fun _ => hentry.located _) 0 n.toNat

/-- A form that does not depend on its place may be counted without places. -/
theorem Reads.counted {r : Reader ε (List α)} {G : Form α}
    (hr : r.ReadsAt (PlacedForm.Counted fun _ => G)) : r.Reads G.Counted :=
  hr.congr fun _ _ _ => by simp only [PlacedForm.Counted, Form.Counted, PlacedForm.row_iff]

/-- The case of entries that do not depend on their places. -/
theorem Reads.vector {what : String} {entry : Reader Fault α} {G : Form α}
    (hentry : entry.Reads G) : (Reader.vector what entry).Reads G.Counted :=
  Reads.counted (ReadsAt.vector hentry)

/-- A sized run is its length and its bytes. -/
theorem reads_sized : sized.Reads Form.Sized := by
  refine (reads_u32.bind fun n => (reads_bytes n.toNat).lift _).congr fun place bs run => ?_
  constructor
  · rintro ⟨n, head, tail, rfl, hhead, rfl, hlength⟩
    exact ⟨head, rfl, hlength ▸ hhead⟩
  · rintro ⟨size, rfl, hsize⟩
    obtain ⟨n, hn⟩ := exists_u32 hsize
    exact ⟨n, size, bs, rfl, show SpellsUnsigned 32 n.toNat size from hn ▸ hsize, rfl, hn.symm⟩

/-! ## Bytes of their own -/

/-- A reader that is run on bytes of their own reads nothing of the others. -/
theorem ReadsAt.nested {r : Reader Fault α} (hr : r.ReadsAt G) (own : List UInt8) (origin : Nat) :
    (nested own origin r).Reads fun result run =>
      run = [] ∧ ∃ used rest, own = used ++ rest ∧ G (some origin) result.1 used ∧
        ({ rest := own, origin := some origin } : Cursor).past used rest = result.2 := by
  have hown := hr { rest := own, origin := some origin }
  rintro c ⟨a, inner⟩ c'
  unfold Reader.nested
  constructor
  · intro hok
    cases hresult : r { rest := own, origin := some origin } with
    | error e t => simp [hresult] at hok
    | ok b t =>
      simp only [hresult, EStateM.Result.ok.injEq, Prod.mk.injEq] at hok
      obtain ⟨⟨rfl, rfl⟩, rfl⟩ := hok
      exact ⟨[], c.rest, rfl, ⟨rfl, (hown b t).mp hresult⟩, c.past_nil⟩
  · rintro ⟨run, rest, hrest, ⟨rfl, hused⟩, rfl⟩
    obtain rfl : c.rest = rest := hrest
    simp [(hown a inner).mpr hused, c.past_nil]

end Reader

end IntWasm
