import IntWasm.Proofs.Bytes.Reading
import IntWasm.Proofs.Leb128.Shortest

/-!
# What readers take from what was written

A reader takes a run of bytes for a value if it gives the value wherever the run stands in front of
its input. A reader of a form takes every run of the form, and a reader that is made of others takes
their runs one after another. The readers of numbers take what is written for numbers. Of a run that
is cut off nothing is read. Main statements: `Reader.Takes.bind` and `Reader.Takes.cut`.
-/

namespace IntWasm.Reader

open Leb128

variable {ε ε' α β : Type} {r : Reader ε α} {run more : List UInt8} {a : α} {b : β}

/-- A reader gives a value wherever a run of bytes stands in front, and goes on behind the run. -/
def Takes (r : Reader ε α) (run : List UInt8) (a : α) : Prop :=
  ∀ c rest, c.rest = run ++ rest → r c = .ok a (c.past run rest)

/-- A reader of a form takes its runs. -/
theorem ReadsAt.takes {G : Form α} (hr : r.Reads G) (hrun : G a run) : r.Takes run a :=
  fun _ _ hrest => hr.ok hrest hrun

/-- A reader that takes nothing takes the empty run. -/
theorem takes_pure (a : α) : (pure a : Reader ε α).Takes [] a :=
  (reads_pure a).takes ⟨rfl, rfl⟩

/-- A reader after another takes its run behind the other's run. -/
theorem Takes.bind {next : α → Reader ε β} (hr : r.Takes run a) (hnext : (next a).Takes more b) :
    (r >>= next).Takes (run ++ more) b := by
  intro c rest hrest
  rw [List.append_assoc] at hrest
  have hfirst := hr c _ hrest
  have hsecond := hnext (c.past run (more ++ rest)) rest (c.rest_past run (more ++ rest))
  rw [estate_bind_of_ok hfirst, hsecond, Cursor.past_past]

/-- A reader whose result is only rearranged. -/
theorem Takes.map (hr : r.Takes run a) (f : α → β) :
    (r >>= fun a => pure (f a)).Takes run (f a) := by
  have hboth : (r >>= fun a => pure (f a)).Takes (run ++ []) (f a) := hr.bind (takes_pure (f a))
  rwa [List.append_nil] at hboth

/-- Embedding errors does not change what is taken. -/
theorem Takes.lift (hr : r.Takes run a) (embed : ε → ε') : (r.lift embed).Takes run a := by
  intro c rest hrest
  rw [Reader.lift, hr c rest hrest]

/-- A reader that sees as many bytes as its run has takes the run. -/
theorem Takes.within (hr : r.Takes run a) : (within run.length r).Takes run a := by
  intro c rest hrest
  have hroom : run.length ≤ c.rest.length := by
    rw [hrest, List.length_append]
    omega
  have hinner := hr { rest := c.rest.take run.length, ending := .eof } [] (by
    rw [hrest, List.take_left, List.append_nil])
  simp only [Reader.within, if_pos hroom, hinner, Cursor.past, Nat.zero_add]
  rw [c.advance_eq_past, hrest, List.take_left, List.drop_left]
  rfl

/-! ## Numbers and texts -/

/-- A byte is taken. -/
theorem takes_byte (b : UInt8) : byte.Takes [b] b := reads_byte.takes rfl

/-- A number is taken from its shortest spelling. -/
theorem takes_u32 (n : UInt32) : Leb128.u32.Takes (encodeU32 n) n :=
  reads_leb128_u32.takes (spellsUnsigned_encodeNat n.toNat_lt)

/-- A signed number is taken from its shortest spelling. -/
theorem takes_s32 (n : Int32) : Leb128.s32.Takes (encodeS32 n) n :=
  fun _ rest hrest => s32_eq_ok_iff.mpr ⟨_, rest, hrest, spellsSigned_encodeS32 n, rfl⟩

/-- A signed number is taken from any of its spellings. -/
theorem takes_s64 {n : Int64} (hrun : SpellsSigned 64 n.toInt run) : Leb128.s64.Takes run n :=
  fun _ rest hrest => s64_eq_ok_iff.mpr ⟨_, rest, hrest, hrun, rfl⟩

/-- As many entries as there are values are taken one after another. -/
theorem Takes.timesFrom {read : Nat → Reader ε α} {write : β → List UInt8} {value : β → α}
    (hread : ∀ i b, (read i).Takes (write b) (value b)) (start : Nat) (entries : List β) :
    (timesFrom start read entries.length).Takes (entries.flatMap write) (entries.map value) := by
  induction entries generalizing start with
  | nil => exact takes_pure []
  | cons b entries ih =>
    rw [List.flatMap_cons, List.map_cons]
    exact (hread start b).bind ((ih (start + 1)).map (value b :: ·))

/-! ## Runs that are cut off -/

/-- A reader that reads some form. -/
def Formed (r : Reader ε α) : Prop := ∃ G : Form α, r.Reads G

/-- A reader that takes nothing has a form. -/
theorem formed_pure (a : α) : (pure a : Reader ε α).Formed := ⟨_, reads_pure a⟩

/-- A reader that fails has a form. -/
theorem formed_throw (e : ε) : (throw e : Reader ε α).Formed := ⟨_, reads_throw e⟩

/-- Two readers that have forms have one together. -/
theorem Formed.bind {next : α → Reader ε β} (hr : r.Formed) (hnext : ∀ a, (next a).Formed) :
    (r >>= next).Formed := by
  obtain ⟨G, hG⟩ := hr
  choose H hH using hnext
  exact ⟨fun b run => ∃ a head tail, run = head ++ tail ∧ G a head ∧ H a b tail, ReadsAt.bind hG hH⟩

/-- Embedding errors keeps the form. -/
theorem Formed.lift (hr : r.Formed) (embed : ε → ε') : (r.lift embed).Formed := by
  obtain ⟨G, hG⟩ := hr
  exact ⟨G, hG.lift embed⟩

/-- A run that is cut off before its end is not taken for anything: what was read from the part
would have been read from the whole run as well. -/
theorem Takes.cut (htakes : r.Takes run a) (hformed : r.Formed) {k : Nat} (hlt : k < run.length)
    {c : Cursor} (hrest : c.rest = run.take k) : ∃ e t, r c = .error e t := by
  obtain ⟨G, hG⟩ := hformed
  cases hcut : r c with
  | error e t => exact ⟨e, t, rfl⟩
  | ok b t =>
    obtain ⟨used, left, hsplit, hused, -⟩ := (hG c b t).mp hcut
    have hwhole : run = used ++ (left ++ run.drop k) := by
      rw [← List.append_assoc, ← hsplit, hrest, List.take_append_drop]
    have hpart : r { c with rest := run } = .ok b (c.past used (left ++ run.drop k)) :=
      hG.ok hwhole hused
    have hall : r { c with rest := run } = .ok a (c.past run []) :=
      htakes { c with rest := run } [] (List.append_nil run).symm
    have hleft : [] = left ++ run.drop k :=
      congrArg Cursor.rest (EStateM.Result.ok.inj (hall.symm.trans hpart)).2
    have hdrop := congrArg List.length (List.append_eq_nil_iff.mp hleft.symm).2
    rw [List.length_drop, List.length_nil] at hdrop
    omega

end IntWasm.Reader
