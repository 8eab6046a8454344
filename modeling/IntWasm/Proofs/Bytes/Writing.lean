import IntWasm.Module.Write

/-!
# What writers write

Every writer of the library puts a fixed run of bytes into its sink, whatever the sink holds
already. If the run does not fit, the sink keeps a beginning of it and is full. So writers can be
compared by their bytes alone. Main statements: `Writer.Does.andThen`, which composes writers, and
`Writer.Puts.produced`, what a writer makes of an empty sink.
-/

namespace IntWasm

/-! ## Sinks -/

namespace Sink

variable (s : Sink) (as bs : List UInt8)

/-- Writing nothing always succeeds. -/
theorem put_nil : s.put [] = (s, true) := by
  obtain ⟨kept, room⟩ := s
  cases room <;> simp [put]

/-- Two runs of bytes are put one after the other, unless the first does not fit. -/
theorem put_append :
    s.put (as ++ bs) = if (s.put as).2 then (s.put as).1.put bs else ((s.put as).1, false) := by
  obtain ⟨kept, room⟩ := s
  have hassoc (cs : List UInt8) : kept ++ (as ++ cs) = kept ++ as ++ cs :=
    Array.toList_inj.mp (by simp)
  cases room with
  | none => simp [put, hassoc]
  | some room =>
    by_cases hfirst : as.length ≤ room
    · by_cases hboth : as.length + bs.length ≤ room
      · have hrest : bs.length ≤ room - as.length := by omega
        simp [put, hfirst, hboth, hrest, hassoc, Nat.sub_sub]
      · have hrest : ¬ bs.length ≤ room - as.length := by omega
        simp [put, hfirst, hboth, hrest, hassoc, List.take_append, List.take_of_length_le hfirst]
    · have hboth : ¬ as.length + bs.length ≤ room := by omega
      simp [put, hfirst, hboth, List.take_append, Nat.sub_eq_zero_of_le (Nat.le_of_not_le hfirst)]

variable {s}

/-- A sink without a bound keeps all that is written. -/
theorem put_of_unbounded (hroom : s.room = none) (bs : List UInt8) :
    s.put bs = ({ s with kept := s.kept ++ bs }, true) := by
  simp [put, hroom]

end Sink

/-! ## Writers -/

namespace Writer

variable {ε ε' α : Type}

/-- What a writer does to every sink: it puts a run of bytes into it and ends in a given way. It
ends earlier if the bytes do not all fit. -/
def Does (embed : WriteFault → ε) (w : Writer ε Unit) (bs : List UInt8)
    (ending : Option ε) : Prop :=
  ∀ s, w s =
    if (s.put bs).2 then
      match ending with
      | none => .ok () (s.put bs).1
      | some e => .error e (s.put bs).1
    else .error (embed .full) (s.put bs).1

/-- A writer puts a run of bytes into every sink and succeeds if they fit. -/
abbrev Puts (embed : WriteFault → ε) (w : Writer ε Unit) (bs : List UInt8) : Prop :=
  Does embed w bs none

variable {embed : WriteFault → ε}

/-- Bytes are written as they are. -/
theorem puts_bytes (bs : List UInt8) : Puts id (bytes bs) bs := by
  intro s
  unfold bytes
  cases hput : s.put bs with
  | mk s' fits => cases fits <;> rfl

/-- A byte is written as it is. -/
theorem puts_byte (b : UInt8) : Puts id (byte b) [b] := puts_bytes [b]

/-- A writer that does nothing writes nothing. -/
theorem puts_pure : Puts embed (pure ()) [] := by
  intro s
  rw [Sink.put_nil]
  rfl

/-- A writer that fails at once has written nothing. -/
theorem does_throw (e : ε) : Does embed (throw e) [] (some e) := by
  intro s
  rw [Sink.put_nil]
  rfl

/-- Embedding faults does not change what is written. -/
theorem Does.lift {w : Writer WriteFault Unit} {bs : List UInt8} (hputs : Puts id w bs) :
    Puts embed (Writer.lift embed w) bs := by
  intro s
  unfold Writer.lift
  rw [hputs s]
  cases (s.put bs).2 <;> rfl

/-- One writer after another puts both runs of bytes. -/
theorem Does.andThen {w w' : Writer ε Unit} {as bs : List UInt8} {ending : Option ε}
    (hfirst : Puts embed w as) (hsecond : Does embed w' bs ending) :
    Does embed (w >>= fun _ => w') (as ++ bs) ending := by
  intro s
  simp only [Bind.bind, EStateM.bind, hfirst s, Sink.put_append]
  cases hfits : (s.put as).2 with
  | false => simp
  | true => simpa using hsecond (s.put as).1

/-- Nothing follows a writer that fails. -/
theorem Does.stop {w : Writer ε Unit} {next : Unit → Writer ε Unit} {bs : List UInt8} {e : ε}
    (hends : Does embed w bs (some e)) : Does embed (w >>= next) bs (some e) := by
  intro s
  simp only [Bind.bind, EStateM.bind, hends s]
  cases (s.put bs).2 <;> rfl

/-- The entries of a list are put one after another. -/
theorem puts_each {write : α → Writer ε Unit} {encode : α → List UInt8} {entries : List α}
    (hentries : ∀ a ∈ entries, Puts embed (write a) (encode a)) :
    Puts embed (each write entries) (entries.flatMap encode) := by
  induction entries with
  | nil => exact puts_pure
  | cons a entries ih =>
    rw [List.flatMap_cons]
    exact (hentries a (by simp)).andThen (ih fun b hb => hentries b (by simp [hb]))

/-- Into a sink without a bound everything is written. -/
theorem Does.eq_of_unbounded {w : Writer ε Unit} {bs : List UInt8} (hputs : Puts embed w bs)
    {s : Sink} (hroom : s.room = none) : w s = .ok () { s with kept := s.kept ++ bs } := by
  simp [hputs s, Sink.put_of_unbounded hroom]

/-- What a writer puts is what it produces. -/
theorem Puts.produced {w : Writer ε Unit} {bs : List UInt8} (hputs : Puts embed w bs) :
    w.produced = bs := by
  simp [Writer.produced, hputs.eq_of_unbounded (s := {}) rfl]

end Writer

/-! ## Parts of modules -/

namespace Encoder

/-- Bytes after their number. -/
def sizedBytes (bs : List UInt8) : List UInt8 := Leb128.encodeNat (bs.length % 0x100000000) ++ bs

/-- The bytes of entries after the number of the entries. -/
def vectorBytes {α : Type} (encode : α → List UInt8) (entries : List α) : List UInt8 :=
  Leb128.encodeNat (entries.length % 0x100000000) ++ entries.flatMap encode

/-- Bytes are written after their number. -/
theorem puts_sized (bs : List UInt8) : Writer.Puts id (sized bs) (sizedBytes bs) :=
  (Writer.puts_bytes _).andThen (Writer.puts_bytes bs)

/-- Entries are written one after the other, after their number. -/
theorem puts_vector {α : Type} {entry : α → Encoder} {encode : α → List UInt8} {entries : List α}
    (hentries : ∀ a ∈ entries, Writer.Puts id (entry a) (encode a)) :
    Writer.Puts id (vector entry entries) (vectorBytes encode entries) :=
  (Writer.puts_bytes _).andThen (Writer.puts_each hentries)

end Encoder

/-- The bytes of a signature. -/
def FuncType.bytes (f : FuncType) : List UInt8 :=
  0x60 :: (Encoder.vectorBytes (fun t => [t.code]) f.params ++
    Encoder.vectorBytes (fun t => [t.code]) f.results)

/-- A function type is written as its bytes. -/
theorem FuncType.puts_write (f : FuncType) : Writer.Puts id f.write f.bytes :=
  (Writer.puts_byte 0x60).andThen
    ((Encoder.puts_vector fun t _ => Writer.puts_byte t.code).andThen
      (Encoder.puts_vector fun t _ => Writer.puts_byte t.code))

end IntWasm
