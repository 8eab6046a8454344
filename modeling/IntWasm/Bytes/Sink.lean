/-!
# Writing bytes to an output that may fill up

A `Sink` keeps what was written and knows how much room is left, if its room is bounded at all.
A `Writer` that does not fit keeps the bytes that do and then fails, so what has been kept is
always a beginning of what would have been written.
-/

namespace IntWasm

/-- The output has no room for all that was to be written. -/
inductive WriteFault where
  | full
  deriving Repr, DecidableEq, Inhabited

/-- The text that is shown for a fault. -/
def WriteFault.message : WriteFault → String
  | full => "write failed"

/-- An output and the room that it has left; `none` is room without end. -/
structure Sink where
  kept : Array UInt8 := #[]
  room : Option Nat := none
  deriving Repr, DecidableEq, Inhabited

namespace Sink

/-- The sink after a write, and whether all of it fitted. Writing nothing always fits. -/
def put (s : Sink) (bytes : List UInt8) : Sink × Bool :=
  match s.room with
  | none => ({ s with kept := s.kept ++ bytes }, true)
  | some room =>
    if bytes.length ≤ room then
      ({ kept := s.kept ++ bytes, room := some (room - bytes.length) }, true)
    else ({ kept := s.kept ++ bytes.take room, room := some 0 }, false)

end Sink

/-- A computation that writes to a sink and may fail; what was kept survives a failure. -/
abbrev Writer (ε : Type) := EStateM ε Sink

namespace Writer

variable {ε ε' α : Type}

/-- Runs a writer whose faults are a part of a larger error type. -/
def lift (embed : ε → ε') (w : Writer ε α) : Writer ε' α := fun s =>
  match w s with
  | .ok a s => .ok a s
  | .error e s => .error (embed e) s

/-- Writes a run of bytes in one piece. -/
def bytes (bs : List UInt8) : Writer WriteFault Unit := fun s =>
  match s.put bs with
  | (s, true) => .ok () s
  | (s, false) => .error .full s

/-- Writes one byte. -/
def byte (b : UInt8) : Writer WriteFault Unit :=
  bytes [b]

/-- Writes the entries of a list one after another. -/
def each (write : α → Writer ε Unit) : List α → Writer ε Unit
  | [] => pure ()
  | a :: as => do
    write a
    each write as

/-- What a writer puts into a sink without bounds, as far as it gets. -/
def produced (w : Writer ε Unit) : List UInt8 :=
  match w {} with
  | .ok _ s => s.kept.toList
  | .error _ s => s.kept.toList

end Writer

end IntWasm
