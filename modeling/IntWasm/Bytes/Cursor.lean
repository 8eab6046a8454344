/-!
# Reading bytes from the front of an input

A `Cursor` holds the bytes that are still unread, how many were read before them, where in a
module binary the first byte stood (if that is known), and what happens once no byte is left.
A `Reader` keeps its cursor when it fails, so that an error can name the place it was found at
and a caller can tell how much of the input was used up.
-/

namespace IntWasm

/-- What a source answers once its bytes are used up. -/
inductive Ending where
  /-- A regular end of input. -/
  | eof
  /-- The source reports an error of its own. -/
  | failed
  /-- The source gives neither a byte nor an error. -/
  | stalled
  deriving Repr, DecidableEq, Inhabited

/-- Why a number or a run of bytes could not be read. -/
inductive ReadFault where
  /-- The input ended before the first byte of what was asked for. -/
  | ended
  /-- The input ended in the middle of what was asked for. -/
  | truncated
  /-- The source gave neither a byte nor an error. -/
  | stalled
  /-- The source failed. -/
  | failed
  /-- An integer goes on past the bytes its width allows. -/
  | tooLong
  /-- An unsigned integer has bits beyond its width. -/
  | tooLarge
  /-- The spare bits of a signed integer's last byte do not repeat its sign. -/
  | signBits
  deriving Repr, DecidableEq, Inhabited

namespace ReadFault

/-- The text that is shown for a fault. -/
def message : ReadFault → String
  | ended => "EOF"
  | truncated => "unexpected EOF"
  | stalled => "multiple Read calls return no data or error"
  | failed => "read failed"
  | tooLong => "malformed LEB128 integer: integer representation too long"
  | tooLarge => "malformed LEB128 integer: integer too large"
  | signBits => "malformed LEB128 integer: integer representation has invalid sign bits"

/-- A fault of the integer encoding itself, as opposed to one of the source. -/
def isMalformed : ReadFault → Bool
  | tooLong | tooLarge | signBits => true
  | _ => false

/-- Inside something that was begun, a regular end of input is a truncation. -/
def inside : ReadFault → ReadFault
  | ended => truncated
  | fault => fault

end ReadFault

namespace Ending

/-- The fault that reading past the last byte gives. -/
def fault : Ending → ReadFault
  | eof => .ended
  | failed => .failed
  | stalled => .stalled

end Ending

/-- A position in an input. -/
structure Cursor where
  /-- The bytes not read yet. -/
  rest : List UInt8
  /-- The number of bytes read so far. -/
  consumed : Nat := 0
  /-- Where the first byte of this input stands in the module binary, if that is known. -/
  origin : Option Nat := none
  /-- What happens once `rest` is used up. -/
  ending : Ending := .eof
  deriving Repr, DecidableEq, Inhabited

namespace Cursor

/-- The place of the next byte in the module binary. -/
def offset? (c : Cursor) : Option Nat :=
  c.origin.map (· + c.consumed)

/-- The place of the last byte that was read. -/
def lastOffset? (c : Cursor) : Option Nat :=
  c.offset?.map (· - 1)

/-- The cursor after its first `n` bytes. -/
def advance (c : Cursor) (n : Nat) : Cursor :=
  { c with rest := c.rest.drop n, consumed := c.consumed + min n c.rest.length }

end Cursor

/-- A computation that reads from a cursor and may fail; the cursor survives a failure. -/
abbrev Reader (ε : Type) := EStateM ε Cursor

namespace Reader

variable {ε ε' α : Type}

/-- The current position. -/
def cursor : Reader ε Cursor := get

/-- Runs a reader whose faults are a part of a larger error type. -/
def lift (embed : ε → ε') (r : Reader ε α) : Reader ε' α := fun c =>
  match r c with
  | .ok a c => .ok a c
  | .error e c => .error (embed e) c

/-- Replaces the error of a reader, looking at the place where it failed. -/
def located (r : Reader ε α) (relabel : Cursor → ε → ε') : Reader ε' α := fun c =>
  match r c with
  | .ok a c => .ok a c
  | .error e c => .error (relabel c e) c

/-- The next byte. -/
def byte : Reader ReadFault UInt8 := fun c =>
  match c.rest with
  | [] => .error c.ending.fault c
  | b :: rest => .ok b { c with rest, consumed := c.consumed + 1 }

/-- The next byte of something that was begun. -/
def innerByte : Reader ReadFault UInt8 :=
  lift ReadFault.inside byte

/-- Exactly `n` bytes. If there are fewer, all of them are used up. -/
def bytes (n : Nat) : Reader ReadFault (List UInt8) := fun c =>
  if n ≤ c.rest.length then .ok (c.rest.take n) (c.advance n)
  else .error c.ending.fault.inside (c.advance c.rest.length)

/-- All bytes up to a regular end of input. -/
def remaining : Reader ReadFault (List UInt8) := fun c =>
  match c.ending with
  | .eof => .ok c.rest (c.advance c.rest.length)
  | ending => .error ending.fault (c.advance c.rest.length)

/-- Runs a reader that sees at most the next `n` bytes and then a regular end of input. What it
leaves of them is read next; its position in the binary is not known. -/
def within (n : Nat) (r : Reader ε α) : Reader ε α := fun c =>
  let inner : Cursor :=
    { rest := c.rest.take n
      ending := if n ≤ c.rest.length then .eof else c.ending }
  match r inner with
  | .ok a after => .ok a (c.advance after.consumed)
  | .error e after => .error e (c.advance after.consumed)

/-- Runs a reader `n` times and collects what it gives, telling it the index from `start` on. -/
def timesFrom (start : Nat) (r : Nat → Reader ε α) : Nat → Reader ε (List α)
  | 0 => pure []
  | n + 1 => do
    let a ← r start
    let as ← timesFrom (start + 1) r n
    pure (a :: as)

/-- Runs a reader `n` times and collects what it gives, telling it the index. -/
def times (n : Nat) (r : Nat → Reader ε α) : Reader ε (List α) :=
  timesFrom 0 r n

end Reader

end IntWasm
