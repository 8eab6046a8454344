import IntWasm.Allocator
import IntWasm.Trap
import IntWasm.Types

/-!
# Memories

A memory is a row of bytes whose size is a whole number of pages. It can grow up to its declared
maximum and a cap, as far as its allocator has pages. Accesses of instructions are little-endian;
the address is the sum of two 32-bit numbers and does not wrap around.
-/

namespace IntWasm

/-- The byte at an index; past the end, zero. -/
def byteAt (bytes : ByteArray) (i : Nat) : UInt8 :=
  if h : i < bytes.size then bytes[i] else 0

/-- Bytes with the one at an index replaced; past the end, nothing changes. -/
def setByte (bytes : ByteArray) (i : Nat) (b : UInt8) : ByteArray :=
  if h : i < bytes.size then bytes.set i b h else bytes

/-- Bytes with a run of them replaced from an index on. -/
def setBytes (bytes : ByteArray) (i : Nat) : List UInt8 → ByteArray
  | [] => bytes
  | b :: rest => setBytes (setByte bytes i b) (i + 1) rest

/-- The number that `width` bytes from an index on hold, the least significant first. -/
def loadWord (bytes : ByteArray) (i : Nat) : Nat → UInt64
  | 0 => 0
  | width + 1 => (byteAt bytes i).toUInt64 ||| (loadWord bytes (i + 1) width <<< 8)

/-- Writes the low `width` bytes of a number from an index on, the least significant first. -/
def storeWord (bytes : ByteArray) (i : Nat) (w : UInt64) : Nat → ByteArray
  | 0 => bytes
  | width + 1 => storeWord (setByte bytes i w.toUInt8) (i + 1) (w >>> 8) width

/-- A linear memory. -/
structure Memory where
  /-- The limits that it was made with. -/
  declared : Limits
  /-- The most pages that it may have. -/
  cap : UInt32
  /-- The place of its allocator in the store. -/
  allocator : Nat
  bytes : ByteArray
  /-- Whether an instance uses the memory as its import. -/
  attached : Bool := false

instance : Inhabited Memory := ⟨{ declared := {}, cap := 0, allocator := 0, bytes := .empty }⟩

/-- Why a memory could not be used as asked. -/
inductive MemoryFault where
  | outOfBounds
  | limitExceeded
  | allocation (fault : AllocationFault)
  deriving Repr, DecidableEq, Inhabited

/-- The text that is shown for a fault. -/
def MemoryFault.message : MemoryFault → String
  | outOfBounds => "out of bounds memory access"
  | limitExceeded => "memory limit exceeded"
  | allocation fault => fault.message

namespace Memory

/-- The most pages that a memory can have. -/
def maxPages : UInt32 := 65536

/-- A cap of zero, or one that is too large, stands for the most pages there can be. -/
def clampCap (cap : UInt32) : UInt32 :=
  if cap = 0 ∨ maxPages < cap then maxPages else cap

/-- A new memory of zeros. -/
def new (limits : Limits) (allocator : Nat) (cap : UInt32) :
    EStateM AllocationFault Allocator Memory := do
  let cap := clampCap cap
  if cap < limits.min then throw (.initialSize limits.min.toNat cap.toNat)
  let bytes ← Allocator.allocate limits.min
  return { declared := limits, cap, allocator, bytes }

/-- The number of pages. -/
def size (m : Memory) : UInt32 := UInt32.ofNat (pageCount m.bytes)

/-- The limits of a memory as an import sees them: its current size and its declared maximum. -/
def limits (m : Memory) : Limits :=
  { flags := if m.declared.hasMax then 1 else 0, min := m.size, max := m.declared.max }

/-- Whether a memory can be imported with given limits. -/
def satisfies (m : Memory) (l : Limits) : Bool :=
  decide (l.min ≤ m.size) && (!l.hasMax || (m.declared.hasMax && decide (m.declared.max ≤ l.max)))

/-- Whether a memory may have a number of pages. -/
def admits (m : Memory) (pages : Nat) : Bool :=
  decide (pages ≤ m.cap.toNat) && (!m.declared.hasMax || decide (pages ≤ m.declared.max.toNat))

/-- Adds pages to a memory. The allocator is not asked for nothing. -/
def grow (m : Memory) (pages : UInt32) : EStateM MemoryFault Allocator Memory := fun a =>
  if ¬ m.admits (m.size.toNat + pages.toNat) then .error .limitExceeded a
  else if pages = 0 then .ok m a
  else
    match Allocator.reallocate m.bytes (m.size + pages) a with
    | .ok bytes a => .ok { m with bytes } a
    | .error e a => .error (.allocation e) a

/-- A memory without its bytes, which go back to the allocator. -/
def free (m : Memory) (a : Allocator) : Memory × Allocator :=
  ({ m with bytes := .empty }, a.free m.bytes)

/-! ## Access by the embedder -/

/-- A run of bytes. -/
def read (m : Memory) (offset length : UInt32) : Except MemoryFault (List UInt8) :=
  let start := offset.toNat
  if m.bytes.size < start + length.toNat then .error .outOfBounds
  else .ok (m.bytes.extract start (start + length.toNat)).data.toList

/-- Replaces a run of bytes, all of them or none. -/
def write (m : Memory) (offset : UInt32) (bytes : List UInt8) : Except MemoryFault Memory :=
  if m.bytes.size < offset.toNat + bytes.length then .error .outOfBounds
  else .ok { m with bytes := setBytes m.bytes offset.toNat bytes }

/-! ## Access by instructions -/

/-- The address of an access; every byte of it has to lie inside the memory. -/
def address (m : Memory) (base offset : UInt32) (width : Nat) : Except Trap Nat :=
  let start := base.toNat + offset.toNat
  if m.bytes.size < start + width then .error .memoryOutOfBounds else .ok start

/-- The number that `width` bytes hold. -/
def load (m : Memory) (base offset : UInt32) (width : Nat) : Except Trap UInt64 :=
  match m.address base offset width with
  | .ok start => .ok (loadWord m.bytes start width)
  | .error trap => .error trap

/-- Writes the low `width` bytes of a number. -/
def store (m : Memory) (base offset : UInt32) (width : Nat) (w : UInt64) : Except Trap Memory :=
  match m.address base offset width with
  | .ok start => .ok { m with bytes := storeWord m.bytes start w width }
  | .error trap => .error trap

end Memory

end IntWasm
