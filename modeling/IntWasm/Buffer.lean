import IntWasm.Allocator

/-!
# Buffers

A memory gives its bytes back to the allocator that they came from. Whoever keeps buffers of several
allocators can mix them up. Pages of the heap need no care, but only a mapping can be unmapped: an
allocator that takes its pages from mappings breaks off when it has to take back anything else. By
then its budget has changed, and the buffer is still in use.
-/

namespace IntWasm

/-- Bytes in whole pages that an allocator has handed out. -/
structure Buffer where
  bytes : ByteArray := .empty
  /-- Whether the bytes are a mapping outside the heap. -/
  mapped : Bool := false

instance : Inhabited Buffer := ⟨{}⟩

/-- Why an allocator did not do what was asked with a buffer. -/
inductive BufferFault where
  | allocation (fault : AllocationFault)
  /-- The buffer had to be unmapped and is no mapping. -/
  | notMapped
  deriving Repr, DecidableEq, Inhabited

/-- The text that is shown for a fault. -/
def BufferFault.message : BufferFault → String
  | allocation fault => fault.message
  | notMapped => "wasm: munmap: invalid argument"

namespace PageSource

/-- Whether the pages of a source are mappings. -/
def isMapping : PageSource → Bool
  | mapping => true
  | heap | unreliable _ _ _ => false

/-- Whether a source can take a buffer back. One without bytes needs no unmapping. -/
def takesBack (s : PageSource) (b : Buffer) : Bool :=
  !s.isMapping || b.mapped || b.bytes.size = 0

end PageSource

namespace Buffer

/-- A new buffer of zeros. -/
def allocate (pages : UInt32) : EStateM BufferFault Allocator Buffer := fun a =>
  match Allocator.allocate pages a with
  | .ok bytes a => .ok { bytes, mapped := a.source.isMapping } a
  | .error e a => .error (.allocation e) a

/-- A buffer of another size with the bytes of a given one. The new pages are acquired before the
old ones are given back, so they stay counted if the old ones cannot be taken. -/
def reallocate (b : Buffer) (pages : UInt32) : EStateM BufferFault Allocator Buffer := fun a =>
  if a.source.takesBack b then
    match Allocator.reallocate b.bytes pages a with
    | .ok bytes a => .ok { bytes, mapped := a.source.isMapping } a
    | .error e a => .error (.allocation e) a
  else
    match Allocator.acquire (UInt64.ofNat (pageCount b.bytes)) pages a with
    | .ok _ a => .error .notMapped a
    | .error e a => .error (.allocation e) a

/-- Gives a buffer back. Its pages no longer count, even if they cannot be taken. -/
def free (b : Buffer) : EStateM BufferFault Allocator Unit := fun a =>
  if a.source.takesBack b then .ok () (a.free b.bytes) else .error .notMapped (a.free b.bytes)

end Buffer

end IntWasm
