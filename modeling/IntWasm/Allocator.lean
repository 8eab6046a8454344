import IntWasm.Text.Number

/-!
# Allocators

An allocator supplies the bytes of memories in whole pages. It takes them from a source, and it may
keep a budget: the number of pages that are handed out at a time, over all memories that use it.
Growing a buffer keeps its bytes and adds zeros behind them.
-/

namespace IntWasm

/-- The number of bytes in a page. -/
def pageSize : Nat := 65536

/-- A page of zeros. -/
def zeroPage : ByteArray := ⟨Array.replicate pageSize 0⟩

/-- A buffer followed by a number of pages of zeros. -/
def appendZeroPages (buffer : ByteArray) : Nat → ByteArray
  | 0 => buffer
  | n + 1 => appendZeroPages (buffer ++ zeroPage) n

/-- The number of whole pages in a buffer. -/
def pageCount (buffer : ByteArray) : Nat := buffer.size / pageSize

/-- A buffer with a given number of pages that begins with the bytes of another one. -/
def resizePages (buffer : ByteArray) (pages : Nat) : ByteArray :=
  if pageCount buffer ≤ pages then appendZeroPages buffer (pages - pageCount buffer)
  else buffer.extract 0 (pages * pageSize)

/-- Where an allocator takes its pages from. -/
inductive PageSource where
  /-- The heap, which always has pages. -/
  | heap
  /-- Mappings outside the heap, which are bounded in size. -/
  | mapping
  /-- A source that grants its `n`-th request if `grants n` and otherwise refuses it with a text;
  `asked` requests have been made. -/
  | unreliable (refusal : String) (grants : Nat → Bool) (asked : Nat)

/-- Why no pages were handed out. -/
inductive AllocationFault where
  /-- More pages than the budget has left. -/
  | budget (limit used requested : Nat)
  /-- More pages than a memory may begin with. -/
  | initialSize (pages limit : Nat)
  /-- A mapping that is too large. -/
  | unmapped (pages : Nat)
  /-- The source refused. -/
  | refused (text : String)
  deriving Repr, DecidableEq, Inhabited

namespace AllocationFault

/-- The text that is shown for a fault. -/
def message : AllocationFault → String
  | budget limit used requested =>
    s!"allocation failed: page budget of {limit} exhausted ({used} in use, {requested} requested)"
  | initialSize pages limit =>
    s!"allocation failed: initial size of {pages} pages exceeds the limit of {limit}"
  | unmapped pages => s!"allocation failed: mmap {pages} pages: cannot allocate memory"
  | refused text => text

end AllocationFault

namespace PageSource

/-- The number of pages from which on a mapping does not fit, four times as many as a memory can
have. -/
def mappablePages : Nat := 0x40000

/-- Asks a source for a number of pages. -/
def request (s : PageSource) (pages : Nat) : Except AllocationFault Unit × PageSource :=
  match s with
  | heap => (.ok (), heap)
  | mapping =>
    if mappablePages ≤ pages then (.error (.unmapped pages), mapping) else (.ok (), mapping)
  | unreliable refusal grants asked =>
    (if grants asked then .ok () else .error (.refused refusal),
      unreliable refusal grants (asked + 1))

end PageSource

/-- A bound on the pages that are handed out at a time. -/
structure PageBudget where
  limit : UInt32
  /-- The number of pages that are handed out. -/
  used : UInt64 := 0
  deriving Repr, DecidableEq, Inhabited

/-- A supplier of pages. -/
structure Allocator where
  source : PageSource := .heap
  budget : Option PageBudget := none

instance : Inhabited Allocator := ⟨{}⟩

namespace Allocator

/-- Counts pages against the budget before they are asked for. -/
def reserve (pages : UInt64) : EStateM AllocationFault Allocator Unit := fun a =>
  match a.budget with
  | none => .ok () a
  | some b =>
    if b.limit.toUInt64 < b.used + pages then
      .error (.budget b.limit.toNat b.used.toNat pages.toNat) a
    else .ok () { a with budget := some { b with used := b.used + pages } }

/-- Gives pages back to the budget. -/
def release (pages : UInt64) (a : Allocator) : Allocator :=
  { a with budget := a.budget.map fun b => { b with used := b.used - pages } }

/-- Asks the source for pages that were reserved; if it refuses, the reservation is undone. -/
def draw (pages : Nat) (reserved : UInt64) : EStateM AllocationFault Allocator Unit := fun a =>
  match a.source.request pages with
  | (.ok _, source) => .ok () { a with source }
  | (.error e, source) => .error e (release reserved { a with source })

/-- A new buffer of zeros. -/
def allocate (pages : UInt32) : EStateM AllocationFault Allocator ByteArray := do
  reserve pages.toUInt64
  draw pages.toNat pages.toUInt64
  return appendZeroPages .empty pages.toNat

/-- Reserves and draws the pages of a buffer that takes the place of one with `before` pages. Only
pages that are added have to be reserved. -/
def acquire (before : UInt64) (pages : UInt32) : EStateM AllocationFault Allocator Unit := do
  let added := if before < pages.toUInt64 then pages.toUInt64 - before else 0
  if before < pages.toUInt64 then reserve added
  draw pages.toNat added

/-- A buffer of another size with the bytes of a given one, which must not be used any more. -/
def reallocate (buffer : ByteArray) (pages : UInt32) :
    EStateM AllocationFault Allocator ByteArray := do
  let before := UInt64.ofNat (pageCount buffer)
  acquire before pages
  if pages.toUInt64 < before then modify (release (before - pages.toUInt64))
  return resizePages buffer pages.toNat

/-- Takes a buffer back. -/
def free (buffer : ByteArray) (a : Allocator) : Allocator :=
  a.release (UInt64.ofNat (pageCount buffer))

/-- The number of pages that count against the budget. -/
def used (a : Allocator) : Nat :=
  match a.budget with
  | none => 0
  | some b => b.used.toUInt32.toNat

end Allocator

end IntWasm
