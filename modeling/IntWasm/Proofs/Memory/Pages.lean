import IntWasm.Memory
import IntWasm.Proofs.Outcome
import Mathlib.Tactic

/-!
# Pages that are handed out

An allocator with a budget holds as many pages as it has handed out. Making, growing and freeing a
memory change that number by exactly the pages that the memory wins or loses, and a request that
fails does not change it, whether the budget or the source refuses. Main statements:
`Memory.holds_new`, `Memory.holds_grow` and `Memory.holds_free`.
-/

namespace IntWasm

/-! ## Sizes of buffers -/

/-- A page of zeros is one page. -/
theorem size_zeroPage : zeroPage.size = pageSize := by
  simp [zeroPage, ByteArray.size]

/-- No bytes are no pages. -/
theorem pageCount_empty : pageCount .empty = 0 := rfl

/-- Appending pages adds as many. -/
theorem pageCount_appendZeroPages (buffer : ByteArray) (pages : Nat) :
    pageCount (appendZeroPages buffer pages) = pageCount buffer + pages := by
  induction pages generalizing buffer with
  | zero => rfl
  | succ pages ih =>
    have hone : pageCount (buffer ++ zeroPage) = pageCount buffer + 1 := by
      simp only [pageCount, ByteArray.size_append, size_zeroPage]
      exact Nat.add_div_right _ (by decide)
    rw [appendZeroPages, ih, hone]
    omega

/-- A buffer that is made larger has as many pages as were asked for. -/
theorem pageCount_resizePages {buffer : ByteArray} {pages : Nat}
    (hgrows : pageCount buffer ≤ pages) : pageCount (resizePages buffer pages) = pages := by
  rw [resizePages, if_pos hgrows, pageCount_appendZeroPages]
  omega

/-- Setting a byte keeps the size. -/
@[simp] theorem size_setByte (bytes : ByteArray) (i : Nat) (b : UInt8) :
    (setByte bytes i b).size = bytes.size := by
  unfold setByte
  split
  · exact Array.size_set ..
  · rfl

/-- Setting bytes keeps the size. -/
@[simp] theorem size_setBytes (bytes : ByteArray) (i : Nat) (new : List UInt8) :
    (setBytes bytes i new).size = bytes.size := by
  induction new generalizing bytes i with
  | nil => rfl
  | cons b new ih => rw [setBytes, ih, size_setByte]

/-- Storing a word keeps the size. -/
@[simp] theorem size_storeWord (bytes : ByteArray) (i : Nat) (w : UInt64) (width : Nat) :
    (storeWord bytes i w width).size = bytes.size := by
  induction width generalizing bytes i w with
  | zero => rfl
  | succ width ih => rw [storeWord, ih, size_setByte]

/-- A source that is asked for more pages answers with as many. -/
theorem pageCount_of_reallocate {buffer bytes : ByteArray} {pages : UInt32} {a a' : Allocator}
    (hok : Allocator.reallocate buffer pages a = .ok bytes a')
    (hgrows : pageCount buffer ≤ pages.toNat) : pageCount bytes = pages.toNat := by
  simp only [Allocator.reallocate, estate_bind_eq_ok] at hok
  obtain ⟨_, _, -, hok⟩ := hok
  split at hok
  · simp only [estate_bind_eq_ok, estate_pure_eq_ok] at hok
    obtain ⟨_, _, -, rfl, -⟩ := hok
    exact pageCount_resizePages hgrows
  · simp only [estate_pure_eq_ok] at hok
    obtain ⟨rfl, -⟩ := hok
    exact pageCount_resizePages hgrows

/-! ## Allocators -/

/-- The budget of an allocator, if it has one, counts a number of pages, and they are within it. -/
def Allocator.Holds (a : Allocator) (pages : Nat) : Prop :=
  ∀ b, a.budget = some b → b.used.toNat = pages ∧ pages ≤ b.limit.toNat

namespace Allocator.Holds

variable {a : Allocator} {n : Nat}

/-- What an allocator holds does not depend on where its pages come from. -/
theorem source (hholds : a.Holds n) (source : PageSource) : Holds { a with source } n := hholds

/-- A reservation that succeeds adds its pages to those in use. -/
theorem reserve (hholds : a.Holds n) (pages : UInt64) (hpages : pages.toNat < 2 ^ 32) :
    match Allocator.reserve pages a with
    | .ok _ a' => a'.Holds (n + pages.toNat)
    | .error _ a' => a'.Holds n := by
  unfold Allocator.reserve
  cases hbudget : a.budget with
  | none =>
    intro b hb
    rw [hbudget] at hb
    cases hb
  | some b =>
    obtain ⟨hused, hle⟩ := hholds b hbudget
    have hlimit := b.limit.toNat_lt
    -- The sum of a budget and of a request for pages does not wrap around.
    have hsum : (b.used + pages).toNat = n + pages.toNat := by
      rw [UInt64.toNat_add]
      omega
    by_cases hover : b.limit.toUInt64 < b.used + pages
    · simp only [if_pos hover]
      exact hholds
    · simp only [if_neg hover]
      rintro _ ⟨⟩
      rw [UInt64.lt_iff_toNat_lt, hsum, UInt32.toNat_toUInt64] at hover
      exact ⟨hsum, Nat.not_lt.1 hover⟩

/-- What is given back was in use. -/
theorem release {pages : UInt64} (hholds : a.Holds (n + pages.toNat)) :
    (Allocator.release pages a).Holds n := by
  intro b hb
  obtain ⟨b, hbudget, rfl⟩ := Option.map_eq_some_iff.1 hb
  obtain ⟨hused, hle⟩ := hholds b hbudget
  refine ⟨?_, by simp only; omega⟩
  rw [UInt64.toNat_sub_of_le _ _ (UInt64.le_iff_toNat_le.2 (by omega)), hused]
  omega

/-- Drawing pages from the source does not change what is in use. -/
theorem draw {reserved : UInt64} (hholds : a.Holds (n + reserved.toNat)) (pages : Nat) :
    match Allocator.draw pages reserved a with
    | .ok _ a' => a'.Holds (n + reserved.toNat)
    | .error _ a' => a'.Holds n := by
  unfold Allocator.draw
  cases a.source.request pages with
  | mk answer source =>
    cases answer with
    | ok _ => exact hholds.source source
    | error e => exact (hholds.source source).release

/-- An allocation that succeeds adds the pages that it answers with. -/
theorem allocate (hholds : a.Holds n) (pages : UInt32) :
    match Allocator.allocate pages a with
    | .ok bytes a' => pageCount bytes = pages.toNat ∧ a'.Holds (n + pages.toNat)
    | .error _ a' => a'.Holds n := by
  have hreserve := hholds.reserve pages.toUInt64 (by simpa using pages.toNat_lt)
  simp only [Allocator.allocate, bind, EStateM.bind]
  cases hreserved : Allocator.reserve pages.toUInt64 a with
  | error e a₁ =>
    rw [hreserved] at hreserve
    exact hreserve
  | ok _ a₁ =>
    rw [hreserved] at hreserve
    have hdraw := Holds.draw hreserve pages.toNat
    simp only
    cases hdrawn : Allocator.draw pages.toNat pages.toUInt64 a₁ with
    | error e a₂ =>
      rw [hdrawn] at hdraw
      exact hdraw
    | ok _ a₂ =>
      rw [hdrawn] at hdraw
      refine ⟨?_, by simpa using hdraw⟩
      rw [pageCount_appendZeroPages, pageCount_empty, Nat.zero_add]

/-- A buffer that grows costs the pages that it wins. -/
theorem reallocate {buffer : ByteArray} (pages : UInt32)
    (hholds : a.Holds (n + pageCount buffer)) (hgrows : pageCount buffer < pages.toNat) :
    match Allocator.reallocate buffer pages a with
    | .ok _ a' => a'.Holds (n + pages.toNat)
    | .error _ a' => a'.Holds (n + pageCount buffer) := by
  have hpages := pages.toNat_lt
  have hbefore : (UInt64.ofNat (pageCount buffer)).toNat = pageCount buffer :=
    UInt64.toNat_ofNat_of_lt' (by rw [UInt64.size]; omega)
  have hlt : UInt64.ofNat (pageCount buffer) < pages.toUInt64 := by
    rw [UInt64.lt_iff_toNat_lt, hbefore, UInt32.toNat_toUInt64]
    exact hgrows
  -- The allocator counts in words of 64 bits; as the buffer grows, the difference does not wrap.
  have hadded : (pages.toUInt64 - UInt64.ofNat (pageCount buffer)).toNat =
      pages.toNat - pageCount buffer := by
    rw [UInt64.toNat_sub_of_le _ _ (UInt64.le_iff_toNat_le.2 (by simpa [hbefore] using hgrows.le)),
      hbefore, UInt32.toNat_toUInt64]
  have hnot : ¬ pages.toUInt64 < UInt64.ofNat (pageCount buffer) := by
    rw [UInt64.lt_iff_toNat_lt, hbefore, UInt32.toNat_toUInt64]
    omega
  have htotal : n + pageCount buffer + (pages.toNat - pageCount buffer) =
    n + pages.toNat := by omega
  have hreserve := hholds.reserve (pages.toUInt64 - UInt64.ofNat (pageCount buffer))
    (by rw [hadded]; omega)
  simp only [Allocator.reallocate, Allocator.acquire, if_pos hlt, if_neg hnot, bind, EStateM.bind]
  cases hreserved : Allocator.reserve (pages.toUInt64 - UInt64.ofNat (pageCount buffer)) a with
  | error e a₁ =>
    rw [hreserved] at hreserve
    exact hreserve
  | ok _ a₁ =>
    rw [hreserved] at hreserve
    have hdraw := Holds.draw hreserve pages.toNat
    simp only
    cases hdrawn : Allocator.draw pages.toNat
        (pages.toUInt64 - UInt64.ofNat (pageCount buffer)) a₁ with
    | error e a₂ =>
      rw [hdrawn] at hdraw
      exact hdraw
    | ok _ a₂ =>
      rw [hdrawn, hadded, htotal] at hdraw
      exact hdraw

/-- What is in use is reported in full. -/
theorem used_eq (hholds : a.Holds n) {b : PageBudget} (hbudget : a.budget = some b) :
    a.used = n := by
  obtain ⟨hused, hle⟩ := hholds b hbudget
  have hlimit := b.limit.toNat_lt
  simp only [Allocator.used, hbudget, UInt64.toNat_toUInt32, hused]
  omega

end Allocator.Holds

/-! ## Limits of budgets -/

/-- The limit of the budget of an allocator, if it has one. -/
def Allocator.limit? (a : Allocator) : Option UInt32 := a.budget.map (·.limit)

/-- Two states of an allocator, the limit of whose budget does not change. -/
def Allocator.SameLimit (a a' : Allocator) : Prop := a'.limit? = a.limit?

namespace Allocator.SameLimit

/-- An allocator has its own limit. -/
theorem refl (a : Allocator) : a.SameLimit a := rfl

/-- The limit is the same after two changes that keep it. -/
theorem trans ⦃a b c : Allocator⦄ (hab : a.SameLimit b) (hbc : b.SameLimit c) : a.SameLimit c :=
  Eq.trans hbc hab

/-- Giving pages back keeps the limit. -/
theorem release (pages : UInt64) (a : Allocator) : a.SameLimit (Allocator.release pages a) := by
  simp only [SameLimit, limit?, Allocator.release, Option.map_map]
  rfl

/-- Reserving pages keeps the limit. -/
theorem reserve (pages : UInt64) : Moves SameLimit (Allocator.reserve pages) := by
  intro a
  unfold Allocator.reserve
  split
  · exact refl a
  · rename_i b hbudget
    split
    · exact refl a
    · simp [finalState, SameLimit, limit?, hbudget]

/-- Drawing pages keeps the limit. -/
theorem draw (pages : Nat) (reserved : UInt64) :
    Moves SameLimit (Allocator.draw pages reserved) := by
  intro a
  unfold Allocator.draw
  split
  · exact refl a
  · exact release reserved _

/-- Allocating keeps the limit. -/
theorem allocate (pages : UInt32) : Moves SameLimit (Allocator.allocate pages) :=
  Moves.bind trans (reserve _) fun _ => Moves.bind trans (draw _ _) fun _ => moves_pure refl _

/-- Acquiring pages for growth keeps the limit. -/
theorem acquire (before : UInt64) (pages : UInt32) :
    Moves SameLimit (Allocator.acquire before pages) := by
  unfold Allocator.acquire
  by_cases hgrows : before < pages.toUInt64
  · simp only [if_pos hgrows]
    exact Moves.bind trans (reserve _) fun _ => draw _ _
  · simp only [if_neg hgrows]
    exact draw _ _

/-- Reallocating keeps the limit. -/
theorem reallocate (buffer : ByteArray) (pages : UInt32) :
    Moves SameLimit (Allocator.reallocate buffer pages) := by
  refine Moves.bind trans (acquire _ _) fun _ => ?_
  by_cases hshrinks : pages.toUInt64 < UInt64.ofNat (pageCount buffer)
  · simp only [if_pos hshrinks]
    exact Moves.bind trans (fun a => release _ a) fun _ => moves_pure refl _
  · simp only [if_neg hshrinks]
    exact moves_pure refl _

end Allocator.SameLimit

/-! ## Memories -/

/-- A memory has no more pages than its cap, and its cap is one that a memory can have. -/
structure Memory.Bounded (m : Memory) : Prop where
  pages_le : pageCount m.bytes ≤ m.cap.toNat
  cap_le : m.cap.toNat ≤ maxPages.toNat

namespace Memory

variable {a : Allocator} {m : Memory} {n : Nat}

/-- A memory without pages is bounded. -/
theorem bounded_default : Bounded default := ⟨by decide, by decide⟩

/-- The size of a memory that is bounded does not wrap around. -/
theorem Bounded.toNat_size (hbounded : m.Bounded) : m.size.toNat = pageCount m.bytes := by
  have hpages := hbounded.pages_le
  have hcap := hbounded.cap_le
  have hmax : maxPages.toNat = 65536 := rfl
  rw [Memory.size, UInt32.toNat_ofNat_of_lt' (by rw [UInt32.size]; omega)]

/-- Other bytes of the same size are as bounded. -/
theorem Bounded.of_bytes (hbounded : m.Bounded) {bytes : ByteArray} {attached : Bool}
    (hsize : bytes.size = m.bytes.size) : Bounded { m with bytes, attached } :=
  ⟨by simpa [pageCount, hsize] using hbounded.pages_le, hbounded.cap_le⟩

/-- A cap is clamped to what 32 bits can address. -/
theorem clampCap_le (cap : UInt32) : (clampCap cap).toNat ≤ maxPages.toNat := by
  unfold clampCap
  split
  · exact le_rfl
  · rename_i hcap
    have hle : ¬ maxPages < cap := fun hlt => hcap (.inr hlt)
    rw [UInt32.lt_iff_toNat_lt] at hle
    omega

/-- A new memory costs its pages, and one that is refused costs none. -/
theorem holds_new (hholds : a.Holds n) (limits : Limits) (allocator : Nat) (cap : UInt32) :
    match Memory.new limits allocator cap a with
    | .ok m a' => m.Bounded ∧ m.allocator = allocator ∧ a'.Holds (n + m.size.toNat)
    | .error _ a' => a'.Holds n := by
  have hallocate := hholds.allocate limits.min
  simp only [Memory.new]
  by_cases hlarge : clampCap cap < limits.min
  · simpa [hlarge, bind, EStateM.bind, estate_throw] using hholds
  simp only [if_neg hlarge, bind, EStateM.bind]
  cases hallocated : Allocator.allocate limits.min a with
  | error e a' =>
    rw [hallocated] at hallocate
    exact hallocate
  | ok bytes a' =>
    rw [hallocated] at hallocate
    obtain ⟨hcount, hheld⟩ := hallocate
    have hfits : limits.min.toNat ≤ (clampCap cap).toNat := by
      rw [UInt32.lt_iff_toNat_lt] at hlarge
      omega
    have hbounded : Bounded { declared := limits, cap := clampCap cap, allocator, bytes } :=
      ⟨by simpa [hcount] using hfits, clampCap_le cap⟩
    refine ⟨hbounded, rfl, ?_⟩
    rw [hbounded.toNat_size]
    simpa [hcount] using hheld

/-- A memory grows only to a size that it may have, from a buffer that is smaller. -/
theorem grow_admitted (hbounded : m.Bounded) {pages : UInt32}
    (hadmits : m.admits (m.size.toNat + pages.toNat) = true) (hpages : pages ≠ 0) :
    (m.size + pages).toNat = pageCount m.bytes + pages.toNat ∧
      pageCount m.bytes + pages.toNat ≤ m.cap.toNat ∧ 0 < pages.toNat := by
  have hcap : m.size.toNat + pages.toNat ≤ m.cap.toNat := by
    simp only [Memory.admits, Bool.and_eq_true, decide_eq_true_eq] at hadmits
    exact hadmits.1
  have hmax := hbounded.cap_le
  have hlimit : maxPages.toNat = 65536 := rfl
  have hpositive : 0 < pages.toNat :=
    Nat.pos_iff_ne_zero.2 fun hzero => hpages (UInt32.toNat_inj.1 hzero)
  rw [hbounded.toNat_size] at hcap
  refine ⟨?_, hcap, hpositive⟩
  rw [UInt32.toNat_add, hbounded.toNat_size]
  omega

/-- A memory that has grown is as it was but for its bytes. -/
theorem eq_of_grow {pages : UInt32} {a' : Allocator} {m' : Memory}
    (hok : m.grow pages a = .ok m' a') : m' = { m with bytes := m'.bytes } := by
  unfold Memory.grow at hok
  split at hok
  · cases hok
  · split at hok
    · obtain ⟨rfl, -⟩ := EStateM.Result.ok.inj hok
      rfl
    · split at hok
      · obtain ⟨rfl, -⟩ := EStateM.Result.ok.inj hok
        rfl
      · cases hok

/-- Growing does not go past the bounds. -/
theorem Bounded.grow (hbounded : m.Bounded) {pages : UInt32} {a' : Allocator} {m' : Memory}
    (hok : m.grow pages a = .ok m' a') : m'.Bounded := by
  unfold Memory.grow at hok
  split at hok
  · cases hok
  · rename_i hadmits
    split at hok
    · obtain ⟨rfl, -⟩ := EStateM.Result.ok.inj hok
      exact hbounded
    · rename_i hpages
      obtain ⟨hsum, hcap, -⟩ := grow_admitted hbounded (not_not.1 hadmits) hpages
      split at hok
      · rename_i bytes _ hrealloc
        obtain ⟨rfl, -⟩ := EStateM.Result.ok.inj hok
        have hcount := pageCount_of_reallocate hrealloc (by omega)
        exact ⟨by simp only [hcount]; omega, hbounded.cap_le⟩
      · cases hok

/-- A memory that grows costs the pages that it wins, and one that does not grow costs none. -/
theorem holds_grow (hholds : a.Holds (n + m.size.toNat)) (hbounded : m.Bounded) (pages : UInt32) :
    match m.grow pages a with
    | .ok m' a' => a'.Holds (n + m'.size.toNat)
    | .error _ a' => a'.Holds (n + m.size.toNat) := by
  unfold Memory.grow
  by_cases hadmits : m.admits (m.size.toNat + pages.toNat) = true
  swap
  · rw [if_pos hadmits]
    exact hholds
  rw [if_neg (not_not_intro hadmits)]
  by_cases hpages : pages = 0
  · rw [if_pos hpages]
    exact hholds
  rw [if_neg hpages]
  obtain ⟨hsum, hcap, hpositive⟩ := grow_admitted hbounded hadmits hpages
  rw [hbounded.toNat_size] at hholds ⊢
  have hheld := Allocator.Holds.reallocate (m.size + pages) hholds (by omega)
  cases hrealloc : Allocator.reallocate m.bytes (m.size + pages) a with
  | error e a' =>
    rw [hrealloc] at hheld
    exact hheld
  | ok bytes a' =>
    rw [hrealloc] at hheld
    have hcount := pageCount_of_reallocate hrealloc (by omega)
    have hgrown : Bounded { m with bytes } := ⟨by simp only [hcount]; omega, hbounded.cap_le⟩
    simp only [hgrown.toNat_size, hcount]
    exact hheld

/-- Making a memory keeps the allocator's limit. -/
theorem new_sameLimit (limits : Limits) (allocator : Nat) (cap : UInt32) :
    Moves Allocator.SameLimit (Memory.new limits allocator cap) := by
  simp only [Memory.new]
  by_cases hlarge : clampCap cap < limits.min
  · simp only [if_pos hlarge]
    exact Moves.bind Allocator.SameLimit.trans (moves_throw Allocator.SameLimit.refl _) fun _ =>
      Moves.bind Allocator.SameLimit.trans (Allocator.SameLimit.allocate _) fun _ =>
        moves_pure Allocator.SameLimit.refl _
  · simp only [if_neg hlarge]
    exact Moves.bind Allocator.SameLimit.trans (Allocator.SameLimit.allocate _) fun _ =>
      moves_pure Allocator.SameLimit.refl _

/-- Growing a memory keeps the allocator's limit. -/
theorem grow_sameLimit (m : Memory) (pages : UInt32) :
    Moves Allocator.SameLimit (m.grow pages) := by
  intro a
  unfold Memory.grow
  split
  · exact .refl a
  · split
    · exact .refl a
    · have hrealloc := Allocator.SameLimit.reallocate m.bytes (m.size + pages) a
      split
      · rename_i hresult
        rw [hresult] at hrealloc
        exact hrealloc
      · rename_i hresult
        rw [hresult] at hrealloc
        exact hrealloc

/-- A memory that is freed costs nothing. -/
theorem holds_free (hholds : a.Holds (n + m.size.toNat)) (hbounded : m.Bounded) :
    (m.free a).2.Holds n := by
  have hpages := hbounded.pages_le
  have hmax := hbounded.cap_le
  have hlimit : maxPages.toNat = 65536 := rfl
  refine Allocator.Holds.release ?_
  rw [UInt64.toNat_ofNat_of_lt' (by rw [UInt64.size]; omega), ← hbounded.toNat_size]
  exact hholds

end Memory

end IntWasm
