import IntWasm.Proofs.Memory.Bytes

/-!
# What allocators promise

A buffer that an allocator hands out has the pages that were asked for. It begins with the bytes of
the buffer whose place it takes, and all others are zero. So its bytes are known, and an allocator
is free in nothing but the choice of when to fail. The heap never fails, and a budget over it fails
exactly if it is exceeded. Main statements: `Allocator.meets_contract` and
`Allocator.exists_answer`.
-/

namespace IntWasm

/-! ## Buffers of other sizes -/

/-- A buffer of a number of pages takes the place of another one. -/
structure Continues (before after : ByteArray) (pages : Nat) : Prop where
  size_eq : after.size = pages * pageSize
  kept : ∀ i, i < before.size → i < after.size → byteAt after i = byteAt before i
  zero : ∀ i, before.size ≤ i → byteAt after i = 0

namespace Continues

variable {before after : ByteArray} {pages : Nat}

/-- A memory continues itself. -/
theorem refl (hwhole : pageSize ∣ before.size) : Continues before before (pageCount before) :=
  ⟨(Nat.div_mul_cancel hwhole).symm, fun _ _ _ => rfl, fun _ hi => byteAt_of_size_le hi⟩

/-- A memory that continues another one consists of whole pages. -/
theorem dvd_size (hcontinues : Continues before after pages) : pageSize ∣ after.size :=
  ⟨pages, by rw [hcontinues.size_eq, Nat.mul_comm]⟩

/-- It has the pages that it was to have. -/
theorem pageCount_eq (hcontinues : Continues before after pages) : pageCount after = pages := by
  rw [pageCount, hcontinues.size_eq, Nat.mul_div_cancel _ (by decide)]

/-- No two buffers can take the place of one. -/
theorem unique {after' : ByteArray} (hcontinues : Continues before after pages)
    (hcontinues' : Continues before after' pages) : after = after' := by
  have hsize : after.size = after'.size := hcontinues.size_eq.trans hcontinues'.size_eq.symm
  refine eq_of_byteAt hsize fun i hi => ?_
  by_cases hold : i < before.size
  · rw [hcontinues.kept i hold hi, hcontinues'.kept i hold (hsize ▸ hi)]
  · rw [hcontinues.zero i (by omega), hcontinues'.zero i (by omega)]

end Continues

/-- Appending pages adds their bytes. -/
theorem size_appendZeroPages (buffer : ByteArray) (pages : Nat) :
    (appendZeroPages buffer pages).size = buffer.size + pages * pageSize := by
  induction pages generalizing buffer with
  | zero => simp [appendZeroPages]
  | succ pages ih =>
    rw [appendZeroPages, ih, ByteArray.size_append, size_zeroPage, Nat.succ_mul]
    omega

/-- Past the end of a buffer all bytes count as zero, so zeros that are added there change none. -/
theorem byteAt_appendZeroPages (buffer : ByteArray) (pages i : Nat) :
    byteAt (appendZeroPages buffer pages) i = byteAt buffer i := by
  induction pages generalizing buffer with
  | zero => rfl
  | succ pages ih =>
    rw [appendZeroPages, ih, byteAt_append, byteAt_zeroPage]
    split
    · rfl
    · exact (byteAt_of_size_le (by omega)).symm

/-- The first bytes are kept. -/
theorem byteAt_extract (buffer : ByteArray) {size i : Nat} (hi : i < size) :
    byteAt (buffer.extract 0 size) i = byteAt buffer i := by
  have hsize : (buffer.extract 0 size).size = min size buffer.size := by simp
  unfold byteAt
  by_cases hold : i < buffer.size
  · rw [dif_pos (by omega), dif_pos hold, ByteArray.getElem_extract]
    congr 1
    exact Nat.zero_add i
  · rw [dif_neg (by omega), dif_neg hold]

/-- A buffer of another size continues the one before. -/
theorem continues_resizePages {buffer : ByteArray} (hwhole : pageSize ∣ buffer.size) (pages : Nat) :
    Continues buffer (resizePages buffer pages) pages := by
  have hsize : buffer.size = pageCount buffer * pageSize := (Nat.div_mul_cancel hwhole).symm
  unfold resizePages
  by_cases hgrows : pageCount buffer ≤ pages
  · rw [if_pos hgrows]
    refine ⟨?_, fun i _ _ => byteAt_appendZeroPages .., fun i hi => ?_⟩
    · rw [size_appendZeroPages, Nat.sub_mul, hsize]
      have := Nat.mul_le_mul_right pageSize hgrows
      omega
    · rw [byteAt_appendZeroPages, byteAt_of_size_le hi]
  · have hless : pages * pageSize ≤ buffer.size := by
      rw [hsize]
      exact Nat.mul_le_mul_right _ (by omega)
    have hcut : (buffer.extract 0 (pages * pageSize)).size = pages * pageSize := by
      simp only [ByteArray.size_extract]
      omega
    rw [if_neg hgrows]
    refine ⟨hcut, fun i _ hi => byteAt_extract buffer (by omega), fun i hi => ?_⟩
    exact byteAt_of_size_le (by omega)

/-! ## Answers of allocators -/

namespace Allocator

/-- A source allocates zeros. -/
theorem eq_of_allocate {pages : UInt32} {a a' : Allocator} {bytes : ByteArray}
    (hok : allocate pages a = .ok bytes a') : bytes = appendZeroPages .empty pages.toNat := by
  simp only [allocate, estate_bind_eq_ok, estate_pure_eq_ok] at hok
  obtain ⟨_, _, -, _, _, -, rfl, -⟩ := hok
  rfl

/-- A source reallocates what was there, with zeros behind it. -/
theorem eq_of_reallocate {buffer bytes : ByteArray} {pages : UInt32} {a a' : Allocator}
    (hok : reallocate buffer pages a = .ok bytes a') : bytes = resizePages buffer pages.toNat := by
  simp only [reallocate, estate_bind_eq_ok] at hok
  obtain ⟨_, _, -, hok⟩ := hok
  split at hok
  · simp only [estate_bind_eq_ok, estate_pure_eq_ok] at hok
    obtain ⟨_, _, -, rfl, -⟩ := hok
    rfl
  · simp only [estate_pure_eq_ok] at hok
    exact hok.1.symm

/-- The buffers that an allocator hands out are as they have to be. -/
structure MeetsContract (a : Allocator) : Prop where
  allocate : ∀ {pages bytes a'}, Allocator.allocate pages a = .ok bytes a' →
    Continues .empty bytes pages.toNat
  reallocate : ∀ {buffer pages bytes a'}, pageSize ∣ buffer.size →
    Allocator.reallocate buffer pages a = .ok bytes a' → Continues buffer bytes pages.toNat

/-- Every allocator keeps to its contract, whatever its source and its budget are. -/
theorem meets_contract (a : Allocator) : a.MeetsContract where
  allocate {pages bytes a'} hok := by
    have hempty : Continues .empty (resizePages .empty pages.toNat) pages.toNat :=
      continues_resizePages ⟨0, rfl⟩ _
    rw [resizePages, pageCount_empty, if_pos (Nat.zero_le _), Nat.sub_zero] at hempty
    exact eq_of_allocate hok ▸ hempty
  reallocate hwhole hok := eq_of_reallocate hok ▸ continues_resizePages hwhole _

/-- The heap hands out every buffer. -/
theorem reallocate_heap (buffer : ByteArray) (pages : UInt32) :
    reallocate buffer pages {} = .ok (resizePages buffer pages.toNat) {} := by
  unfold reallocate acquire
  by_cases hgrows : UInt64.ofNat (pageCount buffer) < pages.toUInt64 <;>
    by_cases hshrinks : pages.toUInt64 < UInt64.ofNat (pageCount buffer) <;>
    simp [hgrows, hshrinks, reserve, draw, PageSource.request, release, bind, EStateM.bind, pure,
      EStateM.pure, estate_modify]

/-- A source may fail in any way. -/
theorem reallocate_refused (buffer : ByteArray) (pages : UInt32) (refusal : String) :
    ∃ a', reallocate buffer pages { source := .unreliable refusal (fun _ => false) 0 } =
      .error (.refused refusal) a' := by
  unfold reallocate acquire
  by_cases hgrows : UInt64.ofNat (pageCount buffer) < pages.toUInt64 <;>
    simp [hgrows, reserve, draw, PageSource.request, release, bind, EStateM.bind]

/-- Whatever answer the contract allows is the answer of some allocator. -/
theorem exists_answer {buffer : ByteArray} {pages : UInt32} (hwhole : pageSize ∣ buffer.size)
    {answer : Except String ByteArray}
    (hcontract : ∀ bytes, answer = .ok bytes → Continues buffer bytes pages.toNat) :
    ∃ a, (∀ bytes, answer = .ok bytes → ∃ a', reallocate buffer pages a = .ok bytes a') ∧
      ∀ refusal, answer = .error refusal →
        ∃ a', reallocate buffer pages a = .error (.refused refusal) a' := by
  cases answer with
  | ok bytes =>
    have hbytes := (hcontract bytes rfl).unique (continues_resizePages hwhole _)
    refine ⟨{}, ?_, nofun⟩
    rintro _ ⟨⟩
    exact ⟨{}, hbytes ▸ reallocate_heap buffer pages⟩
  | error refusal =>
    refine ⟨{ source := .unreliable refusal (fun _ => false) 0 }, nofun, ?_⟩
    rintro _ ⟨⟩
    exact reallocate_refused buffer pages refusal

/-- A budget over the heap refuses exactly the growth that exceeds it, and then it does not
change. -/
theorem reallocate_budget {buffer : ByteArray} {pages : UInt32} {b : PageBudget}
    (hused : b.used.toNat ≤ b.limit.toNat) (hgrows : pageCount buffer ≤ pages.toNat) :
    (b.limit.toNat < b.used.toNat + (pages.toNat - pageCount buffer) →
      ∃ e, reallocate buffer pages { budget := some b } = .error e { budget := some b }) ∧
    (b.used.toNat + (pages.toNat - pageCount buffer) ≤ b.limit.toNat →
      ∃ a', reallocate buffer pages { budget := some b } =
      .ok (resizePages buffer pages.toNat) a') := by
  have hpages := pages.toNat_lt
  have hlimit := b.limit.toNat_lt
  have hbefore : (UInt64.ofNat (pageCount buffer)).toNat = pageCount buffer :=
    UInt64.toNat_ofNat_of_lt' (by rw [UInt64.size]; omega)
  have hadded : (pages.toUInt64 - UInt64.ofNat (pageCount buffer)).toNat =
      pages.toNat - pageCount buffer := by
    rw [UInt64.toNat_sub_of_le _ _ (UInt64.le_iff_toNat_le.2 (by simpa [hbefore] using hgrows)),
      hbefore, UInt32.toNat_toUInt64]
  have hover : b.limit.toUInt64 < b.used + (pages.toUInt64 - UInt64.ofNat (pageCount buffer)) ↔
      b.limit.toNat < b.used.toNat + (pages.toNat - pageCount buffer) := by
    rw [UInt64.lt_iff_toNat_lt, UInt64.toNat_add, hadded, UInt32.toNat_toUInt64,
      Nat.mod_eq_of_lt (by omega)]
  have hshrinks : ¬ pages.toUInt64 < UInt64.ofNat (pageCount buffer) := by
    rw [UInt64.lt_iff_toNat_lt, hbefore, UInt32.toNat_toUInt64]
    omega
  have hmore : UInt64.ofNat (pageCount buffer) < pages.toUInt64 ↔
      pageCount buffer < pages.toNat := by
    rw [UInt64.lt_iff_toNat_lt, hbefore, UInt32.toNat_toUInt64]
  unfold reallocate acquire
  constructor
  · intro hexceeds
    rw [if_pos (hmore.2 (by omega))]
    simp [hmore.2 (show pageCount buffer < pages.toNat by omega), reserve, hover.2 hexceeds, bind,
      EStateM.bind]
  · intro hfits
    by_cases hadds : pageCount buffer < pages.toNat
    · simp [hmore.2 hadds, hshrinks, reserve, mt hover.1 (Nat.not_lt.2 hfits), draw,
        PageSource.request, bind, EStateM.bind, pure, EStateM.pure]
    · simp [mt hmore.1 hadds, hshrinks, draw, PageSource.request, bind, EStateM.bind, pure,
        EStateM.pure]

/-- A budget over the heap allows exactly the growth that it has room for. -/
theorem reallocate_budget_iff {buffer : ByteArray} {pages : UInt32} {b : PageBudget}
    (hused : b.used.toNat ≤ b.limit.toNat) (hgrows : pageCount buffer ≤ pages.toNat) :
    (∃ bytes a', reallocate buffer pages { budget := some b } = .ok bytes a') ↔
      b.used.toNat + (pages.toNat - pageCount buffer) ≤ b.limit.toNat := by
  obtain ⟨hfails, hanswers⟩ := reallocate_budget hused hgrows
  constructor
  · rintro ⟨bytes, a', hok⟩
    by_contra hover
    obtain ⟨e, herror⟩ := hfails (Nat.not_le.1 hover)
    rw [herror] at hok
    cases hok
  · intro hfits
    obtain ⟨a', hok⟩ := hanswers hfits
    exact ⟨_, a', hok⟩

end Allocator

/-- A new memory has the pages that its limits begin with, and they are zero. -/
theorem Memory.bytes_of_new {limits : Limits} {allocator : Nat} {cap : UInt32} {a a' : Allocator}
    {m : Memory} (hok : new limits allocator cap a = .ok m a') :
    m.bytes = appendZeroPages .empty limits.min.toNat := by
  simp only [new] at hok
  split at hok
  · simp [estate_throw] at hok
  simp only [estate_bind_eq_ok, estate_pure_eq_ok] at hok
  obtain ⟨_, _, hallocate, rfl, -⟩ := hok
  exact Allocator.eq_of_allocate hallocate

end IntWasm
