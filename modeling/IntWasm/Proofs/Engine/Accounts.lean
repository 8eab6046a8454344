import IntWasm.Proofs.Engine.Linking

/-!
# Accounts of pages

The budget of an allocator always counts the pages of the memories that were made with it, whatever
an embedder and running code do and whichever requests the source of the pages refuses. One memory
changes at a time, together with its allocator; `Store.Accounted.exchange` is the argument for all
such changes. Main statement: `budget_counts_pages`.
-/

namespace IntWasm

variable {H σ : Type}

/-! ## Entries of arrays -/

/-- Setting an entry to what it is changes nothing. -/
theorem setIfInBounds_self {α : Type} {entries : Array α} {i : Nat} {a : α}
    (hentry : ∀ b, entries[i]? = some b → b = a) : entries.setIfInBounds i a = entries := by
  cases hplace : entries[i]? with
  | none => exact Array.setIfInBounds_eq_of_size_le (Array.getElem?_eq_none_iff.1 hplace)
  | some b =>
    obtain ⟨hlt, hb⟩ := Array.getElem?_eq_some_iff.1 hplace
    rw [← hentry b hplace, ← hb, Array.setIfInBounds, dif_pos hlt, Array.set_getElem_self]

/-- Modifying an entry sets it. -/
theorem modify_eq_setIfInBounds {α : Type} [Inhabited α] (entries : Array α) (i : Nat) (f : α → α) :
    entries.modify i f = entries.setIfInBounds i (f (entries[i]?.getD default)) := by
  apply Array.ext'
  rw [Array.toList_modify, Array.toList_setIfInBounds, List.modify_eq_set, Array.getElem?_toList]

/-! ## Sums of pages -/

/-- The pages of a memory that a given allocator has handed out. -/
def Memory.share (m : Memory) (allocator : Nat) : Nat :=
  if m.allocator = allocator then m.size.toNat else 0

/-- The pages of all memories of a store that a given allocator has handed out. -/
def Store.pagesOf (s : Store H σ) (allocator : Nat) : Nat :=
  (s.memories.toList.map (·.share allocator)).sum

/-- A memory's share depends on its size and its allocator. -/
theorem Memory.share_of_size_eq {m m' : Memory} (hallocator : m'.allocator = m.allocator)
    (hsize : m'.size = m.size) (i : Nat) : m'.share i = m.share i := by
  simp only [Memory.share, hallocator, hsize]

/-- A memory's share of its own allocator is its size. -/
theorem Memory.share_self (m : Memory) : m.share m.allocator = m.size.toNat := if_pos rfl

/-- A memory has no share of another allocator. -/
theorem Memory.share_of_ne {m : Memory} {i : Nat} (hne : m.allocator ≠ i) : m.share i = 0 :=
  if_neg hne

/-- All memories but one add up to the same pages, whatever that one is. -/
theorem exists_rest {memories : Array Memory} {address : Nat} {m : Memory}
    (hmemory : memories[address]? = some m) :
    ∃ rest : Nat → Nat, ∀ m' i,
      ((memories.setIfInBounds address m').toList.map (·.share i)).sum = rest i + m'.share i := by
  obtain ⟨hlt, -⟩ := Array.getElem?_eq_some_iff.1 hmemory
  refine ⟨fun i => ((memories.toList.take address).map (·.share i)).sum +
    ((memories.toList.drop (address + 1)).map (·.share i)).sum, fun m' i => ?_⟩
  rw [Array.toList_setIfInBounds, List.set_eq_take_append_cons_drop, if_pos (by simpa using hlt)]
  simp only [List.map_append, List.map_cons, List.sum_append, List.sum_cons]
  omega

/-- The shares of an allocator are the sizes of its memories. -/
theorem sum_map_share (memories : List Memory) (i : Nat) :
    (memories.map (·.share i)).sum =
      ((memories.filter (·.allocator = i)).map (·.size.toNat)).sum := by
  induction memories with
  | nil => rfl
  | cons m memories ih =>
    by_cases hallocator : m.allocator = i
    · rw [List.map_cons, List.sum_cons, ih]
      simp [Memory.share, hallocator]
    · rw [List.map_cons, List.sum_cons, ih]
      simp [Memory.share, hallocator]

/-- A memory has a part in the pages of its allocator. -/
theorem Store.share_le_pagesOf {s : Store H σ} {m : Memory} (hmem : m ∈ s.memories) (i : Nat) :
    m.share i ≤ s.pagesOf i :=
  List.single_le_sum (by simp) _ (List.mem_map_of_mem (by simpa using hmem))

/-! ## Stores whose accounts are right -/

/-- Every memory is bounded and has an allocator, and every allocator holds the pages of its
memories and as many pages outside of memories as a function says. -/
structure Store.Accounted (outside : Nat → Nat) (s : Store H σ) : Prop where
  bounded : ∀ m ∈ s.memories, m.Bounded
  allocator_lt : ∀ m ∈ s.memories, m.allocator < s.allocators.size
  outside_eq : ∀ i, s.allocators.size ≤ i → outside i = 0
  holds : ∀ (i : Nat) (a : Allocator), s.allocators[i]? = some a → a.Holds (outside i + s.pagesOf i)

namespace Store.Accounted

variable {outside : Nat → Nat} {s : Store H σ}

/-- Only memories and allocators matter. -/
theorem of_eq (haccounted : s.Accounted outside) {s' : Store H σ}
    (hmemories : s'.memories = s.memories) (hallocators : s'.allocators = s.allocators) :
    s'.Accounted outside :=
  ⟨by rw [hmemories]; exact haccounted.bounded,
    by rw [hmemories, hallocators]; exact haccounted.allocator_lt,
    by rw [hallocators]; exact haccounted.outside_eq,
    by simp only [pagesOf, hmemories, hallocators]; exact haccounted.holds⟩

/-- A memory is bounded at whatever address. -/
theorem bounded_getD (haccounted : s.Accounted outside) (address : Nat) :
    (s.memories[address]?.getD default).Bounded := by
  cases hmemory : s.memories[address]? with
  | none => exact Memory.bounded_default
  | some m => exact haccounted.bounded m (Array.mem_of_getElem? hmemory)

/-- Replacing an allocator needs a look at that allocator only. -/
theorem holds_set (pages : Nat → Nat) {allocators : Array Allocator} {k : Nat} {a' : Allocator}
    (hself : k < allocators.size → a'.Holds (pages k))
    (hother : ∀ i a, i ≠ k → allocators[i]? = some a → a.Holds (pages i)) (i : Nat) (a : Allocator)
    (ha : (allocators.setIfInBounds k a')[i]? = some a) : a.Holds (pages i) := by
  rw [Array.getElem?_setIfInBounds] at ha
  by_cases hi : k = i
  · rw [if_pos hi] at ha
    subst hi
    split at ha
    · rename_i hlt
      cases ha
      exact hself hlt
    · cases ha
  · rw [if_neg hi] at ha
    exact hother i a (Ne.symm hi) ha

/-- The allocator of a memory holds the pages of all its memories. -/
theorem holds_getD (haccounted : s.Accounted outside) {k : Nat} (hlt : k < s.allocators.size) :
    (s.allocators[k]?.getD {}).Holds (outside k + s.pagesOf k) := by
  rw [Array.getElem?_eq_getElem hlt]
  exact haccounted.holds k _ (Array.getElem?_eq_getElem hlt)

/-- A memory may change together with its allocator, if the allocator wins and loses what the memory
does. -/
theorem exchange (haccounted : s.Accounted outside) {address : Nat} {m m' : Memory} {a' : Allocator}
    (hmemory : s.memories[address]?.getD default = m) (hallocator : m'.allocator = m.allocator)
    (hcap : m'.cap = m.cap) (hbounded : m'.Bounded)
    (hholds : ∀ n, (s.allocators[m.allocator]?.getD {}).Holds (n + m.size.toNat) →
      a'.Holds (n + m'.size.toNat)) :
    Accounted outside { s with
      memories := s.memories.setIfInBounds address m'
      allocators := s.allocators.setIfInBounds m.allocator a' } := by
  cases hplace : s.memories[address]? with
  | none =>
    -- There is no such memory: the one that stands for it has no pages and never gets any.
    have hm : m = default := by rw [← hmemory, hplace]; rfl
    have hsize : m.size.toNat = 0 := by rw [hm]; rfl
    have hsize' : m'.size.toNat = 0 := by
      have hle := hbounded.pages_le
      rw [hcap, hm, ← hbounded.toNat_size] at hle
      exact Nat.le_zero.1 hle
    have hsame : s.memories.setIfInBounds address m' = s.memories :=
      Array.setIfInBounds_eq_of_size_le (Array.getElem?_eq_none_iff.1 hplace)
    refine ⟨by rw [hsame]; exact haccounted.bounded, ?_, ?_, ?_⟩
    · simp only [hsame, Array.size_setIfInBounds]
      exact haccounted.allocator_lt
    · simp only [Array.size_setIfInBounds]
      exact haccounted.outside_eq
    · simp only [pagesOf, hsame]
      refine holds_set (fun i => outside i + s.pagesOf i) (fun hlt => ?_)
        fun i a _ ha => haccounted.holds i a ha
      have hnew := hholds (outside m.allocator + s.pagesOf m.allocator) (by
        rw [hsize]
        exact haccounted.holds_getD hlt)
      rwa [hsize'] at hnew
  | some m₀ =>
    have hm : m₀ = m := by rw [← hmemory, hplace]; rfl
    subst hm
    obtain ⟨rest, hrest⟩ := exists_rest hplace
    have hbefore (i : Nat) : s.pagesOf i = rest i + m₀.share i := by
      rw [← hrest m₀ i, pagesOf,
        setIfInBounds_self fun m hm => Option.some.inj (hm.symm.trans hplace)]
    refine ⟨fun m hm => ?_, fun m hm => ?_, ?_, ?_⟩
    · rcases Array.mem_or_eq_of_mem_setIfInBounds hm with hm | rfl
      · exact haccounted.bounded m hm
      · exact hbounded
    · rw [Array.size_setIfInBounds]
      rcases Array.mem_or_eq_of_mem_setIfInBounds hm with hm | rfl
      · exact haccounted.allocator_lt m hm
      · rw [hallocator]
        exact haccounted.allocator_lt m₀ (Array.mem_of_getElem? hplace)
    · simp only [Array.size_setIfInBounds]
      exact haccounted.outside_eq
    · simp only [pagesOf, hrest]
      refine holds_set (fun i => outside i + (rest i + m'.share i)) (fun hlt => ?_)
        fun i a hne ha => ?_
      · have hheld := haccounted.holds_getD hlt
        rw [hbefore, Memory.share_self, ← Nat.add_assoc] at hheld
        rw [← hallocator, Memory.share_self, hallocator, ← Nat.add_assoc]
        exact hholds _ hheld
      · have hheld := haccounted.holds i a ha
        rw [hbefore, Memory.share_of_ne (Ne.symm hne)] at hheld
        rw [Memory.share_of_ne (by rw [hallocator]; exact Ne.symm hne)]
        exact hheld

/-- A memory may change alone, if its size stays what it is. -/
theorem modifyMemory (haccounted : s.Accounted outside) (address : Nat) {f : Memory → Memory}
    (hallocator : ∀ m, (f m).allocator = m.allocator) (hcap : ∀ m, (f m).cap = m.cap)
    (hsize : ∀ m, (f m).bytes.size = m.bytes.size) :
    (s.modifyMemory address f).Accounted outside := by
  set m := s.memories[address]?.getD default with hm
  have hbounded : (f m).Bounded := by
    have hbefore := haccounted.bounded_getD address
    exact ⟨by simpa only [pageCount, hsize, hcap] using hbefore.pages_le,
      by simpa only [hcap] using hbefore.cap_le⟩
  have hsame : (f m).size = m.size := by simp only [Memory.size, pageCount, hsize]
  have hkept (n : Nat) (hheld : (s.allocators[m.allocator]?.getD {}).Holds (n + m.size.toNat)) :
      (s.allocators[m.allocator]?.getD {}).Holds (n + (f m).size.toNat) := by rwa [hsame]
  have hexchange := haccounted.exchange hm.symm (hallocator m) (hcap m) hbounded hkept
  refine hexchange.of_eq (modify_eq_setIfInBounds s.memories address f) (Eq.symm ?_)
  refine setIfInBounds_self fun a ha => ?_
  rw [ha]
  rfl

/-- A memory that is made is counted. -/
theorem newMemory (haccounted : s.Accounted outside) (limits : Limits) {allocator : Nat}
    (cap : UInt32) (hlt : allocator < s.allocators.size) :
    (finalState (Store.newMemory limits allocator cap s)).Accounted outside := by
  have hnew := Memory.holds_new (haccounted.holds_getD hlt) limits allocator cap
  unfold Store.newMemory
  -- What was drawn is given back if the memory is refused; otherwise the new memory stands for it.
  cases hresult : Memory.new limits allocator cap (s.allocators[allocator]?.getD {}) with
  | error e a' =>
    rw [hresult] at hnew
    refine ⟨haccounted.bounded, ?_, ?_, holds_set (fun i => outside i + s.pagesOf i)
      (fun _ => hnew) fun i a _ ha => haccounted.holds i a ha⟩
    · simp only [finalState, Array.size_setIfInBounds]
      exact haccounted.allocator_lt
    · simp only [finalState, Array.size_setIfInBounds]
      exact haccounted.outside_eq
  | ok m a' =>
    rw [hresult] at hnew
    obtain ⟨hbounded, hallocator, hheld⟩ := hnew
    simp only [addMemory, finalState]
    refine ⟨fun m' hm' => ?_, fun m' hm' => ?_, ?_, ?_⟩
    · rcases Array.mem_push.1 hm' with hm' | rfl
      · exact haccounted.bounded m' hm'
      · exact hbounded
    · rw [Array.size_setIfInBounds]
      rcases Array.mem_push.1 hm' with hm' | rfl
      · exact haccounted.allocator_lt m' hm'
      · rwa [hallocator]
    · simp only [Array.size_setIfInBounds]
      exact haccounted.outside_eq
    · have hpages (i : Nat) : ((s.memories.push m).toList.map (·.share i)).sum =
          s.pagesOf i + m.share i := by
        simp [pagesOf]
      simp only [pagesOf, hpages]
      subst hallocator
      refine holds_set (fun i => outside i + (s.pagesOf i + m.share i)) (fun _ => ?_)
        fun i a hne ha => ?_
      · rw [Memory.share_self, ← Nat.add_assoc]
        exact hheld
      · rw [Memory.share_of_ne (Ne.symm hne)]
        exact haccounted.holds i a ha

/-- A memory that grows is counted with its new size. -/
theorem growMemory (haccounted : s.Accounted outside) (address : Nat) (pages : UInt32) :
    (finalState (Store.growMemory address pages s)).Accounted outside := by
  set m := s.memories[address]?.getD default with hm
  have hbounded := haccounted.bounded_getD address
  have hgrow (n : Nat) (hheld : (s.allocators[m.allocator]?.getD {}).Holds (n + m.size.toNat)) :=
    Memory.holds_grow hheld hbounded pages
  unfold Store.growMemory
  simp only [← hm]
  cases hresult : m.grow pages (s.allocators[m.allocator]?.getD {}) with
  | ok m' a' =>
    simp only [hresult] at hgrow
    have hm' := Memory.eq_of_grow hresult
    have hgrown := hbounded.grow hresult
    exact haccounted.exchange hm.symm (by rw [hm']) (by rw [hm']) hgrown hgrow
  | error e a' =>
    simp only [hresult] at hgrow
    have hexchange := haccounted.exchange hm.symm rfl rfl hbounded hgrow
    refine hexchange.of_eq (Eq.symm ?_) rfl
    refine setIfInBounds_self fun b hb => ?_
    rw [hm, hb]
    rfl

/-- A memory that is freed is not counted any more. -/
theorem freeMemory (haccounted : s.Accounted outside) (address : Nat) :
    (s.freeMemory address).Accounted outside := by
  have hbounded := haccounted.bounded_getD address
  refine haccounted.exchange rfl rfl rfl
    ⟨by rw [pageCount_empty]; exact Nat.zero_le _, hbounded.cap_le⟩ fun n hheld => ?_
  have hempty (m : Memory) : ({ m with bytes := .empty } : Memory).size.toNat = 0 := by
    simp [Memory.size, pageCount_empty]
  rw [hempty, Nat.add_zero]
  exact Memory.holds_free hheld hbounded

/-- A fresh allocator counts nothing. -/
theorem addAllocator (haccounted : s.Accounted outside) {a : Allocator} (hfresh : a.Fresh) :
    (s.addAllocator a).2.Accounted outside := by
  refine ⟨haccounted.bounded, fun m hm => ?_, fun i hi => haccounted.outside_eq i ?_,
    fun i a' ha' => ?_⟩
  · simp only [Store.addAllocator, Array.size_push]
    have hlt := haccounted.allocator_lt m hm
    omega
  · simp only [Store.addAllocator, Array.size_push] at hi
    omega
  · simp only [Store.addAllocator, Array.getElem?_push] at ha'
    split at ha'
    · rename_i hi
      cases ha'
      -- No memory has been made with the new allocator yet.
      have hnone : s.pagesOf i = 0 := by
        refine List.sum_eq_zero fun n hn => ?_
        obtain ⟨m, hm, rfl⟩ := List.mem_map.1 hn
        have hlt := haccounted.allocator_lt m (by simpa using hm)
        exact Memory.share_of_ne (by omega)
      intro b hb
      rw [show (s.addAllocator a).2.pagesOf i = s.pagesOf i from rfl, hnone,
        haccounted.outside_eq i hi.ge, hfresh b hb]
      exact ⟨rfl, Nat.zero_le _⟩
    · exact haccounted.holds i a' ha'

end Store.Accounted

/-- A memory that was freed has no pages. -/
theorem Store.size_of_freeMemory (s : Store H σ) {p : Nat} {m : Memory}
    (hfreed : (s.freeMemory p).memories[p]? = some m) : m.size = 0 := by
  simp only [freeMemory, Memory.free, Array.getElem?_setIfInBounds_self] at hfreed
  split at hfreed
  · obtain rfl := Option.some.inj hfreed
    simp [Memory.size, pageCount_empty]
  · cases hfreed

/-! ## Engines keep accounts -/

/-- No allocator is lost, no limit changes, and a store whose accounts are right is followed by one
whose accounts are right. -/
structure Store.KeepsAccounts (s s' : Store H σ) : Prop where
  limits : ∀ (i : Nat) (a : Allocator), s.allocators[i]? = some a →
    ∃ a', s'.allocators[i]? = some a' ∧ a.SameLimit a'
  accounted : ∀ {outside : Nat → Nat}, s.Accounted outside → s'.Accounted outside

namespace Store.KeepsAccounts

variable {s t u : Store H σ}

/-- Accounts are kept if memories and allocators are. -/
theorem of_eq (hmemories : t.memories = s.memories) (hallocators : t.allocators = s.allocators) :
    s.KeepsAccounts t :=
  ⟨fun i a ha => ⟨a, by rw [hallocators, ha], .refl a⟩,
    fun haccounted => haccounted.of_eq hmemories hallocators⟩

/-- A store keeps its own accounts. -/
theorem refl (s : Store H σ) : s.KeepsAccounts s := of_eq rfl rfl

/-- Accounts that are kept twice are kept. -/
theorem trans (hst : s.KeepsAccounts t) (htu : t.KeepsAccounts u) : s.KeepsAccounts u := by
  refine ⟨fun i a ha => ?_, fun hs => htu.accounted (hst.accounted hs)⟩
  obtain ⟨b, hb, hab⟩ := hst.limits i a ha
  obtain ⟨c, hc, hbc⟩ := htu.limits i b hb
  exact ⟨c, hc, hab.trans hbc⟩

/-- Allocators are not taken away. -/
theorem size_le (hst : s.KeepsAccounts t) : s.allocators.size ≤ t.allocators.size := by
  by_contra hlt
  obtain ⟨a, ha⟩ : ∃ a, s.allocators[t.allocators.size]? = some a :=
    ⟨_, Array.getElem?_eq_getElem (by omega)⟩
  obtain ⟨a', ha', -⟩ := hst.limits _ a ha
  exact absurd (Array.getElem?_eq_some_iff.1 ha').1 (Nat.lt_irrefl _)

/-- An allocator may be replaced by one with the same limit. -/
theorem limits_set {allocators : Array Allocator} {k : Nat} {a' : Allocator}
    (hsame : (allocators[k]?.getD {}).SameLimit a') (i : Nat) (a : Allocator)
    (ha : allocators[i]? = some a) :
    ∃ b, (allocators.setIfInBounds k a')[i]? = some b ∧ a.SameLimit b := by
  rw [Array.getElem?_setIfInBounds]
  by_cases hi : k = i
  · subst hi
    rw [ha] at hsame
    exact ⟨a', by rw [if_pos rfl, if_pos (Array.getElem?_eq_some_iff.1 ha).1], hsame⟩
  · exact ⟨a, by rw [if_neg hi, ha], .refl a⟩

/-- A change of a memory that keeps its size keeps the accounts. -/
theorem modifyMemory (s : Store H σ) (address : Nat) {f : Memory → Memory}
    (hallocator : ∀ m, (f m).allocator = m.allocator) (hcap : ∀ m, (f m).cap = m.cap)
    (hsize : ∀ m, (f m).bytes.size = m.bytes.size) : s.KeepsAccounts (s.modifyMemory address f) :=
  ⟨fun _ a ha => ⟨a, ha, .refl a⟩,
    fun haccounted => haccounted.modifyMemory address hallocator hcap hsize⟩

/-- Growing a memory keeps the accounts. -/
theorem growMemory (s : Store H σ) (address : Nat) (pages : UInt32) :
    s.KeepsAccounts (finalState (Store.growMemory address pages s)) := by
  refine ⟨?_, fun haccounted => haccounted.growMemory address pages⟩
  have hsame := Memory.grow_sameLimit (s.memories[address]?.getD default) pages
    (s.allocators[(s.memories[address]?.getD default).allocator]?.getD {})
  unfold Store.growMemory
  simp only
  split
  · rename_i hresult
    rw [hresult] at hsame
    exact limits_set hsame
  · rename_i hresult
    rw [hresult] at hsame
    exact limits_set hsame

/-- Freeing a memory keeps the accounts. -/
theorem freeMemory (s : Store H σ) (address : Nat) : s.KeepsAccounts (s.freeMemory address) :=
  ⟨limits_set (.release _ _), fun haccounted => haccounted.freeMemory address⟩

/-- Making a memory keeps the accounts. -/
theorem newMemory (limits : Limits) {allocator : Nat} (cap : UInt32)
    (hlt : allocator < s.allocators.size) :
    s.KeepsAccounts (finalState (Store.newMemory limits allocator cap s)) := by
  refine ⟨?_, fun haccounted => haccounted.newMemory limits cap hlt⟩
  have hsame := Memory.new_sameLimit limits allocator cap (s.allocators[allocator]?.getD {})
  unfold Store.newMemory
  split
  · rename_i hresult
    rw [hresult] at hsame
    exact limits_set hsame
  · rename_i hresult
    rw [hresult] at hsame
    exact limits_set hsame

/-- Adding a fresh allocator keeps the accounts. -/
theorem addAllocator {a : Allocator} (hfresh : a.Fresh) : s.KeepsAccounts (s.addAllocator a).2 := by
  refine ⟨fun i b hb => ⟨b, ?_, .refl b⟩, fun haccounted => haccounted.addAllocator hfresh⟩
  simp only [Store.addAllocator, Array.getElem?_push]
  rw [if_neg (Nat.ne_of_lt (Array.getElem?_eq_some_iff.1 hb).1), hb]

/-- Giving back the memory of an instance keeps the accounts. -/
theorem release (inst : Instance H) (s : Store H σ) : s.KeepsAccounts (Engine.release inst s) := by
  unfold Engine.release
  split
  · exact refl s
  · split
    · exact freeMemory s _
    · exact modifyMemory s _ (fun _ => rfl) (fun _ => rfl) fun _ => rfl

end Store.KeepsAccounts

/-- Running code keeps accounts. -/
theorem Instance.allows_keepsAccounts (inst : Instance H) :
    inst.Allows (Store.KeepsAccounts (H := H) (σ := σ)) where
  refl := .refl
  trans _ _ _ := .trans
  touches htouches := by
    cases htouches with
    | global => exact .of_eq rfl rfl
    | bytes start w width =>
      exact .modifyMemory _ _ (fun _ => rfl) (fun _ => rfl) fun _ => size_storeWord ..
    | grow pages => exact .growMemory _ _ pages
    | observe => exact .of_eq rfl rfl

/-- What an embedder does without running code keeps accounts. -/
theorem Errand.run_keepsAccounts {s : Store H σ} {e : Errand H σ} (hadmissible : e.Admissible s) :
    s.KeepsAccounts (e.run s) := by
  cases e with
  | newAllocator a => exact .addAllocator hadmissible
  | newMemory limits allocator cap => exact .newMemory limits cap hadmissible
  | growMemory address pages => exact .growMemory s address pages
  | freeMemory address => exact .freeMemory s address
  | writeMemory address offset bytes =>
    refine .modifyMemory s address (fun m => ?_) (fun m => ?_) fun m => ?_ <;>
      obtain ⟨b, hsize, hb⟩ := m.overwrite_eq offset bytes <;> rw [hb]
    exact hsize
  | newGlobal g => exact .of_eq rfl rfl
  | setGlobal address bits => exact .of_eq rfl rfl
  | close address =>
    simp only [Errand.run, Engine.close]
    split
    · exact .refl s
    · split
      · exact .refl s
      · exact (Store.KeepsAccounts.release _ s).trans (.of_eq rfl rfl)
  | note traces counters host => exact .of_eq rfl rfl

/-! ## Instantiating keeps accounts -/

/-- Building an instance with an allocator of the store keeps accounts. -/
def Linking.KeepsAccounts (allocator : Nat) (l l' : Linking H σ) : Prop :=
  allocator < l.store.allocators.size → l.store.KeepsAccounts l'.store

/-- Linking keeps the accounts. -/
theorem Linking.Touches.keepsAccounts {resolver : Option (Resolver H σ)} {allocator : Nat}
    {l l' : Linking H σ} (htouches : l.Touches resolver allocator l') :
    l.KeepsAccounts allocator l' := by
  intro hlt
  cases htouches with
  | inst => exact .refl _
  | attach => exact .modifyMemory _ _ (fun _ => rfl) (fun _ => rfl) fun _ => rfl
  | global => exact .of_eq rfl rfl
  | allocate limits =>
    rw [Link.store_allocateMemory]
    exact .newMemory limits l.inst.config.maxMemoryPages hlt
  | segments hplace hsize => exact .modifyMemory _ _ (fun _ => rfl) (fun _ => rfl) fun _ => hsize _

/-- The allocator of a checked configuration is new or in the store, if that of the configuration
is. -/
theorem Config.Grounded.check {c c' : Config} {s : Store H σ} (hgrounded : c.Grounded s)
    (hok : c.check = .ok c') : c'.Grounded s := by
  obtain ⟨-, choice, rfl, hchoice⟩ := Config.check_eq_ok hok
  rcases hchoice with hchosen | ⟨a, rfl, hfresh⟩
  · simpa only [Config.Grounded, hchosen] using hgrounded
  · exact hfresh

/-- The allocator of a configuration is put into the store, if it is not there. -/
theorem Engine.placeAllocator_keepsAccounts {s : Store H σ} {c : Config}
    (hgrounded : c.Grounded s) :
    s.KeepsAccounts (placeAllocator c s).2 ∧
      (placeAllocator c s).1 < (placeAllocator c s).2.allocators.size := by
  unfold Config.Grounded at hgrounded
  unfold placeAllocator
  split at hgrounded
  · rename_i hnone
    simp only [hnone]
    exact ⟨.addAllocator (fun b hb => by cases hb), by simp [Store.addAllocator]⟩
  · rename_i a hfresh
    simp only [hfresh]
    exact ⟨.addAllocator hgrounded, by simp [Store.addAllocator]⟩
  · rename_i address hshared
    simp only [hshared]
    exact ⟨.refl s, hgrounded⟩

section

variable {host : Host H σ} {fuel : Nat}

/-- Instantiating a module keeps accounts, whether it succeeds or fails, if the functions of the
embedder keep them. -/
theorem Engine.instantiate_keepsAccounts {nesting : Nat} {m : Module}
    {resolver : Option (Resolver H σ)} {c : Config} {s : Store H σ} (hgrounded : c.Grounded s)
    (hhost : ∀ call, Moves Store.KeepsAccounts (host.call (invoke host fuel nesting) call)) :
    s.KeepsAccounts (finalState (instantiate host fuel nesting m resolver c s)) := by
  unfold instantiate
  cases hcheck : c.check with
  | error fault => exact .refl s
  | ok c =>
    obtain ⟨hplaced, hlt⟩ := placeAllocator_keepsAccounts (hgrounded.check hcheck)
    -- Every stage keeps accounts for an allocator that exists; that it does is carried along, since
    -- the store only grows.
    have hallows : Link.Allows host (invoke host fuel nesting) fuel resolver (placeAllocator c s).1
        (Linking.KeepsAccounts (placeAllocator c s).1) :=
      { refl := fun l _ => .refl l.store
        trans := fun _ _ _ hfirst hsecond hlt =>
          (hfirst hlt).trans (hsecond (hlt.trans_le (hfirst hlt).size_le))
        touches := fun htouches => htouches.keepsAccounts
        start := fun function l _ =>
          Link.start_moves l.inst.allows_keepsAccounts hhost function }
    have hbuild := Link.build_moves hallows m ⟨(placeAllocator c s).2, { config := c }⟩ hlt
    simp only
    cases hresult : Link.build host (invoke host fuel nesting) fuel m resolver
        (placeAllocator c s).1 ⟨(placeAllocator c s).2, { config := c }⟩ with
    | ok _ l =>
      rw [hresult] at hbuild
      have hadded : l.store.KeepsAccounts (l.store.addInstance l.inst).2 := .of_eq rfl rfl
      simp only
      exact hplaced.trans (hbuild.trans (hadded.trans
        ((Instance.allows_keepsAccounts l.inst).count _ _ _)))
    | error e l =>
      rw [hresult] at hbuild
      have hreleased := hplaced.trans (hbuild.trans (.release l.inst l.store))
      cases e with
      | crashed crash =>
        simp only
        exact hplaced.trans hbuild
      | _ =>
        simp only
        exact hreleased.trans ((Instance.allows_keepsAccounts l.inst).count _ _ _)

/-- Whatever an embedder does keeps accounts. -/
theorem Action.allowed_keepsAccounts (host : Host H σ) (fuel : Nat) :
    Action.Allowed host fuel (fun _ => True) Store.KeepsAccounts where
  code := Instance.allows_keepsAccounts
  waits _ _ _ _ _ _ _ hst := hst.trans (.of_eq rfl rfl)
  errand _ hadmissible := Errand.run_keepsAccounts hadmissible
  instantiate _ hadmissible hhost := Engine.instantiate_keepsAccounts hadmissible.2.2 hhost

/-- The stores that an embedder can get to from one without memories and allocators. -/
def Store.Reachable (host : Host H σ) (fuel : Nat) (s : Store H σ) : Prop :=
  ∃ s₀ : Store H σ, s₀.memories = #[] ∧ s₀.allocators = #[] ∧
    Relation.ReflTransGen (fun s s' => ∃ nesting, Acts host fuel nesting (fun _ => True) s s') s₀ s

/-- What an embedder does between calls leads from a reachable store to a reachable one. -/
theorem Store.Reachable.errand {s : Store H σ} (hreachable : s.Reachable host fuel) {e : Errand H σ}
    (hadmissible : e.Admissible s) : (e.run s).Reachable host fuel := by
  obtain ⟨s₀, hmemories, hallocators, hsteps⟩ := hreachable
  exact ⟨s₀, hmemories, hallocators, hsteps.tail ⟨0, .errand e, trivial, hadmissible, rfl⟩⟩

/-- The accounts of a store that an embedder can get to are right. -/
theorem Store.Reachable.accounted (hacts : host.Acts fuel fun _ => True) {s : Store H σ}
    (hreachable : s.Reachable host fuel) : s.Accounted fun _ => 0 := by
  obtain ⟨s₀, hmemories, hallocators, hsteps⟩ := hreachable
  have hallowed := Action.allowed_keepsAccounts host fuel
  have hkeeps := hallowed.many
    (fun s s' ⟨nesting, hstep⟩ => (hacts.moves hallowed nesting).2 s s' hstep) hsteps
  refine hkeeps.accounted ⟨?_, ?_, fun _ _ => rfl, ?_⟩
  · simp [hmemories]
  · simp [hmemories]
  · simp [hallocators]

/-- The budget of an allocator counts the pages of all memories that were made with it: whatever an
embedder has done, with allocators that fail at any time and functions that do as they like, the
number of pages in use is the sum of the sizes of these memories, it is within the limit, none of
the memories has more pages than are in use, a memory that is freed has none any more, and all that
are in use are reported. -/
theorem budget_counts_pages (hacts : host.Acts fuel fun _ => True) {s : Store H σ}
    (hreachable : s.Reachable host fuel) {i : Nat} {a : Allocator} {b : PageBudget}
    (hallocator : s.allocators[i]? = some a) (hbudget : a.budget = some b) :
    b.used.toNat = ((s.memories.toList.filter (·.allocator = i)).map (·.size.toNat)).sum ∧
      b.used.toNat ≤ b.limit.toNat ∧
      (∀ m ∈ s.memories, m.allocator = i →
        m.size.toNat ≤ b.used.toNat ∧ m.size.toNat = pageCount m.bytes) ∧
      (∀ (p : Nat) (m : Memory), (s.freeMemory p).memories[p]? = some m → m.size = 0) ∧
      a.used = b.used.toNat := by
  have haccounted := hreachable.accounted hacts
  have hholds := haccounted.holds i a hallocator
  rw [Nat.zero_add] at hholds
  obtain ⟨hused, hle⟩ := hholds b hbudget
  refine ⟨?_, by omega, fun m hm hmade => ⟨?_, (haccounted.bounded m hm).toNat_size⟩,
    fun p m hfreed => s.size_of_freeMemory hfreed, ?_⟩
  · rw [hused, Store.pagesOf, sum_map_share]
  · subst hmade
    rw [hused, ← m.share_self]
    exact Store.share_le_pagesOf hm _
  · rw [hholds.used_eq hbudget, hused]

end

/-- An embedder whose only function lets a memory grow. -/
def growingHost : Host Unit Unit where
  call _ _ s := .ok none (finalState (Store.growMemory 0 1 s))

/-- All that the embedder does is to grow one memory. -/
theorem growingHost_acts (fuel : Nat) {P : Action Unit Unit → Prop}
    (hgrow : P (.errand (.growMemory 0 1))) : growingHost.Acts fuel P :=
  fun _ _ _ => .single ⟨.errand (.growMemory 0 1), hgrow, trivial, rfl⟩

/-- An allocator whose source refuses the first request. -/
def refusingAllocator : Allocator :=
  { source := .unreliable "no pages" (· ≠ 0) 0, budget := some { limit := 4 } }

/-- A store whose allocator was asked for two memories and for another page, after its source had
refused the first request. -/
def refusedOnce : Store Unit Unit :=
  Errand.run (Errand.run (Errand.run { host := (), allocators := #[refusingAllocator] }
    (.newMemory { min := 2 } 0 0)) (.newMemory { min := 2 } 0 0)) (.growMemory 0 1)

/-- The request that was refused is not counted; the other memory is, with its growth. -/
theorem budget_counts_pages_refusedOnce :
    growingHost.Acts 7 (fun _ => True) ∧ refusedOnce.Reachable growingHost 7 ∧
      ∃ a b, refusedOnce.allocators[0]? = some a ∧ a.budget = some b ∧ b.limit = 4 ∧
        b.used.toNat = ((refusedOnce.memories.toList.filter (·.allocator = 0)).map
          (·.size.toNat)).sum ∧
        b.used.toNat ≤ b.limit.toNat ∧
        (∀ m ∈ refusedOnce.memories, m.allocator = 0 →
          m.size.toNat ≤ b.used.toNat ∧ m.size.toNat = pageCount m.bytes) ∧
        (∀ (p : Nat) (m : Memory), (refusedOnce.freeMemory p).memories[p]? = some m → m.size = 0) ∧
        a.used = b.used.toNat := by
  let s₀ : Store Unit Unit := { host := (), allocators := #[refusingAllocator] }
  have hbegun : s₀.Reachable growingHost 7 := by
    have hempty : Store.Reachable growingHost 7 ({ host := () } : Store Unit Unit) :=
      ⟨_, rfl, rfl, .refl⟩
    refine hempty.errand (e := .newAllocator refusingAllocator) fun b hb => ?_
    cases hb
    rfl
  let s₁ := Errand.run s₀ (.newMemory { min := 2 } 0 0)
  let s₂ := Errand.run s₁ (.newMemory { min := 2 } 0 0)
  -- The one allocator of the store stays there.
  have hfirst : s₀.KeepsAccounts s₁ := Errand.run_keepsAccounts Nat.zero_lt_one
  have hplace : 0 < s₁.allocators.size := Nat.lt_of_lt_of_le Nat.zero_lt_one hfirst.size_le
  have hsecond : s₁.KeepsAccounts s₂ := Errand.run_keepsAccounts hplace
  have hlast : s₂.KeepsAccounts refusedOnce := by
    unfold refusedOnce
    exact Errand.run_keepsAccounts trivial
  have hreachable : refusedOnce.Reachable growingHost 7 := by
    have hsome : s₁.Reachable growingHost 7 := hbegun.errand (e := .newMemory _ _ _) Nat.zero_lt_one
    unfold refusedOnce
    exact (hsome.errand (e := .newMemory _ _ _) hplace).errand (e := .growMemory 0 1) trivial
  obtain ⟨a, hallocator, hsame⟩ :=
    ((hfirst.trans hsecond).trans hlast).limits 0 refusingAllocator rfl
  have hlimit : a.budget.map (·.limit) = some 4 := hsame
  obtain ⟨b, hbudget, hfour⟩ := Option.map_eq_some_iff.1 hlimit
  exact ⟨growingHost_acts 7 trivial, hreachable, a, b, hallocator, hbudget, hfour,
    budget_counts_pages (growingHost_acts 7 trivial) hreachable hallocator hbudget⟩

end IntWasm
