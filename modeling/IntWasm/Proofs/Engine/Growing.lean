import IntWasm.Proofs.Engine.Dispatch
import IntWasm.Proofs.Engine.MemoryGuards
import IntWasm.Proofs.Memory.Contract
import IntWasm.Proofs.Opcode
import IntWasm.Session.Step

/-!
# Memories that grow

However a memory is used, it consists of whole pages, of no fewer than it began with and no more
than its maximum, its cap and the format allow. It grows exactly if it then still does and the
allocator does not fail; its bytes stay and zeros follow them. A request that fails changes no
memory, and the code or the embedder that made it goes on. Main statement:
`memories_grow_within_limits`.
-/

namespace IntWasm

namespace Memory

/-- The most pages that a memory with given limits and a given cap can have. A cap of zero is
none. -/
def mostPages (limits : Limits) (cap : UInt32) : Nat :=
  min (if limits.hasMax then limits.max.toNat else 65536)
    (min (if cap = 0 then 65536 else cap.toNat) 65536)

/-- No cap is the largest cap, and a larger one is cut to it. -/
theorem toNat_clampCap (cap : UInt32) :
    (clampCap cap).toNat = min (if cap = 0 then 65536 else cap.toNat) 65536 := by
  have hmax : maxPages.toNat = 65536 := rfl
  unfold clampCap
  by_cases hzero : cap = 0
  · rw [if_pos (.inl hzero), if_pos hzero, hmax, Nat.min_self]
  · by_cases hlarge : maxPages < cap
    · rw [if_pos (.inr hlarge), if_neg hzero, hmax]
      rw [UInt32.lt_iff_toNat_lt] at hlarge
      omega
    · rw [if_neg (by simp [hzero, hlarge]), if_neg hzero]
      rw [UInt32.lt_iff_toNat_lt] at hlarge
      omega

/-- A memory that was made with given limits and a given cap, with whole pages within them. -/
structure Sized (limits : Limits) (cap : UInt32) (m : Memory) : Prop where
  declared_eq : m.declared = limits
  cap_eq : m.cap = clampCap cap
  whole : pageSize ∣ m.bytes.size
  min_le : limits.min.toNat ≤ pageCount m.bytes
  le_most : pageCount m.bytes ≤ mostPages limits cap

namespace Sized

variable {limits : Limits} {cap : UInt32} {m : Memory}

/-- A memory of a known size is bounded. -/
theorem bounded (hsized : m.Sized limits cap) : m.Bounded where
  pages_le := by
    have hle := hsized.le_most
    rw [hsized.cap_eq, toNat_clampCap]
    exact hle.trans (Nat.min_le_right _ _)
  cap_le := hsized.cap_eq ▸ clampCap_le cap

/-- Its bytes are whole pages. -/
theorem size_eq (hsized : m.Sized limits cap) : m.bytes.size = pageSize * m.size.toNat := by
  rw [hsized.bounded.toNat_size]
  exact (Nat.mul_div_cancel' hsized.whole).symm

/-- Other bytes of the same size keep the size. -/
theorem of_bytes (hsized : m.Sized limits cap) {bytes : ByteArray}
    (hsize : bytes.size = m.bytes.size) : Sized limits cap { m with bytes } where
  declared_eq := hsized.declared_eq
  cap_eq := hsized.cap_eq
  whole := hsize ▸ hsized.whole
  min_le := by simpa [pageCount, hsize] using hsized.min_le
  le_most := by simpa [pageCount, hsize] using hsized.le_most

/-- Every number of pages that a memory admits is within its limits, and every one within them is
admitted. -/
theorem admits_iff (hsized : m.Sized limits cap) (pages : Nat) :
    m.admits pages = true ↔ pages ≤ mostPages limits cap := by
  simp only [admits, mostPages, hsized.declared_eq, hsized.cap_eq, toNat_clampCap, Bool.and_eq_true,
    Bool.or_eq_true, Bool.not_eq_true', decide_eq_true_eq]
  cases limits.hasMax with
  | true =>
    simp only [Bool.true_eq_false, false_or, if_true]
    omega
  | false =>
    simp only [true_or, and_true, Bool.false_eq_true, if_false]
    omega

/-- A memory that was made has the pages that it was to have. -/
theorem new (horder : limits.InOrder) {allocator : Nat} {a a' : Allocator}
    (hok : Memory.new limits allocator cap a = .ok m a') : m.Sized limits cap := by
  simp only [Memory.new] at hok
  split at hok
  · simp [estate_throw] at hok
  rename_i hfits
  simp only [estate_bind_eq_ok, estate_pure_eq_ok] at hok
  obtain ⟨bytes, _, hallocate, rfl, -⟩ := hok
  have hbytes := a.meets_contract.allocate hallocate
  have hcap : limits.min.toNat ≤ (clampCap cap).toNat := by
    rw [UInt32.lt_iff_toNat_lt] at hfits
    omega
  refine ⟨rfl, rfl, hbytes.dvd_size, hbytes.pageCount_eq.ge, ?_⟩
  simp only [hbytes.pageCount_eq, mostPages]
  rw [toNat_clampCap] at hcap
  refine Nat.le_min.2 ⟨?_, hcap⟩
  split
  · rename_i hhas
    exact UInt32.le_iff_toNat_le.1 (horder hhas)
  · omega

/-- Growth is decided by the limits and then by the allocator, which is not asked for nothing. -/
theorem grow_eq (hsized : m.Sized limits cap) (pages : UInt32) (a : Allocator) :
    m.grow pages a =
      if mostPages limits cap < m.size.toNat + pages.toNat then .error .limitExceeded a
      else if pages = 0 then .ok m a
      else
        match Allocator.reallocate m.bytes (m.size + pages) a with
        | .ok bytes a => .ok { m with bytes } a
        | .error e a => .error (.allocation e) a := by
  have hadmits := hsized.admits_iff (m.size.toNat + pages.toNat)
  unfold Memory.grow
  by_cases hover : mostPages limits cap < m.size.toNat + pages.toNat
  · have hrefused : ¬ m.admits (m.size.toNat + pages.toNat) = true :=
      fun h => Nat.not_lt.2 (hadmits.1 h) hover
    exact (if_pos hrefused).trans (if_pos hover).symm
  · have hadmitted := hadmits.2 (Nat.not_lt.1 hover)
    exact (if_neg (not_not_intro hadmitted)).trans (if_neg hover).symm

/-- Growth succeeds within the limits, if the allocator does not fail where it is asked. -/
theorem grow_ok_iff (hsized : m.Sized limits cap) (pages : UInt32) (a : Allocator) :
    (∃ m' a', m.grow pages a = .ok m' a') ↔ m.size.toNat + pages.toNat ≤ mostPages limits cap ∧
      (pages = 0 ∨ ∃ bytes a', Allocator.reallocate m.bytes (m.size + pages) a = .ok bytes a') := by
  rw [hsized.grow_eq]
  constructor
  · rintro ⟨m', a', hok⟩
    split at hok
    · cases hok
    rename_i hwithin
    refine ⟨Nat.not_lt.1 hwithin, ?_⟩
    split at hok
    · rename_i hpages
      exact .inl hpages
    · split at hok
      · rename_i hrealloc
        exact .inr ⟨_, _, hrealloc⟩
      · cases hok
  · rintro ⟨hwithin, hpages | ⟨bytes, a', hrealloc⟩⟩
    · exact ⟨m, a, by rw [if_neg (Nat.not_lt.2 hwithin), if_pos hpages]⟩
    · rw [if_neg (Nat.not_lt.2 hwithin)]
      by_cases hpages : pages = 0
      · exact ⟨m, a, if_pos hpages⟩
      · rw [if_neg hpages, hrealloc]
        exact ⟨_, _, rfl⟩

/-- A memory that has grown keeps its limits and its bytes, and zeros follow them. -/
theorem grow (hsized : m.Sized limits cap) {pages : UInt32} {a a' : Allocator} {m' : Memory}
    (hok : m.grow pages a = .ok m' a') :
    m'.Sized limits cap ∧ Continues m.bytes m'.bytes (m.size.toNat + pages.toNat) := by
  have hsame := hsized.bounded.toNat_size
  rw [hsized.grow_eq] at hok
  split at hok
  · cases hok
  rename_i hwithin
  split at hok
  · rename_i hnone
    obtain ⟨rfl, -⟩ := EStateM.Result.ok.inj hok
    refine ⟨hsized, ?_⟩
    rw [hnone, UInt32.toNat_zero, Nat.add_zero, hsame]
    exact .refl hsized.whole
  rename_i hsome
  split at hok
  swap
  · cases hok
  rename_i bytes _ hrealloc
  obtain ⟨rfl, -⟩ := EStateM.Result.ok.inj hok
  have hadmits := (hsized.admits_iff _).2 (Nat.not_lt.1 hwithin)
  obtain ⟨hsum, -, -⟩ := grow_admitted hsized.bounded hadmits hsome
  have hbytes := a.meets_contract.reallocate hsized.whole hrealloc
  rw [hsum, ← hsame] at hbytes
  have hleast := hsized.min_le
  exact ⟨⟨hsized.declared_eq, hsized.cap_eq, hbytes.dvd_size,
    by simp only [hbytes.pageCount_eq]; omega, by simp only [hbytes.pageCount_eq]; omega⟩, hbytes⟩

end Sized

/-! ## Uses one after the other -/

/-- A use of a memory. When it grows, its allocator may be in any state. -/
inductive Use where
  | grow (pages : UInt32) (a : Allocator)
  | load (base offset : UInt32) (width : Nat)
  | store (base offset : UInt32) (width : Nat) (w : UInt64)
  | read (offset length : UInt32)
  | write (offset : UInt32) (bytes : List UInt8)

/-- The memory after a use, whether it has succeeded or not. -/
def use (m : Memory) : Use → Memory
  | .grow pages a =>
    match m.grow pages a with
    | .ok m' _ => m'
    | .error _ _ => m
  | .load _ _ _ | .read _ _ => m
  | .store base offset width w => (m.store base offset width w).toOption.getD m
  | .write offset bytes => m.overwrite offset bytes

/-- The memory after uses one after the other. -/
def uses (m : Memory) (uses : List Use) : Memory := uses.foldl use m

namespace Sized

variable {limits : Limits} {cap : UInt32} {m : Memory}

/-- No use of a memory takes it past its limits. -/
theorem use (hsized : m.Sized limits cap) (u : Use) : (m.use u).Sized limits cap := by
  cases u with
  | grow pages a =>
    simp only [Memory.use]
    split
    · rename_i hok
      exact (hsized.grow hok).1
    · exact hsized
  | load | read => exact hsized
  | store base offset width w =>
    simp only [Memory.use, Memory.store]
    split
    · exact hsized.of_bytes (size_storeWord ..)
    · exact hsized
  | write offset bytes =>
    obtain ⟨b, hsize, hb⟩ := m.overwrite_eq offset bytes
    rw [Memory.use, hb]
    exact hsized.of_bytes hsize

/-- Whole pages within the limits are what every use keeps. -/
theorem uses (hsized : m.Sized limits cap) (us : List Use) : (m.uses us).Sized limits cap := by
  induction us generalizing m with
  | nil => exact hsized
  | cons u us ih => exact ih (hsized.use u)

end Sized

/-! ## Requests for pages -/

/-- What a request for pages makes of the memories of a store, of which `m` is the one at a place:
it grows, or all of them stay as they are. -/
def Requested (m : Memory) (place : Nat) (pages : UInt32) (a : Allocator)
    (before after : Array Memory) (granted : Bool) : Prop :=
  if granted then ∃ m' a', m.grow pages a = .ok m' a' ∧ after = before.setIfInBounds place m'
  else (∃ e a', m.grow pages a = .error e a') ∧ after = before

end Memory

section

variable {H σ : Type} {s : Store H σ} {place : Nat} {m : Memory}

/-- The allocator of a memory. -/
def Store.allocatorOf (s : Store H σ) (m : Memory) : Allocator := s.allocators[m.allocator]?.getD {}

/-- The answer to a request that is granted is the size before. -/
theorem Store.growMemory_requested (hm : s.memories[place]? = some m) (pages : UInt32) :
    match Store.growMemory place pages s with
    | .ok before s' =>
      before = m.size ∧ m.Requested place pages (s.allocatorOf m) s.memories s'.memories true
    | .error _ s' => m.Requested place pages (s.allocatorOf m) s.memories s'.memories false := by
  simp only [Store.growMemory, hm, Option.getD_some]
  cases hgrow : m.grow pages (s.allocators[m.allocator]?.getD {}) with
  | ok m' a' => exact ⟨rfl, m', a', hgrow, rfl⟩
  | error e a' => exact ⟨⟨e, a', hgrow⟩, rfl⟩

/-- The instruction that asks for pages leaves the size before or, if they are refused, all ones. It
does not trap. -/
theorem Activation.step_memoryGrow {inst : Instance H} {f : Activation} {i : Instruction}
    {pages : UInt64} {rest : List UInt64} (hmemory : inst.memory = some place)
    (hm : s.memories[place]? = some m) (hop : i.op? = some .memoryGrow)
    (hoperands : f.operands = pages :: rest) (hroom : f.operands.length ≤ f.room) :
    ∃ granted s', step inst f i s =
        .ok (.go { f with operands := (if granted then m.size.toUInt64 else 0xffffffff) :: rest })
          s' ∧
      m.Requested place pages.toUInt32 (s.allocatorOf m) s.memories s'.memories granted := by
  have hconstant (v : UInt64) : Activation.constant { f with operands := rest } v =
      .ok (.go { f with operands := v :: rest }) := constant_eq (by simpa [hoperands] using hroom)
  have hrequested := Store.growMemory_requested hm pages.toUInt32
  rw [step_of_op hop]
  simp only [pop, hoperands, Exec.lift, Exec.memoryGrow, Exec.memory, hmemory, bind, EStateM.bind,
    pure, EStateM.pure]
  cases hgrow : Store.growMemory place pages.toUInt32 s with
  | ok before s' =>
    rw [hgrow] at hrequested
    obtain ⟨rfl, hrequested⟩ := hrequested
    refine ⟨true, s'.count inst.config (Counters.growth true), by
      simp only [hconstant, if_true], ?_⟩
    rw [Store.memories_count]
    exact hrequested
  | error e s' =>
    rw [hgrow] at hrequested
    refine ⟨false, s'.count inst.config (Counters.growth false), by simp [hconstant], ?_⟩
    rw [Store.memories_count]
    exact hrequested

end

/-! ## Requests in a session -/

namespace Session

variable {session : Session} {name : String} {place : Nat} {m : Memory}

/-- A script goes on from what its first part has given. -/
theorem bind_of_eq {α β : Type} {x : Script α} {next : α → Script β} {s s' : Session} {a : α}
    (hx : x s = (a, s')) : (x >>= next) s = next a s' := by
  change next (x s).1 (x s).2 = _
  rw [hx]

/-- A name that is known leads to its memory. -/
theorem withMemory_eq (hname : session.memories.lookup name = some place)
    (hm : session.world.memories[place]? = some m) (act : Nat → Memory → Script Answer) :
    withMemory name act session = act place m session := by
  have hget : (get : Script Session) session = (session, session) := rfl
  rw [withMemory, bind_of_eq hget]
  simp only [hname, hm, Option.getD_some]

/-- A place that is known has its memory. -/
theorem memoryAt_eq (hm : session.world.memories[place]? = some m) :
    memoryAt place session = (m, session) := by
  change (session.world.memories[place]?.getD default, session) = _
  rw [hm, Option.getD_some]

/-- The embedder that asks for pages is told the size before, whether or not it gets them. -/
theorem perform_growMemory (hname : session.memories.lookup name = some place)
    (hm : session.world.memories[place]? = some m) (pages : UInt32) :
    ∃ after fault session', perform (.growMemory name pages) session =
        (.grown m.size after fault, session') ∧
      session'.world.memories[place]? = some after ∧
      m.Requested place pages (session.world.allocatorOf m) session.world.memories
        session'.world.memories fault.isNone := by
  have hrequested := Store.growMemory_requested hm pages
  have hlt := (Array.getElem?_eq_some_iff.1 hm).1
  simp only [perform]
  rw [withMemory_eq hname hm]
  cases hgrow : Store.growMemory place pages session.world with
  | ok before world =>
    rw [hgrow] at hrequested
    obtain ⟨-, m', a', hok, hmemories⟩ := hrequested
    have hafter : world.memories[place]? = some m' := by
      rw [hmemories]
      exact Array.getElem?_setIfInBounds_self_of_lt hlt
    have hworld : inWorld (Store.growMemory place pages) session =
        (.ok before, { session with world }) := by rw [inWorld, hgrow]
    refine ⟨m', none, { session with world }, ?_, hafter, m', a', hok, hmemories⟩
    rw [bind_of_eq hworld]
    exact bind_of_eq (memoryAt_eq hafter)
  | error e world =>
    rw [hgrow] at hrequested
    obtain ⟨hfails, hmemories⟩ := hrequested
    have hafter : world.memories[place]? = some m := hmemories ▸ hm
    have hworld : inWorld (Store.growMemory place pages) session =
        (.error e, { session with world }) := by rw [inWorld, hgrow]
    refine ⟨m, some e, { session with world }, ?_, hafter, hfails, hmemories⟩
    rw [bind_of_eq hworld]
    exact bind_of_eq (memoryAt_eq hafter)

end Session

/-! ## All uses -/

/-- A memory that is made with limits in order consists of whole pages within its limits and its
cap, whatever uses follow one another and whenever its allocator fails. It grows exactly if its
pages are then still within them and the allocator does not fail, which is not asked for nothing;
then its bytes stay and zeros follow. Whoever asks for pages is told the size before, or that they
are refused, and then no memory has changed. Allocators keep to their contract and are free to fail;
the heap does not, and a budget over it does exactly if it is exceeded. -/
theorem memories_grow_within_limits {limits : Limits} {allocator : Nat} {cap : UInt32}
    {a₀ a₁ : Allocator} {made : Memory} (horder : limits.InOrder)
    (hnew : Memory.new limits allocator cap a₀ = .ok made a₁) (uses : List Memory.Use) :
    let m := made.uses uses
    let most := Memory.mostPages limits cap
    (m.bytes.size = 65536 * m.size.toNat ∧ limits.min ≤ m.size ∧ m.size.toNat ≤ most) ∧
    (∀ pages a,
      ((∃ m' a', m.grow pages a = .ok m' a') ↔ m.size.toNat + pages.toNat ≤ most ∧
        (pages = 0 ∨ ∃ bytes a', Allocator.reallocate m.bytes (m.size + pages) a = .ok bytes a')) ∧
      (pages = 0 → m.grow pages a = .ok m a) ∧
      ∀ m' a', m.grow pages a = .ok m' a' → m' = { m with bytes := m'.bytes } ∧
        Continues m.bytes m'.bytes (m.size.toNat + pages.toNat)) ∧
    (∀ {H σ : Type} {s : Store H σ} {place : Nat}, s.memories[place]? = some m →
      (∀ pages, match Store.growMemory place pages s with
        | .ok before s' =>
          before = m.size ∧ m.Requested place pages (s.allocatorOf m) s.memories s'.memories true
        | .error _ s' => m.Requested place pages (s.allocatorOf m) s.memories s'.memories false) ∧
      ∀ {inst : Instance H} {f : Activation} {i : Instruction} {pages : UInt64}
        {rest : List UInt64}, inst.memory = some place → i.op? = some .memoryGrow →
        f.operands = pages :: rest →
        f.operands.length ≤ f.room →
        ∃ granted s', Activation.step inst f i s =
            .ok (.go { f with
              operands := (if granted then m.size.toUInt64 else 0xffffffff) :: rest }) s' ∧
          m.Requested place pages.toUInt32 (s.allocatorOf m) s.memories s'.memories granted) ∧
    (∀ {session : Session} {name : String} {place : Nat} (pages : UInt32),
      session.memories.lookup name = some place → session.world.memories[place]? = some m →
      ∃ after fault session', Session.perform (.growMemory name pages) session =
          (.grown m.size after fault, session') ∧
        session'.world.memories[place]? = some after ∧
        m.Requested place pages (session.world.allocatorOf m) session.world.memories
          session'.world.memories fault.isNone) ∧
    (∀ a : Allocator, a.MeetsContract) ∧
    (∀ (pages : UInt32) (answer : Except String ByteArray),
      (∀ bytes, answer = .ok bytes → Continues m.bytes bytes pages.toNat) →
      ∃ a : Allocator,
        (∀ bytes, answer = .ok bytes → ∃ a', Allocator.reallocate m.bytes pages a = .ok bytes a') ∧
        ∀ refusal, answer = .error refusal →
          ∃ a', Allocator.reallocate m.bytes pages a = .error (.refused refusal) a') ∧
    (∀ pages, ∃ bytes, Allocator.reallocate m.bytes pages {} = .ok bytes {}) ∧
    ∀ (b : PageBudget) (pages : UInt32), b.used.toNat ≤ b.limit.toNat → m.size ≤ pages →
      ((∃ bytes a', Allocator.reallocate m.bytes pages { budget := some b } = .ok bytes a') ↔
        b.used.toNat + (pages.toNat - m.size.toNat) ≤ b.limit.toNat) := by
  intro m most
  have hsized : m.Sized limits cap := (Memory.Sized.new horder hnew).uses uses
  have hsame := hsized.bounded.toNat_size
  have hmost : m.size.toNat ≤ most := hsame ▸ hsized.le_most
  have hnone (a : Allocator) : m.grow 0 a = .ok m a := by
    rw [hsized.grow_eq, if_neg (by simpa using hmost), if_pos rfl]
  refine ⟨⟨hsized.size_eq, UInt32.le_iff_toNat_le.2 (hsame ▸ hsized.min_le), hmost⟩,
    fun pages a => ⟨?_, fun hpages => hpages ▸ hnone a, fun m' a' hok =>
      ⟨Memory.eq_of_grow hok, (hsized.grow hok).2⟩⟩,
    fun hm => ⟨Store.growMemory_requested hm, fun hmemory hop hoperands hroom =>
      Activation.step_memoryGrow hmemory hm hop hoperands hroom⟩,
    fun pages hname hm => Session.perform_growMemory hname hm pages, Allocator.meets_contract,
    fun pages answer => Allocator.exists_answer hsized.whole,
    fun pages => ⟨_, Allocator.reallocate_heap m.bytes pages⟩, fun b pages hused hgrows => ?_⟩
  · exact hsized.grow_ok_iff pages a
  · have hcount : pageCount m.bytes ≤ pages.toNat := hsame ▸ UInt32.le_iff_toNat_le.1 hgrows
    rw [hsame]
    exact Allocator.reallocate_budget_iff hused hcount

/-- A memory of one page with a maximum of two, after a store and a request that its source refuses:
it can grow by nothing without its source. After one more request, which is granted, two pages are
too many. -/
theorem memories_grow_within_limits_two_pages :
    let limits : Limits := { flags := 1, min := 1, max := 2 }
    let refusing : Allocator := { source := .unreliable "no pages" (fun _ => false) 0 }
    ∃ made, limits.InOrder ∧ Memory.new limits 0 0 {} = .ok made {} ∧
      (let m := made.uses [.store 0 7 4 0x11223344, .grow 1 refusing]
       m.size.toNat ≤ 2 ∧ ∃ m' a', m.grow 0 refusing = .ok m' a') ∧
      let m := made.uses [.store 0 7 4 0x11223344, .grow 1 refusing, .grow 1 {}]
      m.size.toNat ≤ 2 ∧ ¬ ∃ m' a', m.grow 2 {} = .ok m' a' := by
  intro limits refusing
  have horder : limits.InOrder := fun _ => by decide
  have hnew : Memory.new limits 0 0 {} =
      .ok { declared := limits, cap := 65536, allocator := 0, bytes := appendZeroPages .empty 1 }
      {} := rfl
  have hmost : Memory.mostPages limits 0 = 2 := by decide
  obtain ⟨⟨-, -, hle⟩, hgrow, -⟩ :=
    memories_grow_within_limits horder hnew [.store 0 7 4 0x11223344, .grow 1 refusing]
  obtain ⟨⟨-, hleast, hle'⟩, hgrow', -⟩ :=
    memories_grow_within_limits horder hnew [.store 0 7 4 0x11223344, .grow 1 refusing, .grow 1 {}]
  rw [hmost] at hle hle'
  refine ⟨_, horder, hnew, ⟨hle, _, _, (hgrow 0 refusing).2.1 rfl⟩, hle', fun hgrows => ?_⟩
  have hfits := ((hgrow' 2 {}).1.1 hgrows).1
  rw [hmost] at hfits
  have hone : 1 ≤ _ := UInt32.le_iff_toNat_le.1 hleast
  change _ + 2 ≤ 2 at hfits
  omega

end IntWasm
