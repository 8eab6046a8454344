import IntWasm.Proofs.Engine.Moments

/-!
# Memories in use

A memory that is made with limits in order has no more pages than its declared maximum, and it only
grows until it is freed. So a memory that fits the limits of a module goes on fitting them, whatever
the embedder does but free it, until the instance that uses it is closed. Main statement:
`Action.allowed_keepsGuard`.
-/

namespace IntWasm

/-- Limits whose maximum, if there is one, is not below the minimum. -/
def Limits.InOrder (l : Limits) : Prop := l.hasMax = true → l.min ≤ l.max

namespace Memory

/-- A bounded memory that fits given limits and has no more pages than its own declared maximum. -/
structure Respects (limits : Limits) (m : Memory) : Prop extends m.Bounded where
  le_max : m.declared.hasMax = true → m.size ≤ m.declared.max
  satisfies : m.satisfies limits = true

variable {limits : Limits} {m : Memory}

/-- A memory satisfies limits if it has the pages and declares no larger maximum. -/
theorem satisfies_iff : m.satisfies limits = true ↔ limits.min ≤ m.size ∧
    (limits.hasMax = true → m.declared.hasMax = true ∧ m.declared.max ≤ limits.max) := by
  unfold Memory.satisfies
  cases limits.hasMax <;> simp

namespace Respects

/-- The pages of a memory are between the limits that it respects. -/
theorem bounds (hrespects : m.Respects limits) :
    limits.min ≤ m.size ∧ (limits.hasMax = true → m.size ≤ limits.max) := by
  obtain ⟨hmin, hmax⟩ := satisfies_iff.1 hrespects.satisfies
  refine ⟨hmin, fun hhas => ?_⟩
  obtain ⟨hdeclared, hle⟩ := hmax hhas
  exact UInt32.le_trans (hrespects.le_max hdeclared) hle

/-- Other bytes of the same size, and the mark that a memory is in use, do not matter. -/
theorem of_bytes (hrespects : m.Respects limits) {bytes : ByteArray} {attached : Bool}
    (hsize : bytes.size = m.bytes.size) : Respects limits { m with bytes, attached } := by
  have hsame : ({ m with bytes, attached } : Memory).size = m.size := by
    simp only [Memory.size, pageCount, hsize]
  refine ⟨hrespects.toBounded.of_bytes hsize, fun hdeclared => ?_, ?_⟩
  · rw [hsame]
    exact hrespects.le_max hdeclared
  · rw [satisfies_iff, hsame]
    exact satisfies_iff.1 hrespects.satisfies

/-- A memory that respects its own limits and fits others respects those. -/
theorem of_satisfies {own : Limits} (hrespects : m.Respects own)
    (hfits : m.satisfies limits = true) : m.Respects limits :=
  ⟨hrespects.toBounded, hrespects.le_max, hfits⟩

/-- A memory grows only as far as its declared maximum allows. -/
theorem grow (hrespects : m.Respects limits) {pages : UInt32} {a a' : Allocator} {m' : Memory}
    (hok : m.grow pages a = .ok m' a') : m'.Respects limits := by
  have hbounded' := hrespects.toBounded.grow hok
  have hsame := eq_of_grow hok
  have hsize := hrespects.toBounded.toNat_size
  have hsize' := hbounded'.toNat_size
  unfold Memory.grow at hok
  split at hok
  · cases hok
  rename_i hadmits
  split at hok
  · obtain ⟨rfl, -⟩ := EStateM.Result.ok.inj hok
    exact hrespects
  rename_i hpages
  split at hok
  swap
  · cases hok
  rename_i bytes _ hrealloc
  -- The sum does not overflow, since the guard of `grow` has bounded it by the cap.
  obtain ⟨hsum, -, -⟩ := grow_admitted hrespects.toBounded (not_not.1 hadmits) hpages
  have hcount := pageCount_of_reallocate hrealloc (by omega)
  have hbytes : m'.bytes = bytes := by
    obtain ⟨rfl, -⟩ := EStateM.Result.ok.inj hok
    rfl
  have hgrown : m'.size.toNat = m.size.toNat + pages.toNat := by
    rw [hsize', hbytes, hcount, hsum, hsize]
  have hdeclared : m'.declared = m.declared := by rw [hsame]
  refine ⟨hbounded', fun hhas => ?_, satisfies_iff.2 ⟨?_, ?_⟩⟩
  · rw [hdeclared] at hhas ⊢
    simp only [Memory.admits, hhas, Bool.not_true, Bool.false_or, Bool.and_eq_true,
      decide_eq_true_eq, not_not] at hadmits
    rw [UInt32.le_iff_toNat_le, hgrown]
    exact hadmits.2
  · have hmin := (satisfies_iff.1 hrespects.satisfies).1
    rw [UInt32.le_iff_toNat_le] at hmin ⊢
    omega
  · rw [hdeclared]
    exact (satisfies_iff.1 hrespects.satisfies).2

end Respects

/-- An allocation answers with as many pages as were asked for. -/
theorem pageCount_of_allocate {pages : UInt32} {a a' : Allocator} {bytes : ByteArray}
    (hok : Allocator.allocate pages a = .ok bytes a') : pageCount bytes = pages.toNat := by
  simp only [Allocator.allocate, estate_bind_eq_ok, estate_pure_eq_ok] at hok
  obtain ⟨_, _, -, _, _, -, rfl, -⟩ := hok
  rw [pageCount_appendZeroPages, pageCount_empty, Nat.zero_add]

/-- A new memory has the pages that its limits begin with, whether or not they are within its
maximum, and it fits an import with the same limits. -/
theorem bounded_new {allocator : Nat} {cap : UInt32} {a a' : Allocator}
    (hok : Memory.new limits allocator cap a = .ok m a') :
    m.Bounded ∧ m.declared = limits ∧ m.size = limits.min ∧ m.satisfies limits = true := by
  simp only [Memory.new] at hok
  split at hok
  · simp [estate_throw] at hok
  rename_i hfits
  simp only [estate_bind_eq_ok, estate_pure_eq_ok] at hok
  obtain ⟨bytes, _, hallocate, rfl, -⟩ := hok
  have hcount := pageCount_of_allocate hallocate
  have hle : limits.min.toNat ≤ (clampCap cap).toNat := by
    rw [UInt32.lt_iff_toNat_lt] at hfits
    omega
  have hbounded : Bounded { declared := limits, cap := clampCap cap, allocator, bytes } :=
    ⟨by simpa [hcount] using hle, clampCap_le cap⟩
  have hsize : ({ declared := limits, cap := clampCap cap, allocator, bytes } : Memory).size =
      limits.min := UInt32.toNat_inj.1 (by rw [hbounded.toNat_size, hcount])
  refine ⟨hbounded, rfl, hsize, satisfies_iff.2 ⟨?_, fun hhas => ⟨hhas, UInt32.le_refl _⟩⟩⟩
  rw [hsize]
  exact UInt32.le_refl _

/-- A memory that is made with limits in order respects them. -/
theorem respects_new (horder : limits.InOrder) {allocator : Nat} {cap : UInt32} {a a' : Allocator}
    (hok : Memory.new limits allocator cap a = .ok m a') : m.Respects limits := by
  obtain ⟨hbounded, hdeclared, hsize, hfits⟩ := bounded_new hok
  refine ⟨hbounded, fun hhas => ?_, hfits⟩
  rw [hdeclared] at hhas ⊢
  rw [hsize]
  exact horder hhas

end Memory

variable {H σ : Type}

/-! ## Memories of a store -/

/-- The memory at a place of a store is there and respects limits. -/
def Store.Respects (limits : Limits) (p : Nat) (s : Store H σ) : Prop :=
  ∃ m, s.memories[p]? = some m ∧ m.Respects limits

namespace Store.Respects

variable {limits : Limits} {p : Nat} {s t : Store H σ}

/-- A memory that respects limits is there. -/
theorem lt (hrespects : s.Respects limits p) : p < s.memories.size := by
  obtain ⟨m, hat, -⟩ := hrespects
  exact (Array.getElem?_eq_some_iff.1 hat).1

/-- It depends on the memories only. -/
theorem of_eq (hrespects : s.Respects limits p) (hmemories : t.memories = s.memories) :
    t.Respects limits p := by
  obtain ⟨m, hat, hm⟩ := hrespects
  exact ⟨m, hmemories ▸ hat, hm⟩

/-- Bytes of memories, and marks that they are in use, do not matter. -/
theorem of_bytes (hrespects : s.Respects limits p)
    (hmemories : ∀ m, s.memories[p]? = some m → ∃ bytes attached, bytes.size = m.bytes.size ∧
      t.memories[p]? = some { m with bytes, attached }) : t.Respects limits p := by
  obtain ⟨m, hat, hm⟩ := hrespects
  obtain ⟨bytes, attached, hbytes, hafter⟩ := hmemories m hat
  exact ⟨_, hafter, hm.of_bytes hbytes⟩

/-- Other bytes of the same size respect the limits. -/
theorem modifyMemory (hrespects : s.Respects limits p) (address : Nat) {f : Memory → Memory}
    (hf : ∀ m, ∃ bytes attached, bytes.size = m.bytes.size ∧ f m = { m with bytes, attached }) :
    (s.modifyMemory address f).Respects limits p := by
  refine hrespects.of_bytes fun m hat => ?_
  rw [Store.modifyMemory, Array.getElem?_modify]
  split
  · obtain ⟨bytes, attached, hbytes, hfm⟩ := hf m
    exact ⟨bytes, attached, hbytes, by rw [hat, Option.map_some, hfm]⟩
  · exact ⟨m.bytes, m.attached, rfl, hat⟩

/-- No growth of any memory breaks them. -/
theorem growMemory (hrespects : s.Respects limits p) (address : Nat) (pages : UInt32) :
    (finalState (Store.growMemory address pages s)).Respects limits p := by
  obtain ⟨m, hat, hm⟩ := hrespects
  unfold Store.growMemory
  simp only
  split
  · rename_i grown a hgrow
    simp only [Respects, finalState, Array.getElem?_setIfInBounds]
    split
    · rename_i heq
      subst heq
      rw [hat] at hgrow
      exact ⟨grown, by rw [if_pos (Array.getElem?_eq_some_iff.1 hat).1], hm.grow hgrow⟩
    · exact ⟨m, hat, hm⟩
  · exact ⟨m, hat, hm⟩

/-- A memory that is freed has no pages, which is enough for some limits. -/
theorem freeMemory (hrespects : s.Respects limits p) {address : Nat}
    (hother : limits.min = 0 ∨ address ≠ p) : (s.freeMemory address).Respects limits p := by
  obtain ⟨m, hat, hm⟩ := hrespects
  simp only [Respects, Store.freeMemory, Memory.free, Array.getElem?_setIfInBounds]
  split
  · rename_i heq
    subst heq
    have hmin : limits.min = 0 := hother.resolve_right fun hne => hne rfl
    have hempty : ({ m with bytes := .empty } : Memory).size = 0 := by
      rw [Memory.size, pageCount_empty]
      rfl
    refine ⟨{ m with bytes := .empty }, ?_, ⟨⟨?_, hm.cap_le⟩, fun _ => ?_, ?_⟩⟩
    · rw [if_pos (Array.getElem?_eq_some_iff.1 hat).1, hat]
      rfl
    · rw [pageCount_empty]
      exact Nat.zero_le _
    · rw [hempty]
      exact UInt32.zero_le
    · rw [Memory.satisfies_iff, hempty, hmin]
      exact ⟨UInt32.le_refl _, (Memory.satisfies_iff.1 hm.satisfies).2⟩
  · exact ⟨m, hat, hm⟩

/-- Nor does making one. -/
theorem newMemory (hrespects : s.Respects limits p) (made : Limits) (allocator : Nat)
    (cap : UInt32) : (finalState (Store.newMemory made allocator cap s)).Respects limits p := by
  obtain ⟨m, hat, hm⟩ := hrespects
  refine ⟨m, ?_, hm⟩
  unfold Store.newMemory
  split
  · exact getElem?_push_of_some hat
  · exact hat

/-- An instance gives back another memory, or lets go of one. -/
theorem release (hrespects : s.Respects limits p) {inst : Instance H}
    (hother : inst.ownsMemory = true → inst.memory ≠ some p) :
    (Engine.release inst s).Respects limits p := by
  unfold Engine.release
  split
  · exact hrespects
  · rename_i place hplace
    split
    · rename_i howns
      exact hrespects.freeMemory (.inr fun heq => hother howns (heq ▸ hplace))
    · exact hrespects.modifyMemory place fun m => ⟨m.bytes, false, rfl, rfl⟩

/-- Putting an instance together leaves the memories that there are as they are. -/
theorem settled (hrespects : s.Respects limits p) {l : Linking H σ} (hsettled : l.Settled s) :
    l.store.Respects limits p :=
  hrespects.of_bytes fun _ hat => hsettled.memories hat

end Store.Respects

/-! ## Memories in use -/

/-- The memory at a place respects limits. No other instance than its user, if there is one, owns
it. -/
structure Store.Secures (user : Option Nat) (limits : Limits) (p : Nat) (s : Store H σ) : Prop where
  memory : s.Respects limits p
  owned : ∀ {i : Nat}, s.Owns i p → user = some i
  used : ∀ {i : Nat}, user = some i → ∃ inst, s.instances[i]? = some inst ∧ inst.memory = some p

/-- The instance at a place is closed. -/
def Store.Closed (s : Store H σ) (i : Nat) : Prop :=
  ∃ inst : Instance H, s.instances[i]? = some inst ∧ inst.closed = true

/-- A memory respects limits unless its user is closed. -/
def Store.Guards (user : Option Nat) (limits : Limits) (p : Nat) (s : Store H σ) : Prop :=
  (∃ i, user = some i ∧ s.Closed i) ∨ s.Secures user limits p

/-- A user that is closed stays closed, and a memory that respects limits does so until its user is
closed. -/
structure Store.KeepsGuard (user : Option Nat) (limits : Limits) (p : Nat) (s s' : Store H σ) :
    Prop where
  closed : ∀ {i : Nat}, user = some i → s.Closed i → s'.Closed i
  guards : s.Secures user limits p → s'.Guards user limits p

/-- An action that does not free the memory at a place. Limits that ask for no pages allow it. -/
def Action.Spares (limits : Limits) (p : Nat) (a : Action H σ) : Prop :=
  limits.min = 0 ∨ a ≠ .errand (.freeMemory p)

section

variable {user : Option Nat} {limits : Limits} {p : Nat} {s t u : Store H σ}

/-- A closed instance that is kept stays closed. -/
theorem Store.Keeps.closed {i : Nat} (hkeeps : s.Keeps i t) (hclosed : s.Closed i) :
    t.Closed i := by
  obtain ⟨inst, hat, hclosed⟩ := hclosed
  obtain ⟨idle, hafter, -⟩ := hkeeps.instances hat
  exact ⟨_, hafter, hclosed⟩

/-- The user of a memory goes on using it, and no instance owns more. -/
theorem Store.Secures.step (hsecures : s.Secures user limits p)
    (hkeeps : ∀ i, user = some i → s.Keeps i t) (howners : s.KeepsOwners t)
    (hmemory : t.Respects limits p) : t.Secures user limits p := by
  refine ⟨hmemory, fun howns => ?_, fun huser => ?_⟩
  · rcases howners.owns howns with howns | hnew
    · exact hsecures.owned howns
    · have hlt := hsecures.memory.lt
      omega
  · obtain ⟨inst, hat, hplace⟩ := hsecures.used huser
    obtain ⟨idle, hafter, -⟩ := (hkeeps _ huser).instances hat
    exact ⟨_, hafter, hplace⟩

namespace Store.KeepsGuard

/-- A memory that is guarded stays guarded. -/
theorem apply (hkeeps : s.KeepsGuard user limits p t) (hguards : s.Guards user limits p) :
    t.Guards user limits p := by
  rcases hguards with ⟨i, huser, hclosed⟩ | hsecures
  · exact .inl ⟨i, huser, hkeeps.closed huser hclosed⟩
  · exact hkeeps.guards hsecures

/-- Doing nothing keeps memories guarded. -/
theorem refl (s : Store H σ) : s.KeepsGuard user limits p s := ⟨fun _ h => h, .inr⟩

/-- Two steps that keep memories guarded do so together. -/
theorem trans (hst : s.KeepsGuard user limits p t) (htu : t.KeepsGuard user limits p u) :
    s.KeepsGuard user limits p u :=
  ⟨fun huser hclosed => htu.closed huser (hst.closed huser hclosed),
    fun hsecures => htu.apply (hst.guards hsecures)⟩

/-- A step that leaves the user and the owners alone. -/
theorem of_keeps (hkeeps : ∀ i, user = some i → s.Keeps i t) (howners : s.KeepsOwners t)
    (hmemory : s.Secures user limits p → t.Respects limits p) : s.KeepsGuard user limits p t :=
  ⟨fun huser hclosed => (hkeeps _ huser).closed hclosed,
    fun hsecures => .inr (hsecures.step hkeeps howners (hmemory hsecures))⟩

/-- The machine that waits for an instance does not matter. -/
theorem modifyIdle (s : Store H σ) (address : Nat) (slot : Option UInt64) :
    s.KeepsGuard user limits p (s.modifyInstance address ({ · with idle := slot })) := by
  refine ⟨fun _ ⟨inst, hat, hclosed⟩ => ?_,
    fun hsecures => .inr ⟨hsecures.memory.of_eq rfl, ?_, ?_⟩⟩
  · obtain ⟨idle, hafter⟩ := Store.exists_idle hat address slot
    exact ⟨_, hafter, hclosed⟩
  · have howners : s.KeepsOwners (s.modifyInstance address ({ · with idle := slot })) :=
      .modifyInstance s address fun _ _ howns hplace => ⟨howns, hplace⟩
    intro i howns
    rcases howners.owns howns with howns | ⟨hge, hlt⟩
    · exact hsecures.owned howns
    · exact absurd hlt hge.not_gt
  · intro i huser
    obtain ⟨inst, hat, hplace⟩ := hsecures.used huser
    obtain ⟨idle, hafter⟩ := Store.exists_idle hat address slot
    exact ⟨_, hafter, hplace⟩

end Store.KeepsGuard

/-- Code keeps memories guarded. -/
theorem Instance.allows_keepsGuard (inst : Instance H) :
    inst.Allows (Store.KeepsGuard (H := H) (σ := σ) user limits p) where
  refl := .refl
  trans _ _ _ := .trans
  touches {s s'} htouches := by
    refine .of_keeps (fun i _ => (inst.allows_keeps i).touches htouches)
      (inst.allows_keepsOwners.touches htouches) fun hsecures => ?_
    have hrespects := hsecures.memory
    cases htouches with
    | bytes start w width =>
      exact hrespects.modifyMemory _ fun m => ⟨_, m.attached, size_storeWord .., rfl⟩
    | grow pages => exact hrespects.growMemory _ pages
    | global => exact hrespects.of_eq rfl
    | observe => exact hrespects.of_eq rfl

/-- Closing the user ends what the memory has to respect, and closing another instance does not
touch it. -/
theorem Store.KeepsGuard.close (address : Nat) (s : Store H σ) :
    s.KeepsGuard user limits p ((Errand.close address).run s) := by
  have howners := (Errand.close address).run_keepsOwners s
  have hrun : (Errand.close address).run s = finalState (Engine.close address s) := rfl
  unfold Engine.close at hrun
  cases hat : s.instances[address]? with
  | none =>
    rw [hat] at hrun
    rw [hrun]
    exact .refl s
  | some inst =>
    rw [hat] at hrun
    cases hopen : inst.closed with
    | true =>
      simp only [hopen, if_true] at hrun
      rw [hrun]
      exact .refl s
    | false =>
      simp only [hopen, Bool.false_eq_true, if_false] at hrun
      -- The memory goes with its user; any other instance does not own it, so releasing leaves it.
      by_cases huser : user = some address
      · have hclosed : ((Errand.close address).run s).Closed address := by
          refine ⟨{ inst with memory := none, idle := none, closed := true }, ?_, rfl⟩
          rw [hrun, finalState, Store.modifyInstance, Array.getElem?_modify, if_pos rfl,
            Engine.instances_release, hat]
          rfl
        refine ⟨fun hi _ => ?_, fun _ => .inl ⟨address, huser, hclosed⟩⟩
        obtain rfl := Option.some.inj (huser.symm.trans hi)
        exact hclosed
      · refine .of_keeps (fun i hi => Errand.run_keeps (fun heq => huser ?_) s) howners
          fun hsecures => ?_
        · rw [hi, Errand.close.inj heq]
        · rw [hrun]
          refine Store.Respects.of_eq (hsecures.memory.release fun howns hplace => huser ?_) rfl
          exact hsecures.owned ⟨inst, hat, howns, hplace⟩

/-- What an embedder does between calls keeps a memory guarded unless it frees it. -/
theorem Errand.run_keepsGuard {e : Errand H σ} (hspares : (Action.errand e).Spares limits p)
    (s : Store H σ) : s.KeepsGuard user limits p (e.run s) := by
  by_cases hclose : ∃ address, e = .close address
  · obtain ⟨address, rfl⟩ := hclose
    exact .close address s
  refine .of_keeps (fun i _ => e.run_keeps (fun heq => hclose ⟨i, heq⟩) s) (e.run_keepsOwners s)
    fun hsecures => ?_
  have hrespects := hsecures.memory
  cases e with
  | newAllocator a => exact hrespects.of_eq rfl
  | newMemory made allocator cap => exact hrespects.newMemory made allocator cap
  | growMemory address pages => exact hrespects.growMemory address pages
  | freeMemory address => exact hrespects.freeMemory (hspares.imp id fun hne heq => hne (heq ▸ rfl))
  | writeMemory address offset bytes =>
    refine hrespects.modifyMemory address fun m => ?_
    obtain ⟨b, hsize, hb⟩ := m.overwrite_eq offset bytes
    exact ⟨b, m.attached, hsize, hb⟩
  | newGlobal g => exact hrespects.of_eq rfl
  | setGlobal address bits => exact hrespects.of_eq rfl
  | close address => exact absurd ⟨address, rfl⟩ hclose
  | note traces counters host => exact hrespects.of_eq rfl

/-! ## Other instances -/

/-- Counting keeps the instances. -/
theorem Store.Keeps.count {i : Nat} (s : Store H σ) (c : Config) (f : Counters → Counters) :
    s.Keeps i (s.count c f) :=
  .of_eq (by simp) (by simp) (by simp)

/-- Putting an instance together leaves the memories in use as they are. -/
theorem Linking.Settled.keepsGuard {c : Config} {l : Linking H σ}
    (hsettled : l.Settled (Engine.placeAllocator c s).2) : s.KeepsGuard user limits p l.store := by
  have hinstances : l.store.instances = s.instances := by
    rw [hsettled.instances_eq, Engine.instances_placeAllocator]
  refine ⟨fun huser ⟨inst, hat, hclosed⟩ => ⟨inst, hinstances ▸ hat, hclosed⟩,
    fun hsecures => .inr ?_⟩
  have hplaced : (Engine.placeAllocator c s).2.Respects limits p :=
    hsecures.memory.of_eq (by simp)
  refine ⟨hplaced.settled hsettled, fun ⟨inst, hat, howns⟩ => ?_, fun huser => ?_⟩
  · exact hsecures.owned ⟨inst, hinstances ▸ hat, howns⟩
  · obtain ⟨inst, hat, hplace⟩ := hsecures.used huser
    exact ⟨inst, hinstances ▸ hat, hplace⟩

/-- Counting keeps a memory secured. -/
theorem Store.Secures.count (hsecures : s.Secures user limits p) (c : Config)
    (f : Counters → Counters) : (s.count c f).Secures user limits p :=
  hsecures.step (fun _ _ => .count s c f) (.of_eq (by simp) (by simp))
    (hsecures.memory.of_eq (by simp))

/-- Giving back another memory keeps this one secured. -/
theorem Store.Secures.release (hsecures : s.Secures user limits p) {inst : Instance H}
    (hother : inst.ownsMemory = true → inst.memory ≠ some p) :
    (Engine.release inst s).Secures user limits p :=
  hsecures.step (fun _ _ => .release inst s) (.release inst s) (hsecures.memory.release hother)

/-- An instance is added that owns another memory, or none. -/
theorem Store.Secures.addInstance (hsecures : s.Secures user limits p) {inst : Instance H}
    (hother : inst.ownsMemory = true → inst.memory ≠ some p) :
    (s.addInstance inst).2.Secures user limits p := by
  refine ⟨hsecures.memory.of_eq rfl, fun {i} ⟨found, hat, howns, hplace⟩ => ?_, fun huser => ?_⟩
  · simp only [Store.addInstance, Array.getElem?_push] at hat
    split at hat
    · obtain rfl := Option.some.inj hat
      exact absurd hplace (hother howns)
    · exact hsecures.owned ⟨found, hat, howns, hplace⟩
  · obtain ⟨found, hat, hplace⟩ := hsecures.used huser
    exact ⟨found, getElem?_push_of_some hat, hplace⟩

/-- What is left alone but for a step that keeps a memory in use. -/
theorem Store.KeepsGuard.andThen (hst : s.KeepsGuard user limits p t) (hkeeps : ∀ i, t.Keeps i u)
    (hsecures : s.Secures user limits p → t.Secures user limits p → u.Secures user limits p) :
    s.KeepsGuard user limits p u := by
  refine ⟨fun huser hclosed => (hkeeps _).closed (hst.closed huser hclosed), fun hs => ?_⟩
  rcases hst.guards hs with ⟨i, huser, hclosed⟩ | ht
  · exact .inl ⟨i, huser, (hkeeps i).closed hclosed⟩
  · exact .inr (hsecures hs ht)

variable {host : Host H σ} {fuel : Nat}

/-- An instantiation keeps memories guarded, if the host's functions do. -/
theorem Engine.instantiate_keepsGuard {nesting : Nat} {m : Module} (hvalid : m.Valid)
    (resolver : Option (Resolver H σ)) (config : Config) (s : Store H σ)
    (hhost : ∀ c, Moves (Store.KeepsGuard user limits p) (host.call (invoke host fuel nesting) c)) :
    s.KeepsGuard user limits p
      (finalState (instantiate host fuel nesting m resolver config s)) := by
  rcases instantiate_cases hvalid Instance.allows_keepsGuard hhost resolver config s with
    hsame | ⟨c, l, ⟨l₀, hsettled, hmemory, howns, hstarted⟩, hend⟩
  · simp only [hsame]
    exact .refl s
  have hbefore : s.KeepsGuard user limits p l.store := hsettled.keepsGuard.trans hstarted
  -- What the new instance owns has a place that no memory had before.
  have hother (hsecures : s.Secures user limits p) : l.inst.ownsMemory = true →
      l.inst.memory ≠ some p := fun howned hplace => by
    have hnew := (hsettled.own (howns ▸ howned) (hmemory ▸ hplace)).1
    rw [memories_placeAllocator] at hnew
    have hlt := hsecures.memory.lt
    omega
  rcases hend with ⟨f, hend⟩ | hend | ⟨f, hend⟩ <;> simp only [hend]
  · exact hbefore.andThen (fun _ => .trans (.addInstance _ _) (.count _ c f))
      fun hs ht => (ht.addInstance (hother hs)).count c f
  · exact hbefore
  · exact hbefore.andThen (fun _ => .trans (.release _ _) (.count _ c f))
      fun hs ht => (ht.release (hother hs)).count c f

/-- Whatever an embedder does but free a memory, it respects its limits until its user is closed. -/
theorem Action.allowed_keepsGuard (host : Host H σ) (fuel : Nat) (user : Option Nat)
    (limits : Limits) (p : Nat) :
    Action.Allowed host fuel (Action.Spares limits p) (Store.KeepsGuard user limits p) where
  code := Instance.allows_keepsGuard
  waits _ _ t address slot _ _ hst := hst.trans (.modifyIdle t address slot)
  errand hspares _ := Errand.run_keepsGuard hspares _
  instantiate _ hadmissible hhost := by
    obtain ⟨bytes, ending, hload⟩ := hadmissible.2.1
    exact Engine.instantiate_keepsGuard (Module.valid_of_load hload) _ _ _ hhost

end

end IntWasm
