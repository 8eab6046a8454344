import IntWasm.Proofs.Engine.Failures
import IntWasm.Proofs.Engine.MemoryLimits

/-!
# Memories that instances share

Importing a memory marks it as in use, and a marked memory is not imported again until the instance
lets go of it. The memory that an instance makes for itself is not marked. So no two instances use
one memory, as long as the embedder offers for import only memories that it has made; an instance's
own memory is imported by a second instance as if it were free. Main statement:
`memories_are_used_once`.
-/

namespace IntWasm

variable {H σ : Type}

/-! ## Users -/

namespace Store

/-- An instance has the memory at a place, its own or an imported one. -/
def Refers (s : Store H σ) (i p : Nat) : Prop :=
  ∃ inst : Instance H, s.instances[i]? = some inst ∧ inst.memory = some p

/-- A live instance uses the memory at a place. -/
def Uses (s : Store H σ) (i p : Nat) : Prop :=
  ∃ inst : Instance H, s.instances[i]? = some inst ∧ inst.closed = false ∧ inst.memory = some p

/-- The memory at a place is marked as in use. -/
def Attached (s : Store H σ) (p : Nat) : Prop :=
  ∃ m, s.memories[p]? = some m ∧ m.attached = true

/-- Every memory has one user at most. Those at the places that are offered belong to no instance,
and they are marked while they are used. -/
structure Unshared (places : List Nat) (s : Store H σ) : Prop where
  offered : ∀ {p : Nat}, p ∈ places → p < s.memories.size
  foreign : ∀ {i p : Nat}, p ∈ places → ¬ s.Owns i p
  there : ∀ {i p : Nat}, s.Refers i p → p < s.memories.size
  attached : ∀ {i p : Nat}, s.Refers i p → p ∈ places → s.Attached p
  once : ∀ {i j p : Nat}, s.Refers i p → s.Refers j p → i = j

/-- The memory at a place is kept for an instance that is being built: no instance has it, and if it
is offered, it is marked. -/
structure Held (places : List Nat) (p : Nat) (s : Store H σ) : Prop where
  there : p < s.memories.size
  attached : p ∈ places → s.Attached p
  unused : ∀ {i : Nat}, ¬ s.Refers i p

/-- A step shares no memory and takes none that is kept for an instance. -/
structure KeepsUses (places : List Nat) (s t : Store H σ) : Prop where
  unshared : s.Unshared places → t.Unshared places
  held : ∀ {p : Nat}, s.Held places p → t.Held places p

end Store

section

variable {places : List Nat} {s t u : Store H σ} {inst : Instance H} {p : Nat}

/-- A live instance that uses a memory has it. -/
theorem Store.Uses.refers {i : Nat} (huses : s.Uses i p) : s.Refers i p := by
  obtain ⟨inst, hat, -, hmemory⟩ := huses
  exact ⟨inst, hat, hmemory⟩

/-- Being open and having the memory is using it. -/
theorem Store.Uses.of_parts {i : Nat}
    (hat : (s.instances[i]?.map fun inst => (inst.closed, inst.memory)) = some (false, some p)) :
    s.Uses i p := by
  obtain ⟨inst, hat, hsame⟩ := Option.map_eq_some_iff.1 hat
  obtain ⟨hopen, hplace⟩ := Prod.mk.inj hsame
  exact ⟨inst, hat, hopen, hplace⟩

/-- A memory that is marked stays marked in a store that is spared. -/
theorem Store.Spares.attached (hspares : s.Spares t) (hattached : s.Attached p) : t.Attached p := by
  obtain ⟨m, hat, hm⟩ := hattached
  have hhusk := hspares.husks p
  rw [hat, Option.map_some] at hhusk
  obtain ⟨m', hat', hsame⟩ := Option.map_eq_some_iff.1 hhusk
  refine ⟨m', hat', ?_⟩
  have hmark := congrArg Memory.attached hsame
  exact hmark.trans hm

/-- A change of memories that does not unmark this one keeps it marked. -/
theorem Store.Attached.modifyMemory (hattached : s.Attached p) (address : Nat) {f : Memory → Memory}
    (hf : ∀ m : Memory, m.attached = true → (f m).attached = true ∨ address ≠ p) :
    (s.modifyMemory address f).Attached p := by
  obtain ⟨m, hat, hm⟩ := hattached
  rw [Attached, Store.modifyMemory, Array.getElem?_modify]
  split
  · rename_i heq
    exact ⟨f m, by rw [hat]; rfl, (hf m hm).resolve_right fun hne => hne heq⟩
  · exact ⟨m, hat, hm⟩

/-- Freeing does not unmark a memory. -/
theorem Store.Attached.freeMemory (hattached : s.Attached p) (address : Nat) :
    (s.freeMemory address).Attached p := by
  obtain ⟨m, hat, hm⟩ := hattached
  simp only [Attached, Store.freeMemory, Memory.free, Array.getElem?_setIfInBounds]
  split
  · rename_i heq
    subst heq
    rw [if_pos (Array.getElem?_eq_some_iff.1 hat).1, hat]
    exact ⟨_, rfl, hm⟩
  · exact ⟨m, hat, hm⟩

namespace Store.KeepsUses

/-- Doing nothing shares no memory. -/
theorem refl (s : Store H σ) : s.KeepsUses places s := ⟨id, id⟩

/-- Two steps that share no memory share none together. -/
theorem trans (hst : s.KeepsUses places t) (htu : t.KeepsUses places u) : s.KeepsUses places u :=
  ⟨fun hs => htu.unshared (hst.unshared hs), fun hs => htu.held (hst.held hs)⟩

/-- No memory goes or loses its mark, and no instance gets another memory than it had. -/
theorem of_le (hsize : s.memories.size ≤ t.memories.size)
    (hattached : ∀ {p : Nat}, s.Attached p → t.Attached p)
    (hinstances : ∀ {i : Nat} {inst : Instance H}, t.instances[i]? = some inst →
      inst.memory = none ∨ ∃ before : Instance H, s.instances[i]? = some before ∧
        inst.memory = before.memory ∧ inst.ownsMemory = before.ownsMemory) :
    s.KeepsUses places t := by
  have hrefers {i p : Nat} (hrefers : t.Refers i p) : s.Refers i p := by
    obtain ⟨inst, hat, hmemory⟩ := hrefers
    rcases hinstances hat with hnone | ⟨before, hbefore, hsame, -⟩
    · cases hnone.symm.trans hmemory
    · exact ⟨before, hbefore, hsame.symm.trans hmemory⟩
  have howns {i p : Nat} (howns : t.Owns i p) : s.Owns i p := by
    obtain ⟨inst, hat, howned, hmemory⟩ := howns
    rcases hinstances hat with hnone | ⟨before, hbefore, hsame, hkind⟩
    · cases hnone.symm.trans hmemory
    · exact ⟨before, hbefore, hkind.symm.trans howned, hsame.symm.trans hmemory⟩
  refine ⟨fun hs => ⟨?_, ?_, ?_, ?_, ?_⟩, fun hs => ⟨?_, ?_, ?_⟩⟩
  · exact fun hp => (hs.offered hp).trans_le hsize
  · exact fun hp hown => hs.foreign hp (howns hown)
  · exact fun hrefer => (hs.there (hrefers hrefer)).trans_le hsize
  · exact fun hrefer hp => hattached (hs.attached (hrefers hrefer) hp)
  · exact fun hi hj => hs.once (hrefers hi) (hrefers hj)
  · exact hs.there.trans_le hsize
  · exact fun hp => hattached (hs.attached hp)
  · exact fun hrefer => hs.unused (hrefers hrefer)

/-- The instances stay as they are. -/
theorem of_eq (hsize : s.memories.size ≤ t.memories.size)
    (hattached : ∀ {p : Nat}, s.Attached p → t.Attached p)
    (hinstances : t.instances = s.instances) : s.KeepsUses places t :=
  of_le hsize hattached fun hat => .inr ⟨_, hinstances ▸ hat, rfl, rfl⟩

/-- An instance is changed so that it has no other memory than it had. -/
theorem modifyInstance (s : Store H σ) (address : Nat) {f : Instance H → Instance H}
    (hf : ∀ inst, (f inst).memory = none ∨
      (f inst).memory = inst.memory ∧ (f inst).ownsMemory = inst.ownsMemory) :
    s.KeepsUses places (s.modifyInstance address f) := by
  refine of_le (Nat.le_refl _) (fun hattached => hattached) fun hat => ?_
  rw [Store.modifyInstance, Array.getElem?_modify] at hat
  split at hat
  · obtain ⟨before, hbefore, rfl⟩ := Option.map_eq_some_iff.1 hat
    rcases hf before with hnone | hsame
    · exact .inl hnone
    · exact .inr ⟨before, hbefore, hsame⟩
  · exact .inr ⟨_, hat, rfl, rfl⟩

/-- Counting shares no memory. -/
theorem count (s : Store H σ) (c : Config) (f : Counters → Counters) :
    s.KeepsUses places (s.count c f) := by
  unfold Store.count
  split
  · exact of_eq (Nat.le_refl _) (fun hattached => hattached) rfl
  · exact .refl s

/-- Placing an allocator shares no memory. -/
theorem placeAllocator (c : Config) (s : Store H σ) :
    s.KeepsUses places (Engine.placeAllocator c s).2 := by
  unfold Engine.placeAllocator
  split <;> exact of_eq (Nat.le_refl _) (fun hattached => hattached) rfl

end Store.KeepsUses

/-- Code shares no memory. -/
theorem Instance.allows_keepsUses (inst : Instance H) :
    inst.Allows (Store.KeepsUses (H := H) (σ := σ) places) where
  refl := .refl
  trans _ _ _ := .trans
  touches {s t} htouches := by
    have hspares : s.Spares t := inst.allows_spares.touches htouches
    have hsize : s.memories.size ≤ t.memories.size :=
      ((inst.allows_keeps 0).touches htouches).memories_le
    cases htouches with
    | global => exact .of_eq hsize hspares.attached rfl
    | bytes => exact .of_eq hsize hspares.attached rfl
    | grow pages =>
      refine .of_eq hsize hspares.attached ?_
      unfold Store.growMemory
      simp only
      split <;> rfl
    | observe => exact .of_eq hsize hspares.attached rfl

/-! ## Giving memories back -/

/-- An instance that no other one shares its memory with gives it back. -/
theorem Store.Unshared.release (hunshared : s.Unshared places)
    (hunused : ∀ p, inst.memory = some p → ∀ i, ¬ s.Refers i p) :
    (Engine.release inst s).Unshared places := by
  unfold Engine.release
  split
  · exact hunshared
  · rename_i place hplace
    split
    · have hkeeps : s.KeepsUses places (s.freeMemory place) :=
        .of_eq (by simp [Store.freeMemory]) (fun hattached => hattached.freeMemory place) rfl
      exact hkeeps.unshared hunshared
    · have hsize : (s.modifyMemory place ({ · with attached := false })).memories.size =
          s.memories.size := by simp [Store.modifyMemory]
      refine ⟨fun hp => hsize ▸ hunshared.offered hp, hunshared.foreign,
        fun hrefers => hsize ▸ hunshared.there hrefers, fun {i p} hrefers hp => ?_, hunshared.once⟩
      refine (hunshared.attached hrefers hp).modifyMemory place fun m _ => .inr ?_
      rintro rfl
      exact hunused place hplace i hrefers

/-- A memory that is kept for another instance stays marked. -/
theorem Store.Held.release (hheld : s.Held places p) (hother : inst.memory ≠ some p) :
    (Engine.release inst s).Held places p := by
  unfold Engine.release
  split
  · exact hheld
  · rename_i place hplace
    split
    · have hkeeps : s.KeepsUses places (s.freeMemory place) :=
        .of_eq (by simp [Store.freeMemory]) (fun hattached => hattached.freeMemory place) rfl
      exact hkeeps.held hheld
    · refine ⟨by simpa [Store.modifyMemory] using hheld.there, fun hp => ?_, hheld.unused⟩
      refine (hheld.attached hp).modifyMemory place fun m _ => .inr ?_
      rintro rfl
      exact hother hplace

/-- Giving a memory back does not look at instances. -/
theorem Engine.release_modifyInstance (inst : Instance H) (s : Store H σ) (address : Nat)
    (f : Instance H → Instance H) :
    (release inst s).modifyInstance address f = release inst (s.modifyInstance address f) := by
  unfold release
  split
  · rfl
  · split <;> rfl

/-- Closing an instance shares no memory. -/
theorem Store.KeepsUses.close (address : Nat) (s : Store H σ) :
    s.KeepsUses places ((Errand.close address).run s) := by
  simp only [Errand.run, Engine.close]
  split
  · exact .refl s
  rename_i inst hat
  split
  · exact .refl s
  let forget : Instance H → Instance H := ({ · with memory := none, idle := none, closed := true })
  have hforgets : s.KeepsUses places (s.modifyInstance address forget) :=
    .modifyInstance s address fun _ => .inl rfl
  have hrefers {i p : Nat} (hafter : (s.modifyInstance address forget).Refers i p) :
      i ≠ address ∧ s.Refers i p := by
    obtain ⟨inst', hat', hmemory⟩ := hafter
    rw [Store.modifyInstance, Array.getElem?_modify] at hat'
    split at hat'
    · obtain ⟨before, -, rfl⟩ := Option.map_eq_some_iff.1 hat'
      cases hmemory
    · rename_i hne
      exact ⟨Ne.symm hne, inst', hat', hmemory⟩
  show s.KeepsUses places ((Engine.release inst s).modifyInstance address forget)
  rw [Engine.release_modifyInstance]
  refine ⟨fun hs => (hforgets.unshared hs).release fun p hmemory i hafter => ?_,
    fun hs => (hforgets.held hs).release fun hmemory => hs.unused ⟨inst, hat, hmemory⟩⟩
  obtain ⟨hne, hrefer⟩ := hrefers hafter
  exact hne (hs.once hrefer ⟨inst, hat, hmemory⟩)

/-- Nothing that an embedder does between calls shares a memory. -/
theorem Errand.run_keepsUses (e : Errand H σ) (s : Store H σ) : s.KeepsUses places (e.run s) := by
  cases e with
  | newAllocator a => exact .of_eq (Nat.le_refl _) (fun hattached => hattached) rfl
  | newMemory limits allocator cap =>
    have hkeeps : s.Keeps 0 (finalState (Store.newMemory limits allocator cap s)) :=
      .newMemory s limits allocator cap
    refine .of_eq hkeeps.memories_le (fun {p} hattached => ?_) ?_ <;>
      simp only [run, Store.newMemory]
    · obtain ⟨m, hat, hm⟩ := hattached
      split
      · exact ⟨m, getElem?_push_of_some hat, hm⟩
      · exact ⟨m, hat, hm⟩
    · split <;> rfl
  | growMemory address pages =>
    exact (Instance.allows_keepsUses { config := default, memory := some address }).touches
      (.grow pages rfl)
  | freeMemory address =>
    exact .of_eq (by simp [run, Store.freeMemory])
      (fun hattached => hattached.freeMemory address) rfl
  | writeMemory address offset bytes =>
    refine .of_eq (by simp [run, Store.modifyMemory]) (fun hattached => ?_) rfl
    refine hattached.modifyMemory address fun m hm => .inl ?_
    obtain ⟨b, -, hb⟩ := m.overwrite_eq offset bytes
    rw [hb]
    exact hm
  | newGlobal g => exact .of_eq (Nat.le_refl _) (fun hattached => hattached) rfl
  | setGlobal address bits => exact .of_eq (Nat.le_refl _) (fun hattached => hattached) rfl
  | close address => exact .close address s
  | note traces counters host => exact .of_eq (Nat.le_refl _) (fun hattached => hattached) rfl

/-! ## Taking memories -/

/-- Putting an instance together takes one memory at most, and writes to no other. -/
theorem Link.assemble_late {allocator : Nat} {m : Module} {resolver : Option (Resolver H σ)}
    (hvalid : m.Valid) (hmemory : inst.memory = none) (howns : inst.ownsMemory = false) :
    Leads (assemble m resolver allocator) ⟨s, inst⟩ (fun _ l => l.Late m resolver s)
      fun _ l => l.Late m resolver s := by
  have hlate (l : Linking H σ) (hl : l.Early m resolver s) : l.Late m resolver s :=
    ⟨l, hl, rfl, rfl, .refl _, fun _ => rfl⟩
  refine ((bindDefinitions_leads hvalid hmemory howns).weaken (fun _ _ h => h)
    fun _ l => hlate l).bind fun _ l hl => ?_
  refine ((hl.1.declareMemory allocator hl.2).weaken (fun _ _ h => h) fun _ l => hlate l).bind
    fun _ l hl => ?_
  have htable : Leads (declareTable m) l (fun _ l' => l'.Early m resolver s)
      fun _ l' => l'.Late m resolver s := by
    unfold declareTable
    split
    · exact hl
    · exact hl.of_same rfl rfl rfl rfl fun _ _ => rfl
  refine htable.bind fun _ l hl => ?_
  refine (hl.placeSegments.weaken (fun _ _ h => h) fun _ l => hlate l).bind fun _ l hl => ?_
  obtain ⟨l₀, hearly, hplace, hkind, hspares, hsizes⟩ := hl
  exact ⟨l₀, hearly, hplace, hkind, hspares, hsizes⟩

/-- Putting an instance together settles it and writes only what it may. -/
theorem Link.assemble_settled_late {m : Module} (hvalid : m.Valid)
    (resolver : Option (Resolver H σ)) (c : Config) (s : Store H σ) :
    Leads (assemble m resolver (Engine.placeAllocator c s).1)
      ⟨(Engine.placeAllocator c s).2, { config := c }⟩
      (fun _ l => l.Settled (Engine.placeAllocator c s).2 ∧
        l.Late m resolver (Engine.placeAllocator c s).2)
      fun _ l => l.Settled (Engine.placeAllocator c s).2 ∧
        l.Late m resolver (Engine.placeAllocator c s).2 :=
  (assemble_leads hvalid rfl rfl).and (assemble_late hvalid rfl rfl)

/-- An instance that was put together keeps a memory for itself. -/
structure Linking.Reserves (places : List Nat) (s : Store H σ) (l : Linking H σ) : Prop where
  keeps : s.KeepsUses places l.store
  other : ∀ {p : Nat}, s.Held places p → l.inst.memory ≠ some p
  held : ∀ {p : Nat}, s.Unshared places → l.inst.memory = some p → l.store.Held places p
  foreign : ∀ {p : Nat}, s.Unshared places → l.inst.memory = some p → p ∈ places →
    l.inst.ownsMemory = false

/-- An instance that was put together has a memory that no other one has, as one that is imported
was not marked before. -/
theorem Linking.Late.reserves {m : Module} {resolver : Option (Resolver H σ)} {l : Linking H σ}
    (hlate : l.Late m resolver s) (hsettled : l.Settled s)
    (hanswers : ∀ r, resolver = some r → r.AnswersFrom places) : l.Reserves places s := by
  obtain ⟨l₀, hearly, hmemory, howns, hspares, -⟩ := hlate
  have hsize := hsettled.memories_size_le
  have hinstances := hsettled.instances_eq
  have hrefers {i p : Nat} (hrefers : l.store.Refers i p) : s.Refers i p := by
    obtain ⟨inst, hat, hplace⟩ := hrefers
    exact ⟨inst, hinstances ▸ hat, hplace⟩
  -- Without a memory nothing is claimed. An imported one was free when it was taken and is marked
  -- from then on; an own one is new and was not offered.
  cases hearly.takes with
  | nothing hnone hsame =>
    have hnone' : l.inst.memory = none := hmemory.trans hnone
    have hmark {p : Nat} (hattached : s.Attached p) : l.store.Attached p := by
      obtain ⟨m, hat, hm⟩ := hattached
      exact hspares.attached ⟨m, hsame ▸ hat, hm⟩
    refine ⟨.of_eq hsize hmark hinstances, ?_, ?_, ?_⟩ <;> simp [hnone']
  | @imported q hsupplied hfree hplace hborrowed hsame =>
    obtain ⟨r, i, limits, hr, -, -, hfound⟩ := hsupplied
    have hoffered : q ∈ places := hanswers r hr _ _ _ _ _ hfound
    have hunmarked (hattached : s.Attached q) : False := by
      obtain ⟨m, hat, hm⟩ := hattached
      rw [hat] at hfree
      cases hm.symm.trans hfree
    have hmark {p : Nat} (hattached : s.Attached p) : l.store.Attached p := by
      refine hspares.attached ?_
      obtain ⟨m, hat, hm⟩ := hattached.modifyMemory q (f := ({ · with attached := true }))
        fun _ _ => .inl rfl
      exact ⟨m, hsame ▸ hat, hm⟩
    have htaken {p : Nat} (hp : l.inst.memory = some p) : p = q :=
      Option.some.inj ((hp.symm.trans hmemory).trans hplace)
    refine ⟨.of_eq hsize hmark hinstances, fun hheld hp => ?_, fun {p} hs hp => ?_,
      fun _ _ _ => howns.trans hborrowed⟩
    · obtain rfl := htaken hp
      exact hunmarked (hheld.attached hoffered)
    · obtain rfl := htaken hp
      have hthere := hs.offered hoffered
      refine ⟨hthere.trans_le hsize, fun _ => hspares.attached ?_, fun hrefer => ?_⟩
      · refine ⟨{ s.memories[p] with attached := true }, ?_, rfl⟩
        rw [hsame, Array.getElem?_modify, if_pos rfl, Array.getElem?_eq_getElem hthere]
        rfl
      · exact hunmarked (hs.attached (hrefers hrefer) hoffered)
  | own hplace howned hsame =>
    have hmark {p : Nat} (hattached : s.Attached p) : l.store.Attached p := by
      obtain ⟨m, hat, hm⟩ := hattached
      exact hspares.attached ⟨m, hsame ▸ getElem?_push_of_some hat, hm⟩
    have htaken {p : Nat} (hp : l.inst.memory = some p) : p = s.memories.size :=
      Option.some.inj ((hp.symm.trans hmemory).trans hplace)
    have hnew {p : Nat} (hs : s.Unshared places) (hp : l.inst.memory = some p) : p ∉ places :=
      fun hmem => absurd (hs.offered hmem) (by rw [htaken hp]; exact Nat.lt_irrefl _)
    refine ⟨.of_eq hsize hmark hinstances, fun hheld hp => ?_, fun hs hp => ?_,
      fun hs hp hmem => absurd hmem (hnew hs hp)⟩
    · exact absurd hheld.there (by rw [htaken hp]; exact Nat.lt_irrefl _)
    · refine ⟨(hsettled.own (howns.trans howned) hp).2, fun hmem => absurd hmem (hnew hs hp),
        fun hrefer => ?_⟩
      exact absurd (hs.there (hrefers hrefer)) (by rw [htaken hp]; exact Nat.lt_irrefl _)

/-! ## Instances that come into being -/

/-- The memories that instances have after one is added. -/
theorem Store.refers_addInstance {i : Nat} (hrefers : (s.addInstance inst).2.Refers i p) :
    s.Refers i p ∨ i = s.instances.size ∧ inst.memory = some p := by
  obtain ⟨found, hat, hplace⟩ := hrefers
  simp only [Store.addInstance, Array.getElem?_push] at hat
  split at hat
  · rename_i hnew
    obtain rfl := Option.some.inj hat
    exact .inr ⟨hnew, hplace⟩
  · exact .inl ⟨found, hat, hplace⟩

/-- An instance is added that has the memory that was kept for it. -/
theorem Store.Unshared.addInstance (hunshared : s.Unshared places)
    (hheld : ∀ p, inst.memory = some p → s.Held places p)
    (hforeign : ∀ p, inst.memory = some p → p ∈ places → inst.ownsMemory = false) :
    (s.addInstance inst).2.Unshared places := by
  refine ⟨hunshared.offered, fun {i p} hp howns => ?_, fun hrefers => ?_, fun hrefers hp => ?_,
    fun {i j p} hi hj => ?_⟩
  · obtain ⟨found, hat, howned, hplace⟩ := howns
    simp only [Store.addInstance, Array.getElem?_push] at hat
    split at hat
    · obtain rfl := Option.some.inj hat
      cases howned.symm.trans (hforeign p hplace hp)
    · exact hunshared.foreign hp ⟨found, hat, howned, hplace⟩
  · rcases refers_addInstance hrefers with hrefers | ⟨-, hplace⟩
    · exact hunshared.there hrefers
    · exact (hheld _ hplace).there
  · rcases refers_addInstance hrefers with hrefers | ⟨-, hplace⟩
    · exact hunshared.attached hrefers hp
    · exact (hheld _ hplace).attached hp
  · rcases refers_addInstance hi with hi | ⟨hi, hplace⟩ <;>
      rcases refers_addInstance hj with hj | ⟨hj, hplace'⟩
    · exact hunshared.once hi hj
    · exact absurd hi (hheld p hplace').unused
    · exact absurd hj (hheld p hplace).unused
    · rw [hi, hj]

/-- A memory stays kept if the new instance has another one. -/
theorem Store.Held.addInstance (hheld : s.Held places p) (hother : inst.memory ≠ some p) :
    (s.addInstance inst).2.Held places p := by
  refine ⟨hheld.there, hheld.attached, fun hrefers => ?_⟩
  rcases refers_addInstance hrefers with hrefers | ⟨-, hplace⟩
  · exact hheld.unused hrefers
  · exact hother hplace

end

/-- An action that offers memories at given places for import, and no others. -/
def Action.OffersFrom (places : List Nat) : Action H σ → Prop
  | .instantiate _ _ resolver _ => ∀ r, resolver = some r → r.AnswersFrom places
  | _ => True

section

variable {host : Host H σ} {fuel : Nat} {places : List Nat}

/-- An instantiation shares no memory, if its imports are answered from those offered. -/
theorem Engine.instantiate_keepsUses {nesting : Nat} {m : Module} (hvalid : m.Valid)
    {resolver : Option (Resolver H σ)} (hanswers : ∀ r, resolver = some r → r.AnswersFrom places)
    (config : Config) (s : Store H σ)
    (hhost : ∀ c, Moves (Store.KeepsUses places) (host.call (invoke host fuel nesting) c)) :
    s.KeepsUses places (finalState (instantiate host fuel nesting m resolver config s)) := by
  rcases instantiate_follows (Link.assemble_settled_late hvalid resolver · s)
      Instance.allows_keepsUses hhost config with
    hsame | ⟨c, l', ⟨l, ⟨hsettled, hlate⟩, hmemory, howns, hstarted⟩, hend⟩
  · simp only [hsame]
    exact .refl s
  have hreserves := hlate.reserves hsettled hanswers
  have hplaced : s.KeepsUses places (placeAllocator c s).2 := .placeAllocator c s
  have hbefore : s.KeepsUses places l'.store := hplaced.trans (hreserves.keeps.trans hstarted)
  have hother {q : Nat} (hs : s.Held places q) : l'.inst.memory ≠ some q :=
    hmemory ▸ hreserves.other (hplaced.held hs)
  have hheld (hs : s.Unshared places) (p : Nat) (hp : l'.inst.memory = some p) :
      l'.store.Held places p :=
    hstarted.held (hreserves.held (hplaced.unshared hs) (hmemory ▸ hp))
  rcases hend with ⟨f, hend⟩ | hend | ⟨f, hend⟩ <;> simp only [hend]
  · refine Store.KeepsUses.trans ⟨fun hs => ?_, fun hs => ?_⟩ (.count _ c f)
    · refine (hbefore.unshared hs).addInstance (hheld hs) fun p hp hmem => ?_
      exact howns.trans (hreserves.foreign (hplaced.unshared hs) (hmemory ▸ hp) hmem)
    · exact (hbefore.held hs).addInstance (hother hs)
  · exact hbefore
  · refine Store.KeepsUses.trans ⟨fun hs => ?_, fun hs => ?_⟩ (.count _ c f)
    · exact (hbefore.unshared hs).release fun p hp i => (hheld hs p hp).unused
    · exact (hbefore.held hs).release (hother hs)

/-- Whatever an embedder does that offers only memories at given places, it shares none. -/
theorem Action.allowed_keepsUses (host : Host H σ) (fuel : Nat) (places : List Nat) :
    Action.Allowed host fuel (Action.OffersFrom places) (Store.KeepsUses places) where
  code := Instance.allows_keepsUses
  waits _ _ _ address _ _ _ hst := hst.trans (.modifyInstance _ address fun _ => .inr ⟨rfl, rfl⟩)
  errand _ _ := Errand.run_keepsUses _ _
  instantiate hoffers hadmissible hhost := by
    obtain ⟨bytes, ending, hload⟩ := hadmissible.2.1
    exact Engine.instantiate_keepsUses (Module.valid_of_load hload) hoffers _ _ hhost

/-! ## Moments -/

/-- A store that there is at some moment, while an embedder offers the memories at given places for
import: ones that it has made itself, at any time. -/
inductive Store.Offering (host : Host H σ) (fuel : Nat) : List Nat → Store H σ → Prop
  | nothing {s} (hmemories : s.memories = #[]) (hinstances : s.instances = #[]) :
    Offering host fuel [] s
  | offer {places s t limits allocator cap p} (hoffering : Offering host fuel places s)
      (hnew : Store.newMemory limits allocator cap s = .ok p t) : Offering host fuel (p :: places) t
  | pass {places s t} (hoffering : Offering host fuel places s)
      (hacts : host.Acts fuel (Action.OffersFrom places))
      (hpasses : s.Passes host fuel (Action.OffersFrom places) t) : Offering host fuel places t

/-- A memory that was just made is offered. -/
theorem Store.Unshared.offer {s t : Store H σ} (hunshared : s.Unshared places) {limits : Limits}
    {allocator p : Nat} {cap : UInt32} (hnew : Store.newMemory limits allocator cap s = .ok p t) :
    t.Unshared (p :: places) := by
  have hkeeps : s.KeepsUses places t := by
    have hrun : (Errand.newMemory limits allocator cap).run s = t := by
      simp [Errand.run, hnew, finalState]
    exact hrun ▸ Errand.run_keepsUses _ s
  have hunshared' := hkeeps.unshared hunshared
  unfold Store.newMemory at hnew
  split at hnew
  swap
  · cases hnew
  obtain ⟨rfl, rfl⟩ := EStateM.Result.ok.inj hnew
  -- No instance has a memory that is not there yet.
  have hunused {i : Nat} (hrefers : s.Refers i s.memories.size) : False :=
    absurd (hunshared.there hrefers) (Nat.lt_irrefl _)
  refine ⟨fun hp => ?_, fun hp howns => ?_, hunshared'.there, fun hrefers hp => ?_,
    hunshared'.once⟩ <;>
    rcases List.mem_cons.1 hp with rfl | hp
  · simp
  · exact hunshared'.offered hp
  · obtain ⟨inst, hat, -, hplace⟩ := howns
    exact hunused ⟨inst, hat, hplace⟩
  · exact hunshared'.foreign hp howns
  · exact (hunused hrefers).elim
  · exact hunshared'.attached hrefers hp

/-- At every moment each memory has one user at most. -/
theorem Store.Offering.unshared {host : Host H σ} {fuel : Nat} {s : Store H σ}
    (hoffering : s.Offering host fuel places) : s.Unshared places := by
  induction hoffering with
  | @nothing s hmemories hinstances =>
    have hnone {i p : Nat} (hrefers : s.Refers i p) : False := by
      obtain ⟨inst, hat, -⟩ := hrefers
      simp [hinstances] at hat
    refine ⟨fun hp => ?_, fun hp => ?_, fun hi => (hnone hi).elim, fun hi => (hnone hi).elim,
      fun hi => (hnone hi).elim⟩ <;> cases hp
  | offer _ hnew ih => exact ih.offer hnew
  | @pass places s t _ hacts hpasses ih =>
    have hkeeps : s.KeepsUses places t := by
      refine hpasses.moves_of_kind hacts (Action.allowed_keepsUses host fuel places) ?_
      rintro inner m resolver config c s l hanswers ⟨bytes, ending, hload⟩ hassemble
      have hassembled := Link.assemble_settled_late (Module.valid_of_load hload) resolver c s
      obtain ⟨hlate, hsettled⟩ := hassembled.of_ok hassemble
      exact (Store.KeepsUses.placeAllocator c s).trans (hsettled.reserves hlate hanswers).keeps
    exact hkeeps.unshared ih

end

/-! ## Refusals -/

section

variable {r : Resolver H σ} {i entry : Import} {before after : List Import} {limits : Limits}
  {p : Nat}

/-- An import of a function or of a global does not touch the store. -/
theorem Link.importEntry_kept (hmemory : Module.memoryImport? i = none) (l : Linking H σ) :
    Leads (importEntry (some r) i) l (fun _ l' => l'.store = l.store)
      fun e _ => ∃ cause, e = importError i cause := by
  refine ((importEntry_leads (some r) i l).and (importEntry_error i l)).weaken (fun _ l' h => ?_)
    fun _ _ h => h.2
  cases h.1 with
  | function => rfl
  | memory htype => simp [Module.memoryImport?, htype] at hmemory
  | global => rfl

/-- A memory that is marked is not imported. -/
theorem Link.importEntries_refused (htype : entry.type = .memory limits)
    (hbefore : before.filterMap Module.memoryImport? = []) (k : Nat) {l : Linking H σ}
    (hattached : l.store.Attached p)
    (hfound : ∀ t, t.memories = l.store.memories →
      r.memory t entry.moduleName entry.field limits = .ok p) :
    ∃ j cause l', forEachFrom (fun _ i => importEntry (some r) i) k (before ++ entry :: after) l =
        .error (importError j cause) l' ∧
      (j ∈ before ∨ j = entry ∧ cause.kind = .importTypeMismatch) := by
  -- The entries before the memory take none, so it is still marked when its turn comes, unless one
  -- of them fails on its own.
  induction before generalizing k l with
  | nil =>
    obtain ⟨m, hat, hm⟩ := hattached
    have hrefused : ∃ cause : LinkError.Cause, cause.kind = .importTypeMismatch ∧
        importEntry (some r) entry l = .error (importError entry cause) l := by
      simp only [importEntry, htype, importMemory_eq, hfound _ rfl, hat,
        Option.getD_some, hm, if_true]
      by_cases hfits : m.satisfies limits = true
      · exact ⟨.memoryInUse, rfl, if_pos hfits⟩
      · exact ⟨.unsuitable, rfl, if_neg hfits⟩
    obtain ⟨cause, hkind, hrefused⟩ := hrefused
    refine ⟨entry, cause, l, ?_, .inr ⟨rfl, hkind⟩⟩
    simp only [List.nil_append, forEachFrom, bind, EStateM.bind, hrefused]
  | cons i before ih =>
    have hother : Module.memoryImport? i = none := by
      simp only [List.filterMap_eq_nil_iff, List.mem_cons, forall_eq_or_imp] at hbefore
      exact hbefore.1
    have hrest : before.filterMap Module.memoryImport? = [] := by
      rwa [List.filterMap_cons_none hother] at hbefore
    have hfirst := importEntry_kept (r := r) hother l
    unfold Leads at hfirst
    cases hresult : importEntry (some r) i l with
    | error e l' =>
      rw [hresult] at hfirst
      obtain ⟨cause, rfl⟩ := hfirst
      refine ⟨i, cause, l', ?_, .inl (by simp)⟩
      simp only [List.cons_append, forEachFrom, bind, EStateM.bind, hresult]
    | ok _ l' =>
      rw [hresult] at hfirst
      obtain ⟨j, cause, l'', herror, hplace⟩ := ih hrest (k + 1) (hfirst ▸ hattached)
        fun t ht => hfound t (ht.trans (congrArg Store.memories hfirst))
      refine ⟨j, cause, l'', ?_, hplace.imp_left fun hj => List.mem_cons_of_mem _ hj⟩
      simp only [List.cons_append, forEachFrom, bind, EStateM.bind, hresult]
      exact herror

/-- A module that imports a marked memory is not instantiated. -/
theorem Engine.instantiate_refused {host : Host H σ} {fuel nesting : Nat} {m : Module}
    (hloaded : m.Loaded) {config c : Config} (hcheck : config.check = .ok c)
    (himports : m.importList = before ++ entry :: after) (htype : entry.type = .memory limits)
    {s : Store H σ} (hattached : s.Attached p)
    (hfound : ∀ t, t.memories = s.memories →
      r.memory t entry.moduleName entry.field limits = .ok p) :
    ∃ j cause t, instantiate host fuel nesting m (some r) config s =
      .error (Link.importError j cause) t ∧
      (j ∈ before ∨ j = entry ∧ cause.kind = .importTypeMismatch) := by
  obtain ⟨bytes, ending, hload⟩ := hloaded
  have hvalid := Module.valid_of_load hload
  obtain ⟨functions, hcompile⟩ := (Module.checked_of_load hload).compile_ok hvalid
  -- A valid module has one memory at most, so no entry before this one imports one.
  have hbefore : before.filterMap Module.memoryImport? = [] := by
    have hfew := hvalid.memoryCount_le
    have hentry : Module.memoryImport? entry = some limits := by simp [Module.memoryImport?, htype]
    simp only [Module.memoryCount, Module.importedMemories, himports, List.filterMap_append,
      List.filterMap_cons, hentry, List.length_append, List.length_cons] at hfew
    exact List.length_eq_zero_iff.1 (by omega)
  -- What linking starts with: the functions are made ready before anything is imported.
  let begun : Linking H σ := ⟨(placeAllocator c s).2,
    { config := c, name := m.ownName
      types := (m.types.getD []).toArray
      functions := functions.toArray }⟩
  have hmemories : begun.store.memories = s.memories := memories_placeAllocator c s
  have hmarked : begun.store.Attached p := by
    obtain ⟨memory, hat, hm⟩ := hattached
    exact ⟨memory, hmemories ▸ hat, hm⟩
  obtain ⟨j, cause, l, herror, hplace⟩ := Link.importEntries_refused htype hbefore 0 hmarked
    fun t ht => hfound t (ht.trans hmemories)
  have hbuild : Link.build host (invoke host fuel nesting) fuel m (some r) (placeAllocator c s).1
      ⟨(placeAllocator c s).2, { config := c }⟩ = .error (Link.importError j cause) l := by
    rw [Link.build_eq]
    simp only [Link.bindDefinitions, hcompile, himports]
    simp only [bind, EStateM.bind, Link.lift, Link.modifyInstance, estate_modify,
      pure, EStateM.pure]
    rw [herror]
  refine ⟨j, cause, (release l.inst l.store).count c
    (Counters.instantiation (Link.importError j cause).label), ?_, hplace⟩
  simp only [instantiate, hcheck, hbuild]
  rfl

end

/-- No memory is used twice. If the embedder offers for import only memories that it has made, at
every moment each memory is used by one live instance at most, as its own or as an imported one. If
an import is answered with a memory in use, it is refused as one of the wrong type, unless an import
before it fails. -/
theorem memories_are_used_once {host : Host H σ} {fuel : Nat} {places : List Nat} {s : Store H σ}
    (hoffering : s.Offering host fuel places) :
    (∀ {i j p : Nat}, s.Uses i p → s.Uses j p → i = j) ∧
      ∀ {i p nesting : Nat} {m : Module} {r : Resolver H σ} {config c : Config}
        {before after : List Import} {entry : Import} {limits : Limits}, s.Uses i p → m.Loaded →
        r.AnswersFrom places → config.check = .ok c → m.importList = before ++ entry :: after →
        entry.type = .memory limits →
        (∀ t, t.memories = s.memories → r.memory t entry.moduleName entry.field limits = .ok p) →
        ∃ j cause t,
          Engine.instantiate host fuel nesting m (some r) config s =
            .error (Link.importError j cause) t ∧
          (j ∈ before ∨ j = entry ∧ cause.kind = .importTypeMismatch) := by
  have hunshared := hoffering.unshared
  refine ⟨fun hi hj => hunshared.once hi.refers hj.refers, ?_⟩
  intro i p nesting m r config c before after entry limits huses hloaded hanswers hcheck himports
    htype hfound
  have hattached : s.Attached p :=
    hunshared.attached huses.refers (hanswers s _ _ _ p (hfound s rfl))
  exact Engine.instantiate_refused hloaded hcheck himports htype hattached hfound

/-- An embedder that makes a memory, offers it and instantiates a module that imports it. A second
instance is refused. -/
theorem memories_are_used_once_measuring :
    ∃ m s₁ c, m.Loaded ∧ Config.check {} = .ok c ∧
      Engine.instantiate growingHost 100 1 m (some measuredBindings.resolver)
        {} measuredStore = .ok 0 s₁ ∧
      s₁.Offering growingHost 100 [0] ∧ s₁.Uses 0 0 ∧ ∃ j cause t,
        Engine.instantiate growingHost 100 1 m (some measuredBindings.resolver) {} s₁ =
          .error (Link.importError j cause) t ∧
        (j ∈ [] ∨ j = ⟨"e", "m", .memory { flags := 1, max := 3 }⟩ ∧
          cause.kind = .importTypeMismatch) := by
  obtain ⟨m, s₁, -, hload, himports, -, hinstance, huser, hfits, -⟩ := exists_measuring
  have huses : s₁.Uses 0 0 := .of_parts huser
  have hidle (places : List Nat) : growingHost.Acts 100 (Action.OffersFrom places) :=
    growingHost_acts 100 trivial
  have hanswers : (measuredBindings.resolver : Resolver Unit Unit).AnswersFrom [0] :=
    Bindings.resolver_answersFrom measuredBindings
  have hallocated :
      ((Errand.newAllocator {}).run bareStore : Store Unit Unit).Offering growingHost 100 [] := by
    have hact : Acts growingHost 100 0 (Action.OffersFrom []) bareStore
        ((Errand.newAllocator {}).run bareStore) := by
      refine ⟨.errand (.newAllocator {}), trivial, fun b hb => ?_, rfl⟩
      cases hb
    exact .pass (.nothing rfl rfl) (hidle []) (.act hact .here)
  have hnew : Store.newMemory { flags := 1, max := 2 } 0 0
      ((Errand.newAllocator {}).run bareStore) = .ok 0 measuredStore := by rfl
  have hoffered : measuredStore.Offering growingHost 100 [0] := .offer hallocated hnew
  have hoffering : s₁.Offering growingHost 100 [0] := by
    have hact : Acts growingHost 100 2 (Action.OffersFrom [0]) measuredStore s₁ := by
      refine ⟨.instantiate 1 m (some measuredBindings.resolver) {},
        fun r hr => Option.some.inj hr ▸ hanswers, ⟨by decide, ⟨_, _, hload⟩, trivial⟩, ?_⟩
      simp only [Action.run, hinstance, finalState]
    exact .pass hoffered (hidle [0]) (.act hact .here)
  have hbound : measuredBindings.memories.lookup (Bindings.key "e" "m") = some 0 := by decide
  have hfound (t : Store Unit Unit) (ht : t.memories = s₁.memories) :
      (measuredBindings.resolver : Resolver Unit Unit).memory t "e" "m"
      { flags := 1, max := 3 } = .ok 0 := by
    simp only [Bindings.resolver, Bindings.memory, hbound, ht, hfits, if_true]
  cases hcheck : Config.check {} with
  | error fault => cases hcheck
  | ok c =>
    exact ⟨m, s₁, c, ⟨_, _, hload⟩, rfl, hinstance, hoffering, huses,
      (memories_are_used_once hoffering).2 huses ⟨_, _, hload⟩ hanswers hcheck himports rfl hfound⟩

/-- A module with a memory of its own, of at most two pages. -/
def declaring : List UInt8 := [0, 0x61, 0x73, 0x6d, 1, 0, 0, 0, 5, 4, 1, 1, 0, 2]

/-- The own memory of a live instance is imported by a second one, and both use it. -/
theorem memory_is_used_twice_own :
    ∃ m m' s₁ s₂, m.Loaded ∧ m'.Loaded ∧
      Engine.instantiate growingHost 100 1 m none {} bareStore = .ok 0 s₁ ∧
      (s₁.instances[0]?.bind (·.memory)) = some 0 ∧
      Engine.instantiate growingHost 100 1 m' (some (Bindings.defineMemory {} "e" "m" 0).resolver)
        {} s₁ = .ok 1 s₂ ∧
      s₂.Uses 0 0 ∧ s₂.Uses 1 0 := by
  have hruns : ((Module.load declaring .eof).toOption.any fun m =>
      (Module.load measuring .eof).toOption.any fun m' =>
      (succeeded (Engine.instantiate growingHost 100 1 m none {} bareStore)).any fun first =>
        first.1 == 0 && first.2.instances[0]?.bind Instance.memory == some 0 &&
        (succeeded (Engine.instantiate growingHost 100 1 m'
            (some (Bindings.defineMemory {} "e" "m" 0).resolver) {} first.2)).any fun second =>
          second.1 == 1 &&
          (second.2.instances[0]?.map fun (i : Instance Unit) => (i.closed, i.memory)) == some
          (false, some 0) &&
          (second.2.instances[1]?.map fun (i : Instance Unit) => (i.closed, i.memory)) == some
          (false, some 0)) =
      true := by decide +kernel
  simp only [Option.any_eq_true, Bool.and_eq_true, succeeded_eq_some, beq_iff_eq,
    except_toOption_eq_some] at hruns
  obtain ⟨m, hload, m', hload', ⟨_, s₁⟩, hfirst, ⟨rfl, hown⟩, ⟨_, s₂⟩, hsecond, ⟨rfl, hone⟩,
    htwo⟩ := hruns
  exact ⟨m, m', s₁, s₂, ⟨_, _, hload⟩, ⟨_, _, hload'⟩, hfirst, hown, hsecond, .of_parts hone,
    .of_parts htwo⟩

end IntWasm
