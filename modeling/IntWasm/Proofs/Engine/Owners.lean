import IntWasm.Proofs.Engine.Atomicity
import IntWasm.Proofs.Engine.Extension

/-!
# What instances own

A memory that an instance owns was made for it: its place is one that no store had before. Building
an instance leaves all memories as they are until the start function runs, but for bytes of segments
and for the mark that a memory is in use, and it leaves all instances. So no instance ever comes to
own a memory that was there before it. Main statements: `Link.assemble_leads` and
`Action.allowed_keepsOwners`.
-/

namespace IntWasm

variable {H σ : Type}

/-! ## Up to the start function -/

/-- All stages of building an instance but its start function. -/
def Link.assemble (m : Module) (resolver : Option (Resolver H σ)) (allocator : Nat) :
    Link H σ Unit := do
  bindDefinitions m resolver
  declareMemory allocator m
  declareTable m
  placeSegments m
  modifyInstance ({ · with exports := m.exports.getD [] })

/-- An instance is put together before its start function runs. -/
theorem Link.build_eq_assemble (host : Host H σ) (invoker : Invoker H σ) (fuel : Nat) (m : Module)
    (resolver : Option (Resolver H σ)) (allocator : Nat) :
    build host invoker fuel m resolver allocator = (do
      assemble m resolver allocator
      runStart host invoker fuel m) := by
  simp only [build_eq, assemble, bind_assoc]

/-- All stages of building an instance but its start function go along every relation that the steps
of building it keep to. -/
theorem Link.assemble_moves {invoker : Invoker H σ} {resolver : Option (Resolver H σ)}
    {allocator : Nat} {L : Linking H σ → Linking H σ → Prop}
    (hallows : Link.Allows host invoker fuel resolver allocator L) (m : Module) :
    Moves L (assemble m resolver allocator) := by
  refine Moves.bind hallows.trans (bindDefinitions_moves hallows m) fun _ => ?_
  refine Moves.bind hallows.trans (declareMemory_moves hallows m) fun _ => ?_
  refine Moves.bind hallows.trans (declareTable_moves hallows m) fun _ => ?_
  refine Moves.bind hallows.trans (placeSegments_moves hallows m) fun _ => ?_
  exact modifyInstance_moves hallows (fun _ => rfl) (fun _ => rfl) (fun _ => rfl)
    (fun _ => rfl) fun _ => rfl

/-- Building an instance has changed no instance of the store and no memory, but for bytes and for
the mark that it is in use. A memory that the instance owns is new. -/
structure Linking.Settled (s : Store H σ) (l : Linking H σ) : Prop where
  instances_eq : l.store.instances = s.instances
  memories : ∀ {p : Nat} {memory : Memory}, s.memories[p]? = some memory →
    ∃ bytes attached, bytes.size = memory.bytes.size ∧
      l.store.memories[p]? = some { memory with bytes, attached }
  own : ∀ {p : Nat}, l.inst.ownsMemory = true → l.inst.memory = some p →
    s.memories.size ≤ p ∧ p < l.store.memories.size

namespace Linking.Settled

variable {m : Module} {resolver : Option (Resolver H σ)} {s : Store H σ} {l : Linking H σ}

/-- No memories are taken away. -/
theorem memories_size_le (hsettled : l.Settled s) : s.memories.size ≤ l.store.memories.size := by
  by_contra hlt
  have hinside : l.store.memories.size < s.memories.size := by omega
  obtain ⟨_, _, -, hlast⟩ := hsettled.memories (Array.getElem?_eq_getElem hinside)
  exact absurd (Array.getElem?_eq_some_iff.1 hlast).1 (Nat.lt_irrefl _)

/-- A change of the instance leaves what it owns. -/
theorem modifyInstance (hsettled : l.Settled s) {inst : Instance H}
    (hmemory : inst.memory = l.inst.memory) (howns : inst.ownsMemory = l.inst.ownsMemory) :
    Settled s { l with inst } where
  instances_eq := hsettled.instances_eq
  memories := hsettled.memories
  own howned hplace := hsettled.own (howns ▸ howned) (hmemory ▸ hplace)

/-- An early stage is settled. -/
theorem of_early (hearly : l.Early m resolver s) : l.Settled s := by
  have hkept {memories : Array Memory} {p : Nat} {memory : Memory}
      (hat : memories[p]? = some memory) : ∃ bytes attached, bytes.size = memory.bytes.size ∧
        memories[p]? = some { memory with bytes, attached } :=
    ⟨memory.bytes, memory.attached, rfl, hat⟩
  cases hearly.takes with
  | nothing hmemory hsame =>
    refine ⟨hearly.instances_eq, fun hat => hkept (hsame ▸ hat), fun _ hplace => ?_⟩
    cases hmemory.symm.trans hplace
  | @imported q _ _ hmemory howns hsame =>
    refine ⟨hearly.instances_eq, fun {p memory} hat => ?_, fun howned => ?_⟩
    · rw [hsame, Array.getElem?_modify]
      split
      · exact ⟨memory.bytes, true, rfl, by rw [hat]; rfl⟩
      · exact hkept hat
    · cases howns.symm.trans howned
  | own hmemory howns hsame =>
    refine ⟨hearly.instances_eq, fun hat => hkept (hsame ▸ getElem?_push_of_some hat),
      fun {p} _ hplace => ?_⟩
    obtain rfl := Option.some.inj (hmemory.symm.trans hplace)
    rw [hsame, Array.size_push]
    omega

/-- Placing segments keeps the instance settled. -/
theorem placeSegments (hsettled : l.Settled s) (m : Module) :
    Leads (Link.placeSegments m) l (fun _ l' => l'.Settled s) fun _ l' => l'.Settled s := by
  refine (Link.placeSegments_leads m l).weaken ?_ fun _ l' hl' => hl' ▸ hsettled
  rintro _ _ ⟨place, hsize, fill, -, rfl⟩
  have hfilled : Settled s { l with inst := { l.inst with table := l.inst.table.map fill } } :=
    hsettled.modifyInstance rfl rfl
  cases hplace : l.inst.memory with
  | none => exact hfilled
  | some address =>
    refine ⟨hfilled.instances_eq, fun {p memory} hat => ?_, fun howned hp => ?_⟩
    · obtain ⟨bytes, attached, hbytes, hafter⟩ := hsettled.memories hat
      simp only [Store.modifyMemory, Array.getElem?_modify]
      split
      · exact ⟨place bytes, attached, (hsize bytes).trans hbytes, by rw [hafter]; rfl⟩
      · exact ⟨bytes, attached, hbytes, hafter⟩
    · simpa [Store.modifyMemory] using hsettled.own howned hp

end Linking.Settled

section

variable {host : Host H σ} {invoker : Invoker H σ} {fuel allocator : Nat} {m : Module}
  {resolver : Option (Resolver H σ)} {s : Store H σ}

/-- A valid module is put together without any change of what there was, wherever that stops. -/
theorem Link.assemble_leads (hvalid : m.Valid) {inst : Instance H} (hmemory : inst.memory = none)
    (howns : inst.ownsMemory = false) :
    Leads (assemble m resolver allocator) ⟨s, inst⟩ (fun _ l => l.Settled s)
      fun _ l => l.Settled s := by
  have hearly (l : Linking H σ) (h : l.Early m resolver s) : l.Settled s := .of_early h
  refine ((bindDefinitions_leads hvalid hmemory howns).weaken (fun _ _ h => h)
    fun _ l => hearly l).bind fun _ l hl => ?_
  refine ((hl.1.declareMemory allocator hl.2).weaken (fun _ _ h => h) fun _ l => hearly l).bind
    fun _ l hl => ?_
  have htable : Leads (declareTable m) l (fun _ l' => l'.Settled s) fun _ l' => l'.Settled s := by
    unfold declareTable
    split
    · exact hearly l hl
    · exact (hearly l hl).modifyInstance rfl rfl
  refine htable.bind fun _ l hl => ?_
  exact (hl.placeSegments m).bind fun _ l hl => hl.modifyInstance rfl rfl

/-- What is left of building an instance: one that had come to a certain point, and whatever its
start function has done to the store. -/
def Linking.Follows (Q : Linking H σ → Prop) (R : Store H σ → Store H σ → Prop) (l' : Linking H σ) :
    Prop :=
  ∃ l : Linking H σ, Q l ∧ l'.inst.memory = l.inst.memory ∧ l'.inst.ownsMemory = l.inst.ownsMemory ∧
    R l.store l'.store

/-- What is left of building an instance: one that was settled, and whatever its start function has
done to the store. -/
def Linking.Leaves (R : Store H σ → Store H σ → Prop) (s : Store H σ) (l' : Linking H σ) : Prop :=
  ∃ l : Linking H σ, l.Settled s ∧ l'.inst.memory = l.inst.memory ∧
    l'.inst.ownsMemory = l.inst.ownsMemory ∧ R l.store l'.store

/-- The start function changes nothing about the instance but its waiting machine. -/
theorem Link.runStart_leads {R : Store H σ → Store H σ → Prop} (l : Linking H σ)
    (hallows : l.inst.Allows R) (hhost : ∀ c, Moves R (host.call invoker c)) :
    let l' := finalState (runStart host invoker fuel m l)
    l'.inst.memory = l.inst.memory ∧ l'.inst.ownsMemory = l.inst.ownsMemory ∧
      R l.store l'.store := by
  unfold runStart
  cases m.start with
  | none => exact ⟨rfl, rfl, hallows.refl _⟩
  | some function =>
    have hmoves : R l.store (finalState (start host invoker fuel function l)).store :=
      start_moves hallows hhost function
    unfold start at hmoves ⊢
    simp only at hmoves ⊢
    split <;> rename_i houtcome <;> simp only [houtcome] at hmoves <;> exact ⟨rfl, rfl, hmoves⟩

/-- Wherever building an instance stops, it has been put together as far as that goes, and its start
function has done the rest. -/
theorem Link.build_follows {Q : Linking H σ → Prop} {l₀ : Linking H σ}
    (hassembled : Leads (assemble m resolver allocator) l₀ (fun _ l => Q l) fun _ l => Q l)
    {R : Store H σ → Store H σ → Prop} (hallows : ∀ inst : Instance H, inst.Allows R)
    (hhost : ∀ c, Moves R (host.call invoker c)) :
    (finalState (build host invoker fuel m resolver allocator l₀)).Follows Q R := by
  have hfollows (l : Linking H σ) (hl : Q l) : l.Follows Q R :=
    ⟨l, hl, rfl, rfl, (hallows l.inst).refl _⟩
  rw [build_eq_assemble]
  suffices hends : Leads (assemble m resolver allocator >>= fun _ => runStart host invoker fuel m)
      l₀ (fun _ l => l.Follows Q R) fun _ l => l.Follows Q R from
    hends.finally (fun _ _ h => h) fun _ _ h => h
  refine (hassembled.weaken (fun _ _ h => h) fun _ l => hfollows l).bind fun _ l hl => ?_
  have hfinal : (finalState (runStart host invoker fuel m l)).Follows Q R :=
    ⟨l, hl, runStart_leads l (hallows l.inst) hhost⟩
  unfold Leads
  simp only
  cases hresult : runStart host invoker fuel m l <;> rw [hresult] at hfinal <;> exact hfinal

end

/-! ## Owners -/

/-- An instance of a store owns the memory at a place. -/
def Store.Owns (s : Store H σ) (i p : Nat) : Prop :=
  ∃ inst : Instance H, s.instances[i]? = some inst ∧ inst.ownsMemory = true ∧ inst.memory = some p

/-- No memory goes, and no instance comes to own a memory that was there before. -/
structure Store.KeepsOwners (s s' : Store H σ) : Prop where
  size_le : s.memories.size ≤ s'.memories.size
  owns : ∀ {i p : Nat}, s'.Owns i p → s.Owns i p ∨ s.memories.size ≤ p ∧ p < s'.memories.size

namespace Store.KeepsOwners

variable {s t u : Store H σ}

/-- No instance has changed. -/
theorem of_eq (hsize : s.memories.size ≤ t.memories.size) (hinstances : t.instances = s.instances) :
    s.KeepsOwners t :=
  ⟨hsize, fun ⟨inst, hat, howns, hplace⟩ => .inl ⟨inst, hinstances ▸ hat, howns, hplace⟩⟩

/-- A store keeps its own owners. -/
theorem refl (s : Store H σ) : s.KeepsOwners s := of_eq (Nat.le_refl _) rfl

/-- Owners that are kept twice are kept. -/
theorem trans (hst : s.KeepsOwners t) (htu : t.KeepsOwners u) : s.KeepsOwners u := by
  have hst' := hst.size_le
  have htu' := htu.size_le
  refine ⟨by omega, fun howns => ?_⟩
  rcases htu.owns howns with howns | hnew
  · rcases hst.owns howns with howns | hnew
    · exact .inl howns
    · exact .inr (by omega)
  · exact .inr (by omega)

/-- An instance is changed so that it owns nothing new. -/
theorem modifyInstance (s : Store H σ) (address : Nat) {f : Instance H → Instance H}
    (howns : ∀ inst p, (f inst).ownsMemory = true → (f inst).memory = some p →
      inst.ownsMemory = true ∧ inst.memory = some p) :
    s.KeepsOwners (s.modifyInstance address f) := by
  refine ⟨Nat.le_refl _, fun {i p} ⟨inst, hat, howned, hplace⟩ => .inl ?_⟩
  rw [Store.modifyInstance, Array.getElem?_modify] at hat
  split at hat
  · obtain ⟨before, hbefore, rfl⟩ := Option.map_eq_some_iff.1 hat
    exact ⟨before, hbefore, howns before p howned hplace⟩
  · exact ⟨inst, hat, howned, hplace⟩

/-- Giving a memory back keeps the owners. -/
theorem release (inst : Instance H) (s : Store H σ) : s.KeepsOwners (Engine.release inst s) :=
  have hkeeps : s.Keeps 0 (Engine.release inst s) := .release inst s
  of_eq hkeeps.memories_le (Engine.instances_release inst s)

end Store.KeepsOwners

/-- Code keeps the owners. -/
theorem Instance.allows_keepsOwners (inst : Instance H) :
    inst.Allows (Store.KeepsOwners (H := H) (σ := σ)) where
  refl := .refl
  trans _ _ _ := .trans
  touches htouches := by
    cases htouches with
    | global => exact .of_eq (Nat.le_refl _) rfl
    | bytes => exact .of_eq (by simp [Store.modifyMemory]) rfl
    | grow pages =>
      have hkeeps (s : Store H σ) (address : Nat) :
          s.Keeps 0 (finalState (Store.growMemory address pages s)) :=
        .growMemory s address pages
      refine .of_eq (hkeeps _ _).memories_le ?_
      unfold Store.growMemory
      simp only
      split <;> rfl
    | observe => exact .of_eq (Nat.le_refl _) rfl

/-- What an embedder does between calls keeps the owners. -/
theorem Errand.run_keepsOwners (e : Errand H σ) (s : Store H σ) : s.KeepsOwners (e.run s) := by
  cases e with
  | newAllocator a => exact .of_eq (Nat.le_refl _) rfl
  | newMemory limits allocator cap =>
    have hkeeps : s.Keeps 0 (finalState (Store.newMemory limits allocator cap s)) :=
      .newMemory s limits allocator cap
    refine .of_eq hkeeps.memories_le ?_
    simp only [run, Store.newMemory]
    split <;> rfl
  | growMemory address pages =>
    exact (Instance.allows_keepsOwners { config := default, memory := some address }).touches
      (.grow pages rfl)
  | freeMemory address =>
    have hkeeps : s.Keeps 0 (s.freeMemory address) := .freeMemory s address
    exact .of_eq hkeeps.memories_le rfl
  | writeMemory address offset bytes => exact .of_eq (by simp [run, Store.modifyMemory]) rfl
  | newGlobal g => exact .of_eq (Nat.le_refl _) rfl
  | setGlobal address bits => exact .of_eq (Nat.le_refl _) rfl
  | close address =>
    simp only [run, Engine.close]
    split
    · exact .refl s
    · split
      · exact .refl s
      · refine (Store.KeepsOwners.release _ s).trans (.modifyInstance _ _ fun _ _ _ hplace => ?_)
        cases hplace
  | note traces counters host => exact .of_eq (Nat.le_refl _) rfl

/-- Placing an allocator keeps the memories. -/
@[simp] theorem Engine.memories_placeAllocator (config : Config) (s : Store H σ) :
    (placeAllocator config s).2.memories = s.memories := by
  unfold placeAllocator
  split <;> rfl

/-- Placing an allocator keeps the instances. -/
@[simp] theorem Engine.instances_placeAllocator (config : Config) (s : Store H σ) :
    (placeAllocator config s).2.instances = s.instances := by
  unfold placeAllocator
  split <;> rfl

section

variable {host : Host H σ} {fuel : Nat}

/-- Instantiating a module ends in one of three ways: not even begun, with a new instance, or
without one, after giving back what it had taken or not. -/
theorem Engine.instantiate_follows {nesting : Nat} {m : Module} {resolver : Option (Resolver H σ)}
    {s : Store H σ} {Q : Config → Linking H σ → Prop}
    (hassembled : ∀ c, Leads (Link.assemble m resolver (placeAllocator c s).1)
      ⟨(placeAllocator c s).2, { config := c }⟩ (fun _ l => Q c l) fun _ l => Q c l)
    {R : Store H σ → Store H σ → Prop} (hallows : ∀ inst : Instance H, inst.Allows R)
    (hhost : ∀ c, Moves R (host.call (invoke host fuel nesting) c)) (config : Config) :
    let s' := finalState (instantiate host fuel nesting m resolver config s)
    s' = s ∨ ∃ (c : Config) (l : Linking H σ), l.Follows (Q c) R ∧
      ((∃ f, s' = ((l.store.addInstance l.inst).2.count c f)) ∨ s' = l.store ∨
        ∃ f, s' = (release l.inst l.store).count c f) := by
  unfold instantiate
  cases hcheck : config.check with
  | error fault => exact .inl rfl
  | ok c =>
    have hfollows : (finalState (Link.build host (invoke host fuel nesting) fuel m resolver
        (placeAllocator c s).1 ⟨(placeAllocator c s).2, { config := c }⟩)).Follows (Q c) R :=
      Link.build_follows (hassembled c) hallows hhost
    simp only
    cases hresult : Link.build host (invoke host fuel nesting) fuel m resolver
        (placeAllocator c s).1 ⟨(placeAllocator c s).2, { config := c }⟩ with
    | ok _ l =>
      rw [hresult] at hfollows
      exact .inr ⟨c, l, hfollows, .inl ⟨_, rfl⟩⟩
    | error e l =>
      rw [hresult] at hfollows
      refine .inr ⟨c, l, hfollows, ?_⟩
      cases e with
      | crashed crash => exact .inr (.inl rfl)
      | _ => exact .inr (.inr ⟨_, rfl⟩)

/-- What is left of instantiating a valid module. -/
theorem Engine.instantiate_cases {nesting : Nat} {m : Module} (hvalid : m.Valid)
    {R : Store H σ → Store H σ → Prop} (hallows : ∀ inst : Instance H, inst.Allows R)
    (hhost : ∀ c, Moves R (host.call (invoke host fuel nesting) c))
    (resolver : Option (Resolver H σ)) (config : Config) (s : Store H σ) :
    let s' := finalState (instantiate host fuel nesting m resolver config s)
    s' = s ∨ ∃ (c : Config) (l : Linking H σ), l.Leaves R (placeAllocator c s).2 ∧
      ((∃ f, s' = ((l.store.addInstance l.inst).2.count c f)) ∨ s' = l.store ∨
        ∃ f, s' = (release l.inst l.store).count c f) :=
  instantiate_follows (fun _ => Link.assemble_leads hvalid rfl rfl) hallows hhost config

/-- An instantiation of a valid module keeps the owners, if the host's functions do. -/
theorem Engine.instantiate_keepsOwners {nesting : Nat} {m : Module} (hvalid : m.Valid)
    (resolver : Option (Resolver H σ)) (config : Config) (s : Store H σ)
    (hhost : ∀ c, Moves Store.KeepsOwners (host.call (invoke host fuel nesting) c)) :
    s.KeepsOwners (finalState (instantiate host fuel nesting m resolver config s)) := by
  have hcount (t : Store H σ) (c : Config) (f : Counters → Counters) :
      t.KeepsOwners (t.count c f) :=
    .of_eq (by simp) (by simp)
  rcases instantiate_cases hvalid Instance.allows_keepsOwners hhost resolver config s with
    hsame | ⟨c, l, ⟨l₀, hsettled, hmemory, howns, hstarted⟩, hend⟩
  · simp only [hsame]
    exact .refl s
  have hsize := hsettled.memories_size_le
  rw [memories_placeAllocator] at hsize
  have hbefore : s.KeepsOwners l.store :=
    Store.KeepsOwners.trans (.of_eq hsize (by simp [hsettled.instances_eq])) hstarted
  rcases hend with ⟨f, hend⟩ | hend | ⟨f, hend⟩ <;> simp only [hend]
  · suffices hadded : s.KeepsOwners (l.store.addInstance l.inst).2 from hadded.trans (hcount _ c f)
    refine ⟨hbefore.size_le, ?_⟩
    rintro i p ⟨inst, hat, howned, hplace⟩
    simp only [Store.addInstance, Array.getElem?_push] at hat
    split at hat
    · -- the new instance owns nothing but what was made for it
      obtain rfl := Option.some.inj hat
      have hnew := hsettled.own (howns ▸ howned) (hmemory ▸ hplace)
      rw [memories_placeAllocator] at hnew
      exact .inr ⟨hnew.1, hnew.2.trans_le hstarted.size_le⟩
    · exact hbefore.owns ⟨inst, hat, howned, hplace⟩
  · exact hbefore
  · exact hbefore.trans ((Store.KeepsOwners.release _ _).trans (hcount _ c f))

/-- Whatever an embedder does, no instance comes to own a memory that was there before. -/
theorem Action.allowed_keepsOwners (host : Host H σ) (fuel : Nat) :
    Action.Allowed host fuel (fun _ => True) Store.KeepsOwners where
  code := Instance.allows_keepsOwners
  waits _ _ _ address _ _ _ hst :=
    hst.trans (.modifyInstance _ address fun _ _ howns hplace => ⟨howns, hplace⟩)
  errand _ _ := Errand.run_keepsOwners _ _
  instantiate _ hadmissible hhost := by
    obtain ⟨bytes, ending, hload⟩ := hadmissible.2.1
    exact Engine.instantiate_keepsOwners (Module.valid_of_load hload) _ _ _ hhost

end

end IntWasm
