import IntWasm.Proofs.Engine.MemoryGuards

/-!
# Limits of memories

The memory of an instance has the pages that its module asks for and no more than the module allows,
from the moment that the instance is there until it is closed. It does not matter whether the memory
is the instance's own or was made by the embedder, as long as the limits that it was made with are
in order: a memory with a minimum above its maximum can be made, and it has more pages than its
maximum. Main statement: `memory_keeps_limits`.
-/

namespace IntWasm

variable {H σ : Type}

/-! ## Memories that are offered -/

/-- A resolver that answers imports of memories with places from a list only. -/
def Resolver.AnswersFrom (r : Resolver H σ) (places : List Nat) : Prop :=
  ∀ (s : Store H σ) moduleName name limits p,
    r.memory s moduleName name limits = .ok p → p ∈ places

/-- Bindings answer with the memories that are bound. -/
theorem Bindings.resolver_answersFrom (b : Bindings H) :
    (b.resolver : Resolver H σ).AnswersFrom (b.memories.map (·.2)) := by
  intro s moduleName name limits p hok
  exact List.mem_map.mpr ⟨_, mem_memories_of_memory hok, rfl⟩

section

variable {host : Host H σ} {fuel : Nat}

/-- What an embedder can get to from a store without memories and instances. -/
def Store.Arises (host : Host H σ) (fuel : Nat) (s : Store H σ) : Prop :=
  ∃ s₀ : Store H σ, s₀.memories = #[] ∧ s₀.instances = #[] ∧
    Relation.ReflTransGen (fun s s' => ∃ nesting, Acts host fuel nesting (fun _ => True) s s') s₀ s

/-- The embedder has made the memory at a place, with limits in order, and has done other things
since. -/
def Store.Made (host : Host H σ) (fuel p : Nat) (s : Store H σ) : Prop :=
  ∃ before after limits allocator cap, before.Arises host fuel ∧ limits.InOrder ∧
    Store.newMemory limits allocator cap before = .ok p after ∧
    Relation.ReflTransGen
    (fun s s' => ∃ nesting, Acts host fuel nesting (fun _ => True) s s') after s

/-- Instances own memories of the store only. -/
theorem Store.Arises.owns_lt (hacts : host.Acts fuel fun _ => True) {s : Store H σ}
    (harises : s.Arises host fuel) {i p : Nat} (howns : s.Owns i p) : p < s.memories.size := by
  obtain ⟨s₀, -, hnone, hsteps⟩ := harises
  have hallowed := Action.allowed_keepsOwners host fuel
  have hkeeps : s₀.KeepsOwners s := hallowed.many
    (fun s s' ⟨nesting, hstep⟩ => (hacts.moves hallowed nesting).2 s s' hstep) hsteps
  rcases hkeeps.owns howns with ⟨inst, hat, -⟩ | hnew
  · simp [hnone] at hat
  · exact hnew.2

/-- A memory that the embedder has made with limits in order goes on respecting them, and no
instance owns it. -/
theorem Store.Made.secures (hacts : host.Acts fuel fun _ => True) {p : Nat} {s : Store H σ}
    (hmade : s.Made host fuel p) : s.Secures none {} p := by
  obtain ⟨before, after, limits, allocator, cap, harises, horder, hnew, hsteps⟩ := hmade
  have hafter : after.Secures none {} p := by
    unfold Store.newMemory at hnew
    split at hnew
    · rename_i m a hm
      obtain ⟨rfl, rfl⟩ := EStateM.Result.ok.inj hnew
      refine ⟨⟨m, by simp, (Memory.respects_new horder hm).of_satisfies ?_⟩,
        fun {i} howns => ?_, fun hnone => by cases hnone⟩
      · rw [Memory.satisfies_iff]
        exact ⟨UInt32.zero_le, fun hhas => by cases hhas⟩
      · exact absurd (harises.owns_lt hacts (i := i) howns) (Nat.lt_irrefl _)
    · cases hnew
  have hallowed := (Action.allowed_keepsGuard host fuel none {} p).mono
    (P := fun _ => True) fun _ _ => .inl rfl
  have hkeeps : after.KeepsGuard none {} p s := hallowed.many
    (fun s s' ⟨nesting, hstep⟩ => (hacts.moves hallowed nesting).2 s s' hstep) hsteps
  rcases hkeeps.guards hafter with ⟨i, hnone, -⟩ | hsecures
  · cases hnone
  · exact hsecures

end

/-! ## Building an instance -/

/-- An instance that is being built uses a memory that respects all limits declared so far, which no
instance of the store owns. -/
structure Linking.Meets (places : List Nat) (declared : List Limits) (l : Linking H σ) : Prop where
  offered : ∀ p ∈ places, l.store.Secures none {} p
  owns_lt : ∀ {i p : Nat}, l.store.Owns i p → p < l.store.memories.size
  met : ∀ limits ∈ declared, ∃ p, l.inst.memory = some p ∧ l.store.Secures none limits p

namespace Linking.Meets

variable {places : List Nat} {declared : List Limits} {l : Linking H σ}

/-- A step that keeps to all limits, and to owners. -/
theorem step (hmeets : l.Meets places declared) {l' : Linking H σ}
    (hmemory : l'.inst.memory = l.inst.memory) (howners : l.store.KeepsOwners l'.store)
    (hrespects : ∀ limits p, l.store.Respects limits p → l'.store.Respects limits p) :
    l'.Meets places declared := by
  have hsecures {limits : Limits} {p : Nat} (hsecures : l.store.Secures none limits p) :
      l'.store.Secures none limits p :=
    hsecures.step (fun i hnone => by cases hnone) howners (hrespects limits p hsecures.memory)
  refine ⟨fun p hp => hsecures (hmeets.offered p hp), fun howns => ?_, fun limits hlimits => ?_⟩
  · rcases howners.owns howns with howns | hnew
    · exact (hmeets.owns_lt howns).trans_le howners.size_le
    · exact hnew.2
  · obtain ⟨p, hp, hmet⟩ := hmeets.met limits hlimits
    exact ⟨p, hmemory ▸ hp, hsecures hmet⟩

/-- A step that leaves memories and instances as they are. -/
theorem of_eq (hmeets : l.Meets places declared) {l' : Linking H σ}
    (hmemory : l'.inst.memory = l.inst.memory) (hmemories : l'.store.memories = l.store.memories)
    (hinstances : l'.store.instances = l.store.instances) : l'.Meets places declared :=
  hmeets.step hmemory (.of_eq (hmemories ▸ Nat.le_refl _) hinstances)
    fun _ _ hrespects => hrespects.of_eq hmemories

variable {resolver : Option (Resolver H σ)}

/-- A memory is imported only if it respects the limits of the import. -/
theorem importEntry (hmeets : l.Meets places declared)
    (hanswers : ∀ r, resolver = some r → r.AnswersFrom places) (i : Import)
    (hfew : declared.length + (Module.memoryImport? i).toList.length ≤ 1) :
    Leads (Link.importEntry resolver i) l
      (fun _ l' => l'.Meets places (declared ++ (Module.memoryImport? i).toList))
        fun _ _ => True := by
  refine (Link.importEntry_leads resolver i l).weaken (fun _ l' hbinds => ?_) fun _ _ _ => trivial
  cases hbinds with
  | function htype =>
    simp only [Module.memoryImport?, htype, Option.toList_none, List.append_nil]
    exact hmeets.of_eq rfl rfl rfl
  | @memory r limits p htype hresolver hfound hfits =>
    simp only [Module.memoryImport?, htype, Option.toList_some, List.length_singleton] at hfew ⊢
    obtain rfl : declared = [] := List.length_eq_zero_iff.1 (by omega)
    have hattach (limits : Limits) (q : Nat) (hrespects : l.store.Respects limits q) :
        (l.store.modifyMemory p ({ · with attached := true })).Respects limits q :=
      hrespects.modifyMemory p fun m => ⟨m.bytes, true, rfl, rfl⟩
    have hattached : Linking.Meets places []
        { l with store := l.store.modifyMemory p ({ · with attached := true }) } :=
      hmeets.step rfl (.of_eq (by simp [Store.modifyMemory]) rfl) hattach
    refine ⟨hattached.offered, hattached.owns_lt, fun limits' hlimits => ⟨p, rfl, ?_⟩⟩
    obtain rfl : limits' = limits := by simpa using hlimits
    -- The memory is one of those that are offered, and it fits the limits of the import.
    have hoffered := hmeets.offered p (hanswers r hresolver _ _ _ _ _ hfound)
    obtain ⟨m, hat, hm⟩ := hoffered.memory
    rw [hat] at hfits
    have hrespects := hattach limits' p ⟨m, hat, hm.of_satisfies hfits⟩
    exact ⟨hrespects, hoffered.owned, fun hnone => by cases hnone⟩
  | global htype =>
    simp only [Module.memoryImport?, htype, Option.toList_none, List.append_nil]
    exact hmeets.of_eq rfl rfl rfl

/-- Imported memories meet what they are declared with. -/
theorem importEntries (hmeets : l.Meets places declared)
    (hanswers : ∀ r, resolver = some r → r.AnswersFrom places) (k : Nat) (entries : List Import)
    (hfew : declared.length + (entries.filterMap Module.memoryImport?).length ≤ 1) :
    Leads (Link.forEachFrom (fun _ i => Link.importEntry resolver i) k entries) l
      (fun _ l' => l'.Meets places (declared ++ entries.filterMap Module.memoryImport?))
      fun _ _ => True := by
  induction entries generalizing l k declared with
  | nil =>
    show Linking.Meets places (declared ++ []) l
    rwa [List.append_nil]
  | cons i entries ih =>
    have hcons : (i :: entries).filterMap Module.memoryImport? =
        (Module.memoryImport? i).toList ++ entries.filterMap Module.memoryImport? := by
      rw [List.filterMap_cons]
      cases Module.memoryImport? i <;> rfl
    rw [hcons, List.length_append] at hfew
    refine (hmeets.importEntry hanswers i (by omega)).bind fun _ l' hl' => ?_
    rw [hcons, ← List.append_assoc]
    exact ih hl' (k + 1) (by rw [List.length_append]; omega)

/-- Globals do not change the memory. -/
theorem defineGlobals (hmeets : l.Meets places declared) (imported : List Value) (k : Nat)
    (entries : List GlobalDef) :
    Leads (Link.forEachFrom (Link.defineGlobal imported) k entries) l
      (fun _ l' => l'.Meets places declared) fun _ _ => True := by
  induction entries generalizing l k with
  | nil => exact hmeets
  | cons d entries ih =>
    have hfirst : Leads (Link.defineGlobal imported k d) l (fun _ l' => l'.Meets places declared)
        fun _ _ => True := by
      refine (Link.defineGlobal_leads imported k d l).weaken ?_ fun _ _ _ => trivial
      rintro _ _ ⟨v, -, rfl⟩
      exact hmeets.of_eq rfl rfl rfl
    exact hfirst.bind fun _ l' hl' => ih hl' (k + 1)

/-- A memory of the module's own is made with its limits. -/
theorem declareMemory {m : Module} (hmeets : l.Meets places declared) (allocator : Nat)
    (horder : ∀ limits ∈ m.memories.getD [], limits.InOrder)
    (hfew : declared.length + (m.memories.getD []).length ≤ 1) :
    Leads (Link.declareMemory allocator m) l
      (fun _ l' => l'.Meets places (declared ++ m.memories.getD [])) fun _ _ => True := by
  unfold Link.declareMemory
  cases hmemories : m.memories.getD [] with
  | nil =>
    show Linking.Meets places (declared ++ []) l
    rwa [List.append_nil]
  | cons limits rest =>
    rw [hmemories, List.length_cons] at hfew
    obtain rfl : declared = [] := List.length_eq_zero_iff.1 (by omega)
    obtain rfl : rest = [] := List.length_eq_zero_iff.1 (by omega)
    refine (Link.allocateMemory_leads allocator limits l).weaken ?_ fun _ _ _ => trivial
    rintro _ l' ⟨⟨memory, a, hnew, hpush⟩, -, hinstances, hinst⟩
    have howners : l.store.KeepsOwners l'.store :=
      .of_eq (by rw [hpush, Array.size_push]; omega) hinstances
    have hpushed (limits : Limits) (q : Nat) (hrespects : l.store.Respects limits q) :
        l'.store.Respects limits q := by
      obtain ⟨m, hat, hm⟩ := hrespects
      exact ⟨m, hpush ▸ getElem?_push_of_some hat, hm⟩
    have hsame : Linking.Meets places [] { l' with inst := l.inst } :=
      hmeets.step rfl howners hpushed
    refine ⟨hsame.offered, hsame.owns_lt, fun limits' hlimits => ⟨_, by rw [hinst], ?_⟩⟩
    obtain rfl : limits' = limits := by simpa using hlimits
    have hrespects := Memory.respects_new (horder limits' (by simp [hmemories])) hnew
    refine ⟨⟨memory, by simp [hpush], hrespects⟩, fun ⟨inst, hat, howns⟩ => ?_,
      fun hnone => by cases hnone⟩
    -- No instance owns a memory that was not there.
    rw [hinstances] at hat
    exact absurd (hmeets.owns_lt ⟨inst, hat, howns⟩) (Nat.lt_irrefl _)

/-- Segments do not change the size of the memory. -/
theorem placeSegments (hmeets : l.Meets places declared) (m : Module) :
    Leads (Link.placeSegments m) l (fun _ l' => l'.Meets places declared) fun _ _ => True := by
  refine (Link.placeSegments_leads m l).weaken ?_ fun _ _ _ => trivial
  rintro _ _ ⟨place, hsize, fill, -, rfl⟩
  cases l.inst.memory with
  | none => exact hmeets.of_eq rfl rfl rfl
  | some address =>
    exact hmeets.step rfl (.of_eq (by simp [Store.modifyMemory]) rfl) fun _ _ hrespects =>
      hrespects.modifyMemory address fun m => ⟨place m.bytes, m.attached, hsize _, rfl⟩

end Linking.Meets

section

variable {host : Host H σ} {fuel : Nat} {m : Module} {resolver : Option (Resolver H σ)}
  {places : List Nat}

/-- An instance that is put together respects the limits of its module. -/
theorem Link.assemble_meets (hvalid : m.Valid)
    (horder : ∀ limits ∈ m.memories.getD [], limits.InOrder)
    (hanswers : ∀ r, resolver = some r → r.AnswersFrom places) (allocator : Nat) {l : Linking H σ}
    (hmeets : l.Meets places []) :
    Leads (assemble m resolver allocator) l
      (fun _ l' => l'.Meets places (m.importedMemories ++ m.memories.getD [])) fun _ _ => True := by
  have hfew : m.importedMemories.length + (m.memories.getD []).length ≤ 1 := hvalid.memoryCount_le
  have hbound : Leads (bindDefinitions m resolver) l
      (fun _ l' => l'.Meets places m.importedMemories) fun _ _ => True := by
    unfold bindDefinitions
    cases m.compile with
    | error e => exact trivial
    | ok functions =>
      refine Leads.after rfl (Leads.after rfl ?_)
      have hnamed : Linking.Meets places [] { l with inst := { l.inst with
          name := m.ownName, types := (m.types.getD []).toArray, functions :=
              functions.toArray } } :=
        hmeets.of_eq rfl rfl rfl
      refine (hnamed.importEntries hanswers 0 m.importList ?_).bind fun _ l₁ hl₁ => ?_
      · rw [List.length_nil, Nat.zero_add]
        exact Nat.le_trans (Nat.le_add_right _ _) hfew
      · exact Leads.after rfl (hl₁.defineGlobals _ 0 (m.globals.getD []))
  refine hbound.bind fun _ l₁ hl₁ => ?_
  refine (hl₁.declareMemory allocator horder hfew).bind fun _ l₂ hl₂ => ?_
  have htable : Leads (declareTable m) l₂
      (fun _ l' => l'.Meets places (m.importedMemories ++ m.memories.getD [])) fun _ _ => True := by
    unfold declareTable
    split
    · exact hl₂
    · exact hl₂.of_eq rfl rfl rfl
  refine htable.bind fun _ l₃ hl₃ => ?_
  exact (hl₃.placeSegments m).bind fun _ l₄ hl₄ => hl₄.of_eq rfl rfl rfl

/-- The limits of the memory that a loaded module declares are in order. -/
theorem Module.Loaded.memories_inOrder (hloaded : m.Loaded) :
    ∀ limits ∈ m.memories.getD [], limits.InOrder := by
  obtain ⟨bytes, ending, hload⟩ := hloaded
  have hfew : (m.memories.getD []).length ≤ 1 :=
    Nat.le_trans (Nat.le_add_left _ _) (valid_of_load hload).memoryCount_le
  have hmemories := (load_eq_ok.mp hload).2.memories
  simp only [checkMemories, except_bind_eq_ok] at hmemories
  obtain ⟨_, -, hmemories⟩ := hmemories
  intro limits hlimits
  cases hlist : m.memories.getD [] with
  | nil => simp [hlist] at hlimits
  | cons first rest =>
    rw [hlist, List.length_cons] at hfew
    obtain rfl : rest = [] := List.length_eq_zero_iff.1 (by omega)
    rw [hlist, List.mem_singleton] at hlimits
    subst hlimits
    simp only [hlist, checkLimits, except_bind_eq_ok, require_eq_ok] at hmemories
    obtain ⟨_, horder, -⟩ := hmemories
    intro hhas
    simpa [hhas] using horder

/-- An instance comes to use a memory that no instance owns so far. -/
theorem Store.Secures.takenBy {s : Store H σ} {limits : Limits} {p : Nat}
    (hsecures : s.Secures none limits p) {inst : Instance H} (hmemory : inst.memory = some p) :
    (s.addInstance inst).2.Secures (some s.instances.size) limits p := by
  refine ⟨hsecures.memory.of_eq rfl, fun {i} ⟨found, hat, howns⟩ => ?_, fun {i} huser => ?_⟩
  · simp only [Store.addInstance, Array.getElem?_push] at hat
    split at hat
    · rename_i hi
      rw [hi]
    · cases hsecures.owned ⟨found, hat, howns⟩
  · obtain rfl := Option.some.inj huser
    exact ⟨inst, by simp [Store.addInstance], hmemory⟩

/-- An instance that was instantiated uses a memory that respects the limits of its module. -/
theorem Engine.instantiate_secures {nesting place : Nat} (hloaded : m.Loaded) {config : Config}
    {s₀ s₁ : Store H σ} {used : Nat → Prop}
    (hanswers : ∀ r, resolver = some r → r.AnswersFrom places)
    (hoffered : ∀ p ∈ places, s₀.Secures none {} p)
    (howns : ∀ {i p : Nat}, s₀.Owns i p → p < s₀.memories.size)
    (hhost : ∀ limits p, used p → ∀ c,
      Moves (Store.KeepsGuard none limits p) (host.call (invoke host fuel nesting) c))
    (hinstance : instantiate host fuel nesting m resolver config s₀ = .ok place s₁)
    (hused : ∀ inst p, s₁.instances[place]? = some inst → inst.memory = some p → used p) :
    ∀ limits ∈ m.importedMemories ++ m.memories.getD [], ∃ p, used p ∧
      s₁.Secures (some place) limits p := by
  have hvalid : m.Valid := by
    obtain ⟨bytes, ending, hload⟩ := hloaded
    exact Module.valid_of_load hload
  unfold instantiate at hinstance
  cases hcheck : config.check with
  | error fault => simp [hcheck] at hinstance
  | ok c =>
    simp only [hcheck] at hinstance
    cases hresult : Link.build host (invoke host fuel nesting) fuel m resolver
        (placeAllocator c s₀).1 ⟨(placeAllocator c s₀).2, { config := c }⟩ with
    | error e l =>
      simp only [hresult] at hinstance
      cases e <;> cases hinstance
    | ok _ l' =>
      simp only [hresult] at hinstance
      obtain ⟨rfl, rfl⟩ := EStateM.Result.ok.inj hinstance
      rw [Link.build_eq_assemble, estate_bind_eq_ok] at hresult
      obtain ⟨⟨⟩, l, hassemble, hstart⟩ := hresult
      -- While the instance is put together no start function runs, so the memory meets the limits
      -- at its end; the start function keeps them afterwards.
      have hbegun : Linking.Meets places []
          (⟨(placeAllocator c s₀).2, { config := c }⟩ : Linking H σ) := by
        have howners : s₀.KeepsOwners (placeAllocator c s₀).2 := .of_eq (by simp) (by simp)
        refine ⟨fun p hp => ?_, fun {i p} howned => ?_, fun limits hlimits => by cases hlimits⟩
        · exact (hoffered p hp).step (fun i hnone => by cases hnone) howners
            ((hoffered p hp).memory.of_eq (by simp))
        · rcases howners.owns howned with howned | hnew
          · exact (howns howned).trans_le howners.size_le
          · exact hnew.2
      have hmeets := Link.assemble_meets hvalid hloaded.memories_inOrder hanswers
        (placeAllocator c s₀).1 hbegun
      replace hmeets := hmeets.of_ok hassemble
      have hkept : l'.inst.memory = l.inst.memory := by
        have hallows : l.inst.Allows fun _ _ : Store H σ => True :=
          ⟨fun _ => trivial, fun _ _ _ _ _ => trivial, fun _ => trivial⟩
        have hstarted : (finalState
            (Link.runStart host (invoke host fuel nesting) fuel m l)).inst.memory = l.inst.memory :=
          (Link.runStart_leads l hallows fun _ _ => trivial).1
        rwa [hstart] at hstarted
      intro limits hlimits
      obtain ⟨p, hp, hsecures⟩ := hmeets.met limits hlimits
      have husedp : used p := hused l'.inst p (by simp [Store.addInstance]) (hkept.trans hp)
      have hguards : l.store.KeepsGuard none limits p
          (finalState (Link.runStart host (invoke host fuel nesting) fuel m l)).store :=
        (Link.runStart_leads l l.inst.allows_keepsGuard (hhost limits p husedp)).2.2
      rw [hstart] at hguards
      refine ⟨p, husedp, Store.Secures.count ?_ c _⟩
      rcases hguards.guards hsecures with ⟨i, hnone, -⟩ | hsecures'
      · cases hnone
      · exact hsecures'.takenBy (hkept.trans hp)

/-- The memory of an instance keeps to the limits that its module declares. Take an instance of a
loaded module whose imported memory, if it has one, was made by the embedder with limits in order,
and let the embedder do anything but free the memories in use. At every moment until the instance is
closed, in the middle of invocations too, its memory has at least the pages that the module asks
for, and no more than the module allows. -/
theorem memory_keeps_limits {nesting place : Nat} (hloaded : m.Loaded) {config : Config}
    {s₀ s₁ s : Store H σ} {used : Nat → Prop} (harises : s₀.Arises host fuel)
    (hanswers : ∀ r, resolver = some r → r.AnswersFrom places)
    (hmade : ∀ p ∈ places, s₀.Made host fuel p)
    (hinstance : Engine.instantiate host fuel nesting m resolver config s₀ = .ok place s₁)
    (hused : ∀ inst p, s₁.instances[place]? = some inst → inst.memory = some p → used p)
    (hacts : host.Acts fuel fun a => ∀ p, used p → a ≠ .errand (.freeMemory p))
    (hpasses : s₁.Passes host fuel (fun a => ∀ p, used p → a ≠ .errand (.freeMemory p)) s) :
    ∀ limits ∈ m.importedMemories ++ m.memories.getD [], ∃ inst, s.instances[place]? = some inst ∧
      (inst.closed = false → ∃ p memory, inst.memory = some p ∧ s.memories[p]? = some memory ∧
        limits.min ≤ memory.size ∧ (limits.hasMax = true → memory.size ≤ limits.max)) := by
  have hany : host.Acts fuel fun _ => True := hacts.mono fun _ _ => trivial
  have hallowed (user : Option Nat) (limits : Limits) (p : Nat) (hp : used p) :=
    (Action.allowed_keepsGuard host fuel user limits p).mono
      (P := fun a => ∀ p, used p → a ≠ .errand (.freeMemory p)) fun a ha => .inr (ha p hp)
  have hsecured := Engine.instantiate_secures hloaded hanswers
    (fun p hp => (hmade p hp).secures hany) (fun howns => harises.owns_lt hany howns)
    (fun limits p hp => (hacts.moves (hallowed none limits p hp) nesting).1) hinstance hused
  intro limits hlimits
  obtain ⟨p, hp, hsecures⟩ := hsecured limits hlimits
  have hguards : s₁.KeepsGuard (some place) limits p s := by
    refine hpasses.moves hacts (hallowed (some place) limits p hp) ?_
    rintro m resolver c s l ⟨bytes, ending, hload⟩ hassemble
    have hsettled : Leads (Link.assemble m resolver (Engine.placeAllocator c s).1)
        ⟨(Engine.placeAllocator c s).2, { config := c }⟩
        (fun _ l => l.Settled (Engine.placeAllocator c s).2)
        fun _ l => l.Settled (Engine.placeAllocator c s).2 :=
      Link.assemble_leads (Module.valid_of_load hload) rfl rfl
    exact (hsettled.of_ok hassemble).keepsGuard
  rcases hguards.guards hsecures with ⟨i, huser, inst, hat, hclosed⟩ | hsecures
  · obtain rfl := Option.some.inj huser
    exact ⟨inst, hat, fun hopen => by cases hclosed.symm.trans hopen⟩
  · obtain ⟨inst, hat, hplace⟩ := hsecures.used rfl
    obtain ⟨memory, hmemory, hrespects⟩ := hsecures.memory
    exact ⟨inst, hat, fun _ => ⟨p, memory, hplace, hmemory, hrespects.bounds⟩⟩

end

/-- A module that imports a memory of at most three pages. Its function `grow` lets the memory grow
by a page and counts the pages. -/
def measuring : List UInt8 :=
  [0, 0x61, 0x73, 0x6d, 1, 0, 0, 0, 1, 5, 1, 0x60, 0, 1, 0x7f,
    2, 9, 1, 1, 0x65, 1, 0x6d, 2, 1, 0, 3, 3, 2, 1, 0,
    7, 8, 1, 4, 0x67, 0x72, 0x6f, 0x77, 0, 0, 10, 11, 1, 9, 0, 0x41, 1, 0x40, 0, 0x1a,
    0x3f, 0, 0x0b]

/-- A store with an allocator and a memory of at most two pages, which has none yet. -/
def measuredStore : Store Unit Unit :=
  (Errand.newMemory { flags := 1, max := 2 } 0 0).run ((Errand.newAllocator {}).run bareStore)

/-- Bindings of the memory of that store. -/
def measuredBindings : Bindings Unit := Bindings.defineMemory {} "e" "m" 0

/-- What the module `measuring` is made of, and what it does to the memory of `measuredStore`: it
takes the memory and lets it grow. -/
theorem exists_measuring : ∃ m s₁ s, Module.load measuring .eof = .ok m ∧
    m.importList = [⟨"e", "m", .memory { flags := 1, max := 3 }⟩] ∧
    (m.compile.toOption.isSome = true ∧ m.globals = none ∧ m.memories = none ∧ m.tables = none ∧
      m.elements = none ∧ m.data = none ∧ m.start = none) ∧
    Engine.instantiate growingHost 100 1 m (some measuredBindings.resolver) {} measuredStore =
      .ok 0 s₁ ∧
    (s₁.instances[0]?.map fun (i : Instance Unit) => (i.closed, i.memory)) =
      some (false, some 0) ∧
    (s₁.memories[0]?.getD default).satisfies { flags := 1, max := 3 } = true ∧
    Engine.invoke growingHost 100 1 0 "grow" [] s₁ = .ok [⟨.i32, 1⟩] s := by
  have hruns : ((Module.load measuring .eof).toOption.any fun m =>
      m.importList == [⟨"e", "m", .memory { flags := 1, max := 3 }⟩] &&
      (m.compile.toOption.isSome && m.globals == none && m.memories == none && m.tables == none &&
        m.elements == none && m.data == none && m.start == none) &&
      (succeeded (Engine.instantiate growingHost 100 1 m (some measuredBindings.resolver) {}
        measuredStore)).any fun made =>
          made.1 == 0 &&
          (made.2.instances[0]?.map fun (i : Instance Unit) => (i.closed, i.memory)) ==
            some (false, some 0) &&
          (made.2.memories[0]?.getD default).satisfies { flags := 1, max := 3 } &&
          (succeeded (Engine.invoke growingHost 100 1 0 "grow" [] made.2)).any fun left =>
            left.1 == [⟨.i32, 1⟩]) = true := by decide +kernel
  simp only [Option.any_eq_true, Bool.and_eq_true, beq_iff_eq, succeeded_eq_some,
    except_toOption_eq_some] at hruns
  obtain ⟨m, hload, ⟨himports, ⟨⟨⟨⟨⟨hcompile, hglobals⟩, hmemories⟩, htables⟩, helements⟩, hdata⟩,
    hstart⟩, ⟨_, s₁⟩, hinstance, ⟨⟨rfl, huser⟩, hfits⟩, ⟨_, s⟩, hinvoke, rfl⟩ := hruns
  exact ⟨m, s₁, s, hload, himports,
    ⟨hcompile, hglobals, hmemories, htables, helements, hdata, hstart⟩, hinstance, huser, hfits,
    hinvoke⟩

/-- A module that lets its imported memory grow and measures it. -/
theorem memory_keeps_limits_measuring :
    ∃ m s₁ s, m.Loaded ∧ m.importedMemories = [{ flags := 1, max := 3 }] ∧
      measuredStore.Arises growingHost 100 ∧
      (measuredBindings.resolver : Resolver Unit Unit).AnswersFrom [0] ∧
      measuredStore.Made growingHost 100 0 ∧
      Engine.instantiate growingHost 100 1 m (some measuredBindings.resolver) {} measuredStore =
        .ok 0 s₁ ∧
      Engine.invoke growingHost 100 1 0 "grow" [] s₁ = .ok [⟨.i32, 1⟩] s ∧
      growingHost.Acts 100 (fun a => ∀ p, p = 0 → a ≠ .errand (.freeMemory p)) ∧
      s₁.Passes growingHost 100 (fun a => ∀ p, p = 0 → a ≠ .errand (.freeMemory p)) s ∧
      ∃ inst, s.instances[0]? = some inst ∧
        (inst.closed = false → ∃ p memory, inst.memory = some p ∧ s.memories[p]? = some memory ∧
          0 ≤ memory.size ∧ (true = true → memory.size ≤ 3)) := by
  obtain ⟨m, s₁, s, hload, himports, -, hinstance, huser, -, hinvoke⟩ := exists_measuring
  have hlimits : m.importedMemories = [{ flags := 1, max := 3 }] := by
    simp [Module.importedMemories, himports, Module.memoryImport?]
  have hblank : (bareStore : Store Unit Unit).Arises growingHost 100 := ⟨_, rfl, rfl, .refl⟩
  have hbefore : ((Errand.newAllocator {}).run bareStore : Store Unit Unit).Arises
      growingHost 100 := by
    obtain ⟨s₀, hmemories, hinstances, hsteps⟩ := hblank
    refine ⟨s₀, hmemories, hinstances,
      hsteps.tail ⟨0, .errand (.newAllocator {}), trivial, ?_, rfl⟩⟩
    intro b hb
    cases hb
  have hmade : measuredStore.Made growingHost 100 0 :=
    ⟨_, measuredStore, { flags := 1, max := 2 }, 0, 0, hbefore, fun _ => by decide, by rfl, .refl⟩
  have harises : measuredStore.Arises growingHost 100 := by
    obtain ⟨s₀, hmemories, hinstances, hsteps⟩ := hbefore
    exact ⟨s₀, hmemories, hinstances, hsteps.tail
      ⟨0, .errand (.newMemory { flags := 1, max := 2 } 0 0), trivial, Nat.zero_lt_one, rfl⟩⟩
  have hanswers : (measuredBindings.resolver : Resolver Unit Unit).AnswersFrom [0] :=
    Bindings.resolver_answersFrom measuredBindings
  have hacts : growingHost.Acts 100 (fun a => ∀ p, p = 0 → a ≠ .errand (.freeMemory p)) :=
    growingHost_acts 100 (by simp)
  have hused (inst : Instance Unit) (p : Nat) (hat : s₁.instances[0]? = some inst)
      (hmemory : inst.memory = some p) : p = 0 := by
    rw [hat, Option.map_some, hmemory] at huser
    exact Option.some.inj (Prod.mk.inj (Option.some.inj huser)).2
  have hpasses : s₁.Passes growingHost 100 (fun a => ∀ p, p = 0 → a ≠ .errand (.freeMemory p)) s :=
    .act ⟨.invoke 0 "grow" [], by simp, trivial, by rw [Action.run, hinvoke]; rfl⟩ .here
  refine ⟨m, s₁, s, ⟨_, _, hload⟩, hlimits, harises, hanswers, hmade, hinstance, hinvoke, hacts,
    hpasses, ?_⟩
  exact memory_keeps_limits ⟨_, _, hload⟩ harises (fun r hr => Option.some.inj hr ▸ hanswers)
    (fun p hp => by rwa [List.mem_singleton.1 hp]) hinstance hused hacts hpasses
    { flags := 1, max := 3 } (by simp [hlimits])

/-- A store with a memory of five pages that was made with a maximum of two. -/
def disorderedStore : Store Unit Unit :=
  (Errand.newMemory { flags := 1, min := 5, max := 2 } 0 0).run
    ((Errand.newAllocator {}).run bareStore)

/-- The memory of a module that imports a memory, and has code but no segments and no start
function, is the one that it is answered with, if that is free and fits. -/
theorem Link.build_importing {host : Host H σ} {invoker : Invoker H σ} {fuel allocator : Nat}
    {m : Module} {r : Resolver H σ} {s : Store H σ} {c : Config} {moduleName field : String}
    {limits : Limits} {memory : Memory}
    (himports : m.importList = [⟨moduleName, field, .memory limits⟩])
    (hcompile : m.compile.toOption.isSome = true) (hglobals : m.globals = none)
    (hmemories : m.memories = none) (htables : m.tables = none) (helements : m.elements = none)
    (hdata : m.data = none) (hstart : m.start = none)
    (hfound : r.memory s moduleName field limits = .ok 0) (hs : s.memories = #[memory])
    (hfits : memory.satisfies limits = true) (hfree : memory.attached = false) :
    ∃ inst : Instance H, inst.memory = some 0 ∧ inst.closed = false ∧
      build host invoker fuel m (some r) allocator ⟨s, { config := c }⟩ =
        .ok () ⟨{ s with memories := #[{ memory with attached := true }] }, inst⟩ := by
  cases hfunctions : m.compile with
  | error e => simp [hfunctions, Except.toOption] at hcompile
  | ok functions =>
    refine ⟨{ config := c, memory := some 0, name := m.ownName, types := (m.types.getD []).toArray
              functions := functions.toArray, exports := m.exports.getD [] }, rfl, rfl, ?_⟩
    rw [build_eq]
    simp only [bindDefinitions, declareMemory, declareTable, runStart, hfunctions, himports,
      hglobals, hmemories, htables, hstart, Option.getD_none, bind_assoc, lift, pure_bind,
      forEachFrom, importEntry]
    simp only [bind, EStateM.bind, modifyInstance, estate_modify, importMemory_eq, hfound, hs]
    simp [hfits, hfree, globalValues, estate_get, pure, EStateM.pure, placeSegments_eq, helements,
      hdata, elementOffsets, dataOffsets, bind, EStateM.bind, Store.modifyMemory, hs]

/-- A memory with more pages than its maximum is imported where fewer pages are allowed. -/
theorem memory_exceeds_limits_disordered :
    ∃ m s₁ inst memory, m.Loaded ∧ m.importedMemories = [{ flags := 1, max := 3 }] ∧
      Engine.instantiate growingHost 100 1 m (some measuredBindings.resolver) {} disorderedStore =
        .ok 0 s₁ ∧
      s₁.instances[0]? = some inst ∧ inst.memory = some 0 ∧ inst.closed = false ∧
      s₁.memories[0]? = some memory ∧ 3 < memory.size := by
  obtain ⟨m, -, -, hload, himports,
    ⟨hcompile, hglobals, hmemories, htables, helements, hdata, hstart⟩, -⟩ := exists_measuring
  have hchecks : ({} : Config).check.toOption.isSome = true := by decide +kernel
  -- The bytes of the memory are never looked at, only their number is.
  obtain ⟨made, a, hnew, hfree⟩ : ∃ made a,
      Memory.new { flags := 1, min := 5, max := 2 } 0 0 {} = .ok made a ∧ made.attached = false :=
    ⟨_, _, rfl, rfl⟩
  obtain ⟨-, hdeclared, hsize, -⟩ := Memory.bounded_new hnew
  have hfits : made.satisfies { flags := 1, max := 3 } = true := by
    rw [Memory.satisfies_iff, hsize, hdeclared]
    decide
  have hstore : disorderedStore = { memories := #[made], allocators := #[a], host := () } := by
    simp [disorderedStore, Errand.run, Store.newMemory, hnew, Store.addMemory, finalState,
      Store.addAllocator, bareStore]
  cases hcheck : ({} : Config).check with
  | error e => simp [hcheck, Except.toOption] at hchecks
  | ok c =>
    have hmade : disorderedStore.memories = #[made] := by rw [hstore]
    have hinstances : disorderedStore.instances = #[] := by rw [hstore]
    have hfound : (measuredBindings.resolver : Resolver Unit Unit).memory
        (Engine.placeAllocator c disorderedStore).2 "e" "m" { flags := 1, max := 3 } = .ok 0 := by
      have hbound : measuredBindings.memories.lookup (Bindings.key "e" "m") = some 0 := by decide
      simp [Bindings.resolver, Bindings.memory, hbound, hmade, hfits]
    obtain ⟨inst, hmemory, hopen, hbuild⟩ : ∃ inst : Instance Unit, inst.memory = some 0 ∧
        inst.closed = false ∧ Link.build growingHost (Engine.invoke growingHost 100 1) 100 m
          (some measuredBindings.resolver) (Engine.placeAllocator c disorderedStore).1
          ⟨(Engine.placeAllocator c disorderedStore).2, { config := c }⟩ =
            .ok () ⟨{ (Engine.placeAllocator c disorderedStore).2 with
              memories := #[{ made with attached := true }] }, inst⟩ :=
      Link.build_importing himports hcompile hglobals hmemories htables helements hdata hstart
        hfound (by rw [Engine.memories_placeAllocator, hmade]) hfits hfree
    let built : Store Unit Unit := { (Engine.placeAllocator c disorderedStore).2 with
      memories := #[{ made with attached := true }] }
    refine ⟨m, (built.addInstance inst).2.count c (Counters.instantiation "ok"), inst,
      { made with attached := true }, ⟨_, _, hload⟩, ?_, ?_, ?_, hmemory, hopen,
      by simp [built, Store.addInstance], ?_⟩
    · simp [Module.importedMemories, himports, Module.memoryImport?]
    · simp only [Engine.instantiate, hcheck, hbuild]
      simp [built, Store.addInstance, hinstances]
    · simp [built, Store.addInstance, hinstances]
    · show 3 < made.size
      rw [hsize]
      decide

end IntWasm
