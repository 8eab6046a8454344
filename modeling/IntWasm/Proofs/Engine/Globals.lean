import IntWasm.Proofs.Engine.Failures
import IntWasm.Proofs.Engine.Moments
import IntWasm.Proofs.Structured.Preservation

/-!
# What globals hold

A global is made to hold a value of its type and never holds anything else, whoever writes to it. So
the code of an instance always reads words that the types of its globals admit, for as long as the
instance is there and even after it was closed. Main statements: `Action.allowed_upholds` and
`Engine.instantiate_carries`.
-/

namespace IntWasm

open Structured

variable {H σ : Type}

/-! ## Globals that were made -/

/-- A global that holds what one does that was made with some value. -/
def Global.Made (g : Global) : Prop := ∃ type v, g = .new type v

/-- Writing a global cuts the word to its type. -/
theorem Global.made_of_set? {g g' : Global} {bits : UInt64} (hset : g.set? bits = some g') :
    g'.Made := by
  unfold set? at hset
  split at hset
  · exact ⟨g.type, ⟨g.type.type, bits⟩, (Option.some.inj hset).symm⟩
  · cases hset

/-- A global holds a word that its type admits. -/
theorem Global.Made.admits {g : Global} (hmade : g.Made) : g.type.type.Admits g.bits := by
  obtain ⟨type, v, rfl⟩ := hmade
  exact Value.admits_word type.type v.bits

/-- All globals of a store were made. -/
def Store.GlobalsMade (s : Store H σ) : Prop :=
  ∀ ⦃p : Nat⦄ ⦃g : Global⦄, s.globals[p]? = some g → g.Made

/-- What an embedder does if it makes every global that it adds. -/
def Action.MakesGlobals : Action H σ → Prop
  | .errand (.newGlobal g) => g.Made
  | _ => True

/-! ## What stays -/

/-- A store that extends another one. Its globals were made if those of the other one were, and it
still has the code of the instance at a place. -/
structure Store.Upholds (place : Nat) (s t : Store H σ) : Prop extends s.Extends t where
  made : s.GlobalsMade → t.GlobalsMade
  code : ∀ {inst : Instance H}, s.instances[place]? = some inst →
    ∃ memory idle closed, t.instances[place]? = some { inst with memory, idle, closed }

namespace Store.Upholds

variable {place : Nat} {s t u : Store H σ}

/-- Globals that are not touched are upheld. -/
theorem of_eq (hextends : s.Extends t) (hglobals : t.globals = s.globals)
    (hinstances : t.instances = s.instances) : s.Upholds place t where
  toExtends := hextends
  made hmade p g hg := hmade (hglobals ▸ hg)
  code {inst} hat := ⟨inst.memory, inst.idle, inst.closed, by rw [hinstances, hat]⟩

/-- A store upholds its own globals. -/
theorem refl (s : Store H σ) : s.Upholds place s := of_eq (.refl s) rfl rfl

/-- Globals that are upheld twice are upheld. -/
theorem trans (hst : s.Upholds place t) (htu : t.Upholds place u) : s.Upholds place u where
  toExtends := hst.toExtends.trans htu.toExtends
  made hmade := htu.made (hst.made hmade)
  code hat := Store.KeepsCode.trans (fun _ => hst.code) (fun _ => htu.code) hat

/-- Globals were made that were not there before. -/
theorem of_globals {globals : Array Global} (hextends : s.Extends { s with globals })
    (hnew : ∀ {p : Nat} {g : Global}, globals[p]? = some g → s.globals[p]? = some g ∨ g.Made) :
    s.Upholds place { s with globals } where
  toExtends := hextends
  made hmade _ _ hg := (hnew hg).elim (fun hold => hmade hold) id
  code {inst} hat := ⟨inst.memory, inst.idle, inst.closed, hat⟩

/-- A global that was made as it should be may be added. -/
theorem addGlobal (s : Store H σ) {g : Global} (hmade : g.Made) :
    s.Upholds place (s.addGlobal g).2 := by
  have hkeeps : s.Keeps 0 (s.addGlobal g).2 := .addGlobal s g
  refine of_globals hkeeps.toExtends fun {p g'} hg' => ?_
  rw [Array.getElem?_push] at hg'
  split at hg'
  · exact .inr (Option.some.inj hg' ▸ hmade)
  · exact .inl hg'

/-- An instance is changed, but not its code. -/
theorem modifyInstance (s : Store H σ) (address : Nat) {f : Instance H → Instance H}
    (hf : ∀ inst, ∃ memory idle closed, f inst = { inst with memory, idle, closed }) :
    s.Upholds place (s.modifyInstance address f) where
  toExtends := ⟨Nat.le_refl _, fun hg => ⟨_, hg, rfl⟩⟩
  made hmade := hmade
  code hat := Store.KeepsCode.modifyInstance s address hf hat

/-- Giving a memory back upholds the globals. -/
theorem release (inst : Instance H) (s : Store H σ) : s.Upholds place (Engine.release inst s) := by
  have hkeeps : s.Keeps 0 (Engine.release inst s) := .release inst s
  refine of_eq hkeeps.toExtends ?_ (Engine.instances_release inst s)
  unfold Engine.release
  split
  · rfl
  · split <;> rfl

/-- Counting upholds the globals. -/
theorem count (s : Store H σ) (config : Config) (f : Counters → Counters) :
    s.Upholds place (s.count config f) := by
  obtain ⟨counters, heq⟩ := s.count_eq config f
  rw [heq]
  exact of_eq ⟨Nat.le_refl _, fun hg => ⟨_, hg, rfl⟩⟩ rfl rfl

end Store.Upholds

/-- Running code upholds what a store has. -/
theorem Instance.allows_upholds (inst : Instance H) (place : Nat) :
    inst.Allows (Store.Upholds (H := H) (σ := σ) place) where
  refl := .refl
  trans _ _ _ := .trans
  touches htouches := by
    have hextends := (Store.lasting_extends.code inst).touches htouches
    cases htouches with
    | global _ _ hset =>
      refine .of_globals hextends fun {p g} hg => ?_
      rw [Array.getElem?_setIfInBounds] at hg
      split at hg
      · split at hg
        · exact .inr (Option.some.inj hg ▸ Global.made_of_set? hset)
        · cases hg
      · exact .inl hg
    | bytes => exact .of_eq hextends rfl rfl
    | grow pages =>
      refine .of_eq hextends ?_ ?_ <;>
      · unfold Store.growMemory
        simp only
        split <;> rfl
    | observe => exact .of_eq hextends rfl rfl

/-- What runs no code upholds what a store has, even closing the instance. -/
theorem Errand.run_upholds {place : Nat} {e : Errand H σ} (hkind : (Action.errand e).MakesGlobals)
    (s : Store H σ) : s.Upholds place (e.run s) := by
  have hextends := Store.lasting_extends.errand e s
  cases e with
  | newAllocator | freeMemory | writeMemory | note => exact .of_eq hextends rfl rfl
  | newMemory limits allocator cap =>
    refine .of_eq hextends ?_ ?_ <;>
    · simp only [run, Store.newMemory]
      split <;> rfl
  | growMemory address pages =>
    exact (Instance.allows_upholds { config := default, memory := some address } place).touches
      (.grow pages rfl)
  | newGlobal g => exact .addGlobal s hkind
  | setGlobal address bits =>
    refine .of_globals hextends fun {p g} hg => ?_
    rw [Array.getElem?_modify] at hg
    split at hg
    · obtain ⟨before, hbefore, rfl⟩ := Option.map_eq_some_iff.mp hg
      cases hset : before.set? bits with
      | none => exact .inl hbefore
      | some g' => exact .inr (Global.made_of_set? hset)
    · exact .inl hg
  | close address =>
    simp only [run, Engine.close]
    split
    · exact .refl s
    · split
      · exact .refl s
      · exact (Store.Upholds.release _ s).trans
          (.modifyInstance _ address fun _ => ⟨none, none, true, rfl⟩)

/-! ## Instantiating -/

section

variable {host : Host H σ} {fuel : Nat} {place : Nat}

/-- Placing an allocator upholds the globals. -/
theorem Engine.placeAllocator_upholds (config : Config) (s : Store H σ) :
    s.Upholds place (placeAllocator config s).2 := by
  refine .of_eq (placeAllocator_keeps config s 0).toExtends ?_ (instances_placeAllocator config s)
  unfold placeAllocator
  split <;> rfl

/-- Building an instance upholds what a store has, if the functions of the embedder do. -/
theorem Link.allows_upholds {nesting : Nat} (resolver : Option (Resolver H σ)) (allocator : Nat)
    (hhost : ∀ call, Moves (Store.Upholds place)
      (host.call (Engine.invoke host fuel nesting) call)) :
    Link.Allows host (Engine.invoke host fuel nesting) fuel resolver allocator
      (fun l l' => l.store.Upholds place l'.store) where
  refl l := .refl l.store
  trans _ _ _ := .trans
  touches {l l'} htouches := by
    have hextends := (htouches.keeps 0).toExtends
    cases htouches with
    | inst => exact .refl _
    | attach => exact .of_eq hextends rfl rfl
    | global type v => exact .addGlobal _ ⟨type, v, rfl⟩
    | segments => exact .of_eq hextends rfl rfl
    | allocate limits =>
      refine .of_eq hextends ?_ ?_ <;>
      · unfold Link.allocateMemory Store.newMemory
        simp only
        cases Memory.new limits allocator l.inst.config.maxMemoryPages
          (l.store.allocators[allocator]?.getD {}) <;> rfl
  start function l := Link.start_moves (l.inst.allows_upholds place) hhost function

/-- An instantiation upholds the globals, if the host's functions do. -/
theorem Engine.instantiate_upholds {nesting : Nat} (m : Module) (resolver : Option (Resolver H σ))
    (config : Config) (s : Store H σ)
    (hhost : ∀ call, Moves (Store.Upholds place) (host.call (invoke host fuel nesting) call)) :
    s.Upholds place (finalState (instantiate host fuel nesting m resolver config s)) := by
  refine instantiate_moves (·.allows_upholds place) placeAllocator_upholds
    (fun allocator => Link.allows_upholds resolver allocator hhost) (fun inst s => ?_)
    Store.Upholds.release m config s
  exact ⟨⟨Nat.le_refl _, fun hg => ⟨_, hg, rfl⟩⟩, fun hmade => hmade,
    fun {kept} hkept => ⟨kept.memory, kept.idle, kept.closed, getElem?_push_of_some hkept⟩⟩

/-- Whatever an embedder does that makes all globals which it adds upholds what a store has. -/
theorem Action.allowed_upholds (host : Host H σ) (fuel place : Nat) :
    Action.Allowed host fuel Action.MakesGlobals (Store.Upholds place) where
  code inst := inst.allows_upholds place
  waits _ _ _ address slot _ _ hst :=
    hst.trans (.modifyInstance _ address fun inst => ⟨inst.memory, slot, inst.closed, rfl⟩)
  errand hkind _ := Errand.run_upholds hkind _
  instantiate _ _ hhost := Engine.instantiate_upholds _ _ _ _ hhost

/-- Functions of an embedder that makes all globals which it adds uphold what a store has. -/
theorem Host.Acts.upholds (hacts : host.Acts fuel Action.MakesGlobals) (place nesting : Nat)
    (c : HostCall H) :
    Moves (Store.Upholds place) (host.call (Engine.invoke host fuel nesting) c) :=
  (hacts.moves (Action.allowed_upholds host fuel place) nesting).1 c

/-- Putting an instance together upholds what a store has. -/
theorem Engine.assemble_upholds (hacts : host.Acts fuel Action.MakesGlobals) {m : Module}
    {resolver : Option (Resolver H σ)} {c : Config} {s : Store H σ} {l : Linking H σ}
    (hassemble : Link.assemble m resolver (placeAllocator c s).1
      ⟨(placeAllocator c s).2, { config := c }⟩ = .ok () l) : s.Upholds place l.store := by
  have hmoves := Link.assemble_moves
    (Link.allows_upholds resolver (placeAllocator c s).1 (hacts.upholds place 0)) m
    ⟨(placeAllocator c s).2, { config := c }⟩
  rw [hassemble] at hmoves
  exact (placeAllocator_upholds c s).trans hmoves

/-- At every moment all is upheld. -/
theorem Store.Passes.upholds {s t : Store H σ} (hacts : host.Acts fuel Action.MakesGlobals)
    (hpasses : s.Passes host fuel Action.MakesGlobals t) : s.Upholds place t :=
  hpasses.moves hacts (Action.allowed_upholds host fuel place) fun _ hassemble =>
    Engine.assemble_upholds hacts hassemble

/-- Beginning an invocation upholds what a store has. -/
theorem Engine.begun_upholds (inst : Instance H) (address : Nat) (s : Store H σ) :
    s.Upholds place (begun inst address s) :=
  (Store.Upholds.count s inst.config Counters.invocation).trans
    (.modifyInstance _ address fun kept => ⟨kept.memory, none, kept.closed, rfl⟩)

end

/-! ## Instances and their modules -/

/-- An instance has the code of a module and globals of the types that its code expects. -/
structure Instance.Carries (inst : Instance H) (m : Module) (s : Store H σ) : Prop where
  implements : inst.Implements m
  globals : ∀ {i type}, (m.scope []).globalType i = some type → ∃ p g,
    inst.globals[i.toNat]? = some p ∧ s.globals[p]? = some g ∧ g.type = type

namespace Instance.Carries

variable {inst : Instance H} {m : Module} {s t : Store H σ}

/-- What an instance carries is carried in a store that extends this one. -/
theorem mono (hcarries : inst.Carries m s) (hextends : s.Extends t) : inst.Carries m t where
  implements := hcarries.implements
  globals htype := by
    obtain ⟨p, g, hplace, hglobal, hg⟩ := hcarries.globals htype
    obtain ⟨g', hglobal', hsame⟩ := hextends.globals hglobal
    exact ⟨p, g', hplace, hglobal', hsame.trans hg⟩

/-- Closing an instance keeps what it carries. -/
theorem closed (hcarries : inst.Carries m s) (memory : Option Nat) (idle : Option UInt64)
    (closed : Bool) : { inst with memory, idle, closed }.Carries m s :=
  ⟨⟨hcarries.implements.types_eq, hcarries.implements.functions_eq, hcarries.implements.imports_eq⟩,
    hcarries.globals⟩

/-- The code of an instance reads only words that the types of its globals admit. -/
theorem soundGlobals (hcarries : inst.Carries m s) (hmade : s.GlobalsMade)
    (locals : List LocalGroup) : SoundGlobals (m.scope locals) inst s := by
  intro i type p g htype hplace hg
  obtain ⟨p', g', hplace', hg', rfl⟩ := hcarries.globals htype
  obtain rfl := Option.some.inj (hplace.symm.trans hplace')
  obtain rfl := Option.some.inj (hg.symm.trans hg')
  exact (hmade hg).admits

end Instance.Carries

/-- An instance that serves a module carries its globals. -/
theorem Instance.Serves.carries {inst : Instance H} {m : Module} {s : Store H σ}
    (hserves : inst.Serves m s) : inst.Carries m s :=
  ⟨hserves.implements, hserves.supports.global⟩

/-- An instance that was put together is ready. -/
theorem Link.assemble_serves {m : Module} {resolver : Option (Resolver H σ)} {allocator : Nat}
    {l : Linking H σ} (hvalid : m.Valid)
    (hgrounded : ∀ r, resolver = some r → r.Grounded l.store.memories.size)
    (hempty : l.inst.imports = #[] ∧ l.inst.globals = #[]) :
    Leads (assemble m resolver allocator) l (fun _ l' => l'.inst.Serves m l'.store)
      fun _ _ => True := by
  refine (bindDefinitions_provides hgrounded hempty).bind fun _ l₁ hl₁ => ?_
  refine (hl₁.declareMemory allocator).bind fun _ l₂ hl₂ => ?_
  refine (declareTable_leads m l₂).bind ?_
  rintro _ _ ⟨htabled, table, rfl⟩
  exact (hl₂.withTable table).placeSegments hvalid htabled

section

variable {host : Host H σ} {fuel nesting : Nat} {m : Module} {resolver : Option (Resolver H σ)}
  {config c : Config} {s₀ s₁ : Store H σ} {place : Nat}

/-- An instance that was put together has its code before the start function is called. -/
theorem Engine.assemble_carries {l : Linking H σ} (hvalid : m.Valid)
    (hgrounded : ∀ r, resolver = some r → r.Grounded s₀.memories.size)
    (hassemble : Link.assemble m resolver (placeAllocator c s₀).1
      ⟨(placeAllocator c s₀).2, { config := c }⟩ = .ok () l) : l.inst.Carries m l.store := by
  have hserves : Leads (Link.assemble m resolver (placeAllocator c s₀).1)
      ⟨(placeAllocator c s₀).2, { config := c }⟩ (fun _ l => l.inst.Serves m l.store)
      fun _ _ => True :=
    Link.assemble_serves hvalid (fun r hr => by simpa using hgrounded r hr) ⟨rfl, rfl⟩
  exact (hserves.of_ok hassemble).carries

/-- An instance that was put together has the configuration that it was begun with, and is open. -/
theorem Engine.assemble_config {l : Linking H σ}
    (hassemble : Link.assemble m resolver (placeAllocator c s₀).1
      ⟨(placeAllocator c s₀).2, { config := c }⟩ = .ok () l) :
    l.inst.config = c ∧ l.inst.closed = false := by
  -- No function of an embedder is called, so any embedder will do.
  let host : Host H σ := { call := fun _ _ s => .ok none s }
  have hkept := Link.assemble_moves (Link.allows_keepsSettings host (invoke host 0 0) 0 resolver
    (placeAllocator c s₀).1) m ⟨(placeAllocator c s₀).2, { config := c }⟩
  rw [hassemble] at hkept
  exact ⟨hkept.config_eq, hkept.closed_eq⟩

/-- The start function leaves an instance as it is but for its waiting machine. -/
theorem Link.runStart_extends {invoker : Invoker H σ} {l l' : Linking H σ} {u : Unit}
    (hhost : ∀ c, Moves Store.Extends (host.call invoker c))
    (hok : runStart host invoker fuel m l = .ok u l') :
    l.store.Extends l'.store ∧ ∃ idle, l'.inst = { l.inst with idle } := by
  unfold runStart at hok
  cases hstart : m.start with
  | none =>
    rw [hstart] at hok
    obtain ⟨-, rfl⟩ := EStateM.Result.ok.inj hok
    exact ⟨.refl _, l.inst.idle, rfl⟩
  | some function =>
    simp only [hstart] at hok
    have hextends : l.store.Extends (finalState (start host invoker fuel function l)).store :=
      start_moves (Store.lasting_extends.code l.inst) hhost function
    rw [hok] at hextends
    unfold start at hok
    simp only at hok
    split at hok
    · obtain ⟨-, rfl⟩ := EStateM.Result.ok.inj hok
      exact ⟨hextends, _, rfl⟩
    all_goals cases hok

/-- The instance that instantiating a module gives was put together with a checked configuration.
Its start function has left it open, and as it was but for its waiting machine. -/
theorem Engine.instantiate_assembles
    (hhost : ∀ call, Moves Store.Extends (host.call (invoke host fuel nesting) call))
    (hok : instantiate host fuel nesting m resolver config s₀ = .ok place s₁) :
    ∃ c l idle, config.check = .ok c ∧ Link.assemble m resolver (placeAllocator c s₀).1
        ⟨(placeAllocator c s₀).2, { config := c }⟩ = .ok () l ∧ l.inst.config = c ∧
      l.inst.closed = false ∧ l.store.Extends s₁ ∧
          s₁.instances[place]? = some { l.inst with idle } := by
  unfold instantiate at hok
  cases hcheck : config.check with
  | error fault => simp [hcheck] at hok
  | ok c =>
    simp only [hcheck] at hok
    cases hresult : Link.build host (invoke host fuel nesting) fuel m resolver
        (placeAllocator c s₀).1 ⟨(placeAllocator c s₀).2, { config := c }⟩ with
    | error e l =>
      simp only [hresult] at hok
      cases e <;> cases hok
    | ok _ l' =>
      simp only [hresult] at hok
      obtain ⟨rfl, rfl⟩ := EStateM.Result.ok.inj hok
      rw [Link.build_eq_assemble, estate_bind_eq_ok] at hresult
      obtain ⟨⟨⟩, l, hassemble, hstart⟩ := hresult
      obtain ⟨hconfig, hopen⟩ := assemble_config hassemble
      obtain ⟨hextends, idle, hinst⟩ := Link.runStart_extends hhost hstart
      have hadded : l'.store.Keeps 0 (l'.store.addInstance l'.inst).2 := .addInstance _ _
      have hcounted := (l'.inst.allows_keeps 0).count (l'.store.addInstance l'.inst).2 c
        (Counters.instantiation "ok")
      refine ⟨c, l, idle, rfl, hassemble, hconfig, hopen,
        hextends.trans (hadded.trans hcounted).toExtends, ?_⟩
      obtain ⟨counters, heq⟩ :=
        (l'.store.addInstance l'.inst).2.count_eq c (Counters.instantiation "ok")
      rw [heq, ← hinst]
      simp [Store.addInstance]

/-- The instance that instantiating a module gives has its code and a checked configuration. -/
theorem Engine.instantiate_carries (hvalid : m.Valid)
    (hgrounded : ∀ r, resolver = some r → r.Grounded s₀.memories.size)
    (hhost : ∀ call, Moves Store.Extends (host.call (invoke host fuel nesting) call))
    (hok : instantiate host fuel nesting m resolver config s₀ = .ok place s₁) :
    ∃ inst, s₁.instances[place]? = some inst ∧ config.check = .ok inst.config ∧
    inst.Carries m s₁ := by
  obtain ⟨c, l, idle, hcheck, hassemble, rfl, -, hextends, hat⟩ := instantiate_assembles hhost hok
  have hcarries := (assemble_carries hvalid hgrounded hassemble).mono hextends
  exact ⟨_, hat, hcheck, hcarries.closed l.inst.memory idle l.inst.closed⟩

end

end IntWasm
