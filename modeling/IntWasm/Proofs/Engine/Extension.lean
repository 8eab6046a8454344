import IntWasm.Proofs.Engine.Linking

/-!
# What stays in a store

Memories and globals stay at their places, whatever an embedder does, and globals keep their types.
So does an instance, of which only the waiting machine changes as long as nobody closes it, and
never the code. The code of an instance therefore finds all that it relies on, once that is there.
Main statements: `Action.allowed_keeps`, `Store.Lasting.allowed` and `Structured.Supports.mono`.
-/

namespace IntWasm

variable {H σ : Type}

/-- A store that still has every memory and every global of another one; the globals have the same
types. -/
structure Store.Extends (s s' : Store H σ) : Prop where
  memories_le : s.memories.size ≤ s'.memories.size
  globals : ∀ {p : Nat} {g : Global}, s.globals[p]? = some g →
    ∃ g', s'.globals[p]? = some g' ∧ g'.type = g.type

/-- A store that extends another one and still has the instance at a place, but for its waiting
machine. None waits if the instance had none and could not make one. -/
structure Store.Keeps (place : Nat) (s s' : Store H σ) : Prop extends s.Extends s' where
  instances : ∀ {inst : Instance H}, s.instances[place]? = some inst →
    ∃ idle : Option UInt64, s'.instances[place]? = some { inst with idle } ∧
      (idle.isSome → inst.HasMachine)

/-- Writing a global keeps its type. -/
theorem Global.type_of_set? {g g' : Global} {bits : UInt64} (hset : g.set? bits = some g') :
    g'.type = g.type := by
  unfold set? at hset
  split at hset
  · cases hset
    rfl
  · cases hset

/-- Pushing an entry leaves the entries that are there. -/
theorem getElem?_push_of_some {α : Type} {entries : Array α} {a b : α} {i : Nat}
    (ha : entries[i]? = some a) : (entries.push b)[i]? = some a := by
  rw [Array.getElem?_push, if_neg (Nat.ne_of_lt (Array.getElem?_eq_some_iff.1 ha).1), ha]

namespace Store.Keeps

variable {place : Nat} {s t u : Store H σ}

/-- Nothing but memories has changed, and none has gone. -/
theorem of_eq (hmemories : s.memories.size ≤ t.memories.size) (hglobals : t.globals = s.globals)
    (hinstances : t.instances = s.instances) : s.Keeps place t :=
  ⟨⟨hmemories, fun {_ g} hg => ⟨g, by rw [hglobals, hg], rfl⟩⟩,
    fun {inst} hinst => ⟨inst.idle, by rw [hinstances, hinst], .inl⟩⟩

/-- A store keeps its own instances. -/
theorem refl (s : Store H σ) : s.Keeps place s := of_eq (Nat.le_refl _) rfl rfl

/-- What is kept twice is kept. -/
theorem trans (hst : s.Keeps place t) (htu : t.Keeps place u) : s.Keeps place u := by
  refine ⟨⟨Nat.le_trans hst.memories_le htu.memories_le, fun hg => ?_⟩, fun hinst => ?_⟩
  · obtain ⟨g', hg', hsame⟩ := hst.globals hg
    obtain ⟨g'', hg'', hsame'⟩ := htu.globals hg'
    exact ⟨g'', hg'', hsame'.trans hsame⟩
  · obtain ⟨idle, ht, hmachine⟩ := hst.instances hinst
    obtain ⟨idle', hu, hmachine'⟩ := htu.instances ht
    exact ⟨idle', hu, fun hwaits => (hmachine' hwaits).elim hmachine .inr⟩

/-- Globals may take other values. -/
theorem of_globals {globals : Array Global}
    (hglobals : ∀ {p : Nat} {g : Global}, s.globals[p]? = some g →
      ∃ g', globals[p]? = some g' ∧ g'.type = g.type) : s.Keeps place { s with globals } :=
  ⟨⟨Nat.le_refl _, hglobals⟩, fun {inst} hinst => ⟨inst.idle, hinst, .inl⟩⟩

/-- Changing a memory keeps the instances. -/
theorem modifyMemory (s : Store H σ) (address : Nat) (f : Memory → Memory) :
    s.Keeps place (s.modifyMemory address f) :=
  of_eq (by simp [Store.modifyMemory]) rfl rfl

/-- Growing a memory keeps the instances. -/
theorem growMemory (s : Store H σ) (address : Nat) (pages : UInt32) :
    s.Keeps place (finalState (Store.growMemory address pages s)) := by
  unfold Store.growMemory
  simp only
  split
  · exact of_eq (by simp [finalState]) rfl rfl
  · exact of_eq (Nat.le_refl _) rfl rfl

/-- Freeing a memory keeps the instances. -/
theorem freeMemory (s : Store H σ) (address : Nat) : s.Keeps place (s.freeMemory address) :=
  of_eq (by simp [Store.freeMemory]) rfl rfl

/-- Making a memory keeps the instances. -/
theorem newMemory (s : Store H σ) (limits : Limits) (allocator : Nat) (cap : UInt32) :
    s.Keeps place (finalState (Store.newMemory limits allocator cap s)) := by
  unfold Store.newMemory
  split
  · exact of_eq (by simp [Store.addMemory, finalState]) rfl rfl
  · exact of_eq (Nat.le_refl _) rfl rfl

/-- Adding a global keeps those that are there. -/
theorem addGlobal (s : Store H σ) (g : Global) : s.Keeps place (s.addGlobal g).2 :=
  of_globals fun hg => ⟨_, getElem?_push_of_some hg, rfl⟩

/-- Adding an instance keeps those that are there. -/
theorem addInstance (s : Store H σ) (inst : Instance H) : s.Keeps place (s.addInstance inst).2 :=
  ⟨⟨Nat.le_refl _, fun hg => ⟨_, hg, rfl⟩⟩,
    fun {kept} hkept => ⟨kept.idle, getElem?_push_of_some hkept, .inl⟩⟩

/-- The machine of an instance is taken, or one is put back that the instance had or could make. -/
theorem waits : Store.Waits (Store.Keeps (H := H) (σ := σ) place) := by
  intro inst s t address slot hat hmachine hst
  refine ⟨⟨hst.memories_le, hst.globals⟩, fun {kept} hkept => ?_⟩
  obtain ⟨idle, ht, hwaits⟩ := hst.instances hkept
  simp only [Store.modifyInstance, Array.getElem?_modify]
  split
  · rename_i heq
    subst heq
    obtain rfl := Option.some.inj (hat.symm.trans hkept)
    exact ⟨slot, by rw [ht]; rfl, hmachine⟩
  · exact ⟨idle, ht, hwaits⟩

/-- Changing another instance. -/
theorem modifyInstance_of_ne (s : Store H σ) {address : Nat} (hne : address ≠ place)
    (f : Instance H → Instance H) : s.Keeps place (s.modifyInstance address f) := by
  refine ⟨⟨Nat.le_refl _, fun hg => ⟨_, hg, rfl⟩⟩, fun {inst} hinst => ⟨inst.idle, ?_, .inl⟩⟩
  simp only [Store.modifyInstance, Array.getElem?_modify, if_neg hne, hinst]

/-- Giving a memory back keeps the instances. -/
theorem release (inst : Instance H) (s : Store H σ) : s.Keeps place (Engine.release inst s) := by
  unfold Engine.release
  split
  · exact refl s
  · split
    · exact freeMemory s _
    · exact modifyMemory s _ _

end Store.Keeps

/-- Running code keeps what a store has. -/
theorem Instance.allows_keeps (inst : Instance H) (place : Nat) :
    inst.Allows (Store.Keeps (H := H) (σ := σ) place) where
  refl := .refl
  trans _ _ _ := .trans
  touches htouches := by
    cases htouches with
    | @global _ _ g g' _ _ hglobal hset =>
      refine .of_globals fun {p h} hh => ?_
      rw [Array.getElem?_setIfInBounds]
      split
      · rename_i heq
        subst heq
        obtain rfl := Option.some.inj (hglobal.symm.trans hh)
        exact ⟨g', by rw [if_pos (Array.getElem?_eq_some_iff.1 hh).1], Global.type_of_set? hset⟩
      · exact ⟨h, hh, rfl⟩
    | bytes => exact .modifyMemory _ _ _
    | grow pages => exact .growMemory _ _ pages
    | observe => exact .of_eq (Nat.le_refl _) rfl rfl

/-- Closing another instance keeps an instance, and so does all else that runs no code. -/
theorem Errand.run_keeps {place : Nat} {e : Errand H σ} (hkept : e ≠ .close place) (s : Store H σ) :
    s.Keeps place (e.run s) := by
  cases e with
  | newAllocator a => exact .of_eq (Nat.le_refl _) rfl rfl
  | newMemory limits allocator cap => exact .newMemory s limits allocator cap
  | growMemory address pages => exact .growMemory s address pages
  | freeMemory address => exact .freeMemory s address
  | writeMemory address offset bytes => exact .modifyMemory s address _
  | newGlobal g => exact .addGlobal s g
  | setGlobal address bits =>
    refine .of_globals fun {p g} hg => ?_
    rw [Array.getElem?_modify]
    split
    · refine ⟨(g.set? bits).getD g, by rw [hg]; rfl, ?_⟩
      cases hset : g.set? bits with
      | none => rfl
      | some g' => exact Global.type_of_set? hset
    · exact ⟨g, hg, rfl⟩
  | close address =>
    have hne : address ≠ place := fun heq => hkept (heq ▸ rfl)
    simp only [Errand.run, Engine.close]
    split
    · exact .refl s
    · split
      · exact .refl s
      · exact (Store.Keeps.release _ s).trans (.modifyInstance_of_ne _ hne _)
  | note traces counters host => exact .of_eq (Nat.le_refl _) rfl rfl

/-- Changing the waiting machine of one instance changes no more of any. -/
theorem Store.exists_idle {s : Store H σ} {i : Nat} {inst : Instance H}
    (hat : s.instances[i]? = some inst) (address : Nat) (slot : Option UInt64) :
    ∃ idle, (s.modifyInstance address ({ · with idle := slot })).instances[i]? =
      some { inst with idle } := by
  simp only [Store.modifyInstance, Array.getElem?_modify]
  split
  · exact ⟨slot, by rw [hat]; rfl⟩
  · exact ⟨inst.idle, hat⟩

/-! ## Instantiating -/

/-- Linking keeps every instance of the store. -/
theorem Linking.Touches.keeps {resolver : Option (Resolver H σ)} {allocator : Nat}
    {l l' : Linking H σ} (htouches : l.Touches resolver allocator l') (place : Nat) :
    l.store.Keeps place l'.store := by
  cases htouches with
  | inst => exact .refl _
  | attach => exact .modifyMemory _ _ _
  | global type v => exact .addGlobal _ _
  | allocate limits =>
    rw [Link.store_allocateMemory]
    exact .newMemory l.store limits allocator l.inst.config.maxMemoryPages
  | segments => exact .modifyMemory _ _ _

/-- Placing an allocator keeps the instances. -/
theorem Engine.placeAllocator_keeps (config : Config) (s : Store H σ) (place : Nat) :
    s.Keeps place (placeAllocator config s).2 := by
  unfold placeAllocator
  split <;> exact .of_eq (Nat.le_refl _) rfl rfl

section

variable {host : Host H σ} {fuel : Nat}

/-- Building an instance keeps what a store has, if the functions of the embedder do. -/
theorem Link.allows_keeps {nesting place : Nat} (resolver : Option (Resolver H σ)) (allocator : Nat)
    (hhost : ∀ call, Moves (Store.Keeps place) (host.call (Engine.invoke host fuel nesting) call)) :
    Link.Allows host (Engine.invoke host fuel nesting) fuel resolver allocator
      (fun l l' => l.store.Keeps place l'.store) where
  refl l := .refl l.store
  trans _ _ _ := .trans
  touches htouches := htouches.keeps place
  start function l := Link.start_moves (l.inst.allows_keeps place) hhost function

/-- Instantiating goes along every relation between stores that running code and the steps of
building an instance keep to, and so do adding an instance and releasing what it owns. -/
theorem Engine.instantiate_moves {nesting : Nat} {R : Store H σ → Store H σ → Prop}
    (hcode : ∀ inst : Instance H, inst.Allows R) (hplaced : ∀ c s, R s (placeAllocator c s).2)
    {resolver : Option (Resolver H σ)}
    (hallows : ∀ allocator, Link.Allows host (invoke host fuel nesting) fuel resolver allocator
      fun l l' => R l.store l'.store)
    (hadded : ∀ inst s, R s (s.addInstance inst).2) (hreleased : ∀ inst s, R s (release inst s))
    (m : Module) (config : Config) (s : Store H σ) :
    R s (finalState (instantiate host fuel nesting m resolver config s)) := by
  have htrans := (hcode { config }).trans
  unfold instantiate
  cases hcheck : config.check with
  | error fault => exact (hcode { config }).refl s
  | ok c =>
    have hbuild := Link.build_moves (hallows (placeAllocator c s).1) m
      ⟨(placeAllocator c s).2, { config := c }⟩
    have hcount (t : Store H σ) (f : Counters → Counters) : R t (t.count c f) :=
      (hcode { config := c }).count t c f
    simp only
    cases hresult : Link.build host (invoke host fuel nesting) fuel m resolver
        (placeAllocator c s).1 ⟨(placeAllocator c s).2, { config := c }⟩ with
    | ok _ l =>
      rw [hresult] at hbuild
      exact htrans (hplaced c s) (htrans hbuild (htrans (hadded l.inst l.store) (hcount _ _)))
    | error e l =>
      rw [hresult] at hbuild
      have hbuilt := htrans (hplaced c s) hbuild
      cases e with
      | crashed crash => exact hbuilt
      | _ => exact htrans hbuilt (htrans (hreleased l.inst l.store) (hcount _ _))

/-- An instantiation keeps every instance, if the host's functions do. -/
theorem Engine.instantiate_keeps {nesting place : Nat} (m : Module)
    (resolver : Option (Resolver H σ)) (config : Config) (s : Store H σ)
    (hhost : ∀ call, Moves (Store.Keeps place) (host.call (invoke host fuel nesting) call)) :
    s.Keeps place (finalState (instantiate host fuel nesting m resolver config s)) :=
  instantiate_moves (·.allows_keeps place) (placeAllocator_keeps · · place)
    (fun allocator => Link.allows_keeps resolver allocator hhost)
    (fun inst s => .addInstance s inst)
    Store.Keeps.release m config s

/-- Whatever an embedder does but close an instance keeps it, and all memories and globals. -/
theorem Action.allowed_keeps (host : Host H σ) (fuel place : Nat) :
    Action.Allowed host fuel (· ≠ .errand (.close place)) (Store.Keeps place) where
  code inst := inst.allows_keeps place
  waits := .waits
  errand hkept _ := Errand.run_keeps (fun heq => hkept (heq ▸ rfl)) _
  instantiate _ _ hhost := Engine.instantiate_keeps _ _ _ _ hhost

end

/-! ## Closing -/

/-- A relation between stores that holds across whatever keeps the instance at a place, across
closing that instance and across changing the machine that waits for one. -/
structure Store.Lasting (place : Nat) (R : Store H σ → Store H σ → Prop) : Prop where
  keeps : ∀ {s t}, s.Keeps place t → R s t
  idle : ∀ s address slot, R s (s.modifyInstance address ({ · with idle := slot }))
  close : ∀ s, R s ((Errand.close place).run s)
  trans : ∀ {s t u}, R s t → R t u → R s u

namespace Store.Lasting

variable {host : Host H σ} {fuel place : Nat} {R : Store H σ → Store H σ → Prop}
  (hlasting : Store.Lasting place R)

include hlasting

/-- What code does lasts. -/
theorem code (inst : Instance H) : inst.Allows R where
  refl s := hlasting.keeps (.refl s)
  trans _ _ _ := hlasting.trans
  touches htouches := hlasting.keeps ((inst.allows_keeps place).touches htouches)

/-- What an embedder does between calls lasts. -/
theorem errand (e : Errand H σ) (s : Store H σ) : R s (e.run s) := by
  by_cases hclose : e = .close place
  · exact hclose ▸ hlasting.close s
  · exact hlasting.keeps (Errand.run_keeps hclose s)

/-- What linking does lasts, if the host's functions last. -/
theorem building {nesting : Nat} (resolver : Option (Resolver H σ)) (allocator : Nat)
    (hhost : ∀ call, Moves R (host.call (Engine.invoke host fuel nesting) call)) :
    Link.Allows host (Engine.invoke host fuel nesting) fuel resolver allocator
      (fun l l' => R l.store l'.store) where
  refl l := hlasting.keeps (.refl l.store)
  trans _ _ _ := hlasting.trans
  touches htouches := hlasting.keeps (htouches.keeps place)
  start function l := Link.start_moves (hlasting.code l.inst) hhost function

/-- Whatever an embedder does goes along a lasting relation. -/
theorem allowed (host : Host H σ) (fuel : Nat) : Action.Allowed host fuel (fun _ => True) R where
  code := hlasting.code
  waits _ _ t address slot _ _ hst := hlasting.trans hst (hlasting.idle t address slot)
  errand _ _ := hlasting.errand _ _
  instantiate _ _ hhost := Engine.instantiate_moves hlasting.code
    (fun c s => hlasting.keeps (Engine.placeAllocator_keeps c s place))
    (fun allocator => hlasting.building _ allocator hhost)
    (fun inst s => hlasting.keeps (.addInstance s inst))
    (fun inst s => hlasting.keeps (.release inst s)) _ _ _

end Store.Lasting

/-! ## Code -/

/-- A store that still has the code of the instance at a place. -/
def Store.KeepsCode (place : Nat) (s t : Store H σ) : Prop :=
  ∀ ⦃inst : Instance H⦄, s.instances[place]? = some inst →
    ∃ memory idle closed, t.instances[place]? = some { inst with memory, idle, closed }

/-- An instance that is kept keeps its code. -/
theorem Store.Keeps.keepsCode {place : Nat} {s t : Store H σ} (hkeeps : s.Keeps place t) :
    s.KeepsCode place t := fun inst hat => by
  obtain ⟨idle, ht, -⟩ := hkeeps.instances hat
  exact ⟨inst.memory, idle, inst.closed, ht⟩

namespace Store.KeepsCode

variable {place : Nat} {s t u : Store H σ}

/-- A store keeps its own code. -/
theorem refl (s : Store H σ) : s.KeepsCode place s := (Store.Keeps.refl s).keepsCode

/-- Code that is kept twice is kept. -/
theorem trans (hst : s.KeepsCode place t) (htu : t.KeepsCode place u) : s.KeepsCode place u :=
  fun _ hat => by
  obtain ⟨memory, idle, closed, ht⟩ := hst hat
  obtain ⟨memory', idle', closed', hu⟩ := htu ht
  exact ⟨memory', idle', closed', hu⟩

/-- An instance is changed, but not its code. -/
theorem modifyInstance (s : Store H σ) (address : Nat) {f : Instance H → Instance H}
    (hf : ∀ inst, ∃ memory idle closed, f inst = { inst with memory, idle, closed }) :
    s.KeepsCode place (s.modifyInstance address f) := fun inst hat => by
  simp only [Store.modifyInstance, Array.getElem?_modify]
  split
  · obtain ⟨memory, idle, closed, heq⟩ := hf inst
    exact ⟨memory, idle, closed, by rw [hat, Option.map_some, heq]⟩
  · exact ⟨inst.memory, inst.idle, inst.closed, hat⟩

end Store.KeepsCode

/-- Even closing an instance leaves its code, and so does all else. -/
theorem Store.lasting_keepsCode (place : Nat) :
    Store.Lasting place (Store.KeepsCode (H := H) (σ := σ) place) where
  keeps := Store.Keeps.keepsCode
  idle s address slot := .modifyInstance s address fun inst => ⟨inst.memory, slot, inst.closed, rfl⟩
  close s := by
    simp only [Errand.run, Engine.close]
    split
    · exact .refl s
    · split
      · exact .refl s
      · exact (Store.Keeps.release _ s).keepsCode.trans
          (.modifyInstance _ place fun _ => ⟨none, none, true, rfl⟩)
  trans := .trans

/-! ## What code relies on -/

namespace Structured

/-- Code that finds what it relies on in a store finds it in every store that extends it. -/
theorem Supports.mono {m : Module} {inst : Instance H} {s s' : Store H σ}
    (hsupports : Supports m inst s) (hextends : s.Extends s') : Supports m inst s' where
  global htype := by
    obtain ⟨p, g, hplace, hglobal, hg⟩ := hsupports.global htype
    obtain ⟨g', hglobal', hsame⟩ := hextends.globals hglobal
    exact ⟨p, g', hplace, hglobal', hsame.trans hg⟩
  memory hmemory := by
    obtain ⟨p, memory, hplace, hat⟩ := hsupports.memory hmemory
    have hlt := Nat.lt_of_lt_of_le (Array.getElem?_eq_some_iff.1 hat).1 hextends.memories_le
    exact ⟨p, _, hplace, Array.getElem?_eq_getElem hlt⟩
  table := hsupports.table

end Structured

end IntWasm
