import IntWasm.Proofs.Engine.Accounts
import IntWasm.Proofs.Module.Functions

/-!
# Instantiations that fail

What an instance has taken before its instantiation fails is an imported memory or a memory of its
own, never both, and giving that back restores the memories of the store but for what a start
function has written or made grow. The stages before the start function write nothing. Main
statement: `instantiate_atomic`.
-/

namespace IntWasm

variable {H σ : Type}

/-! ## Memories but for their bytes -/

/-- A memory without its bytes. -/
def Memory.husk (m : Memory) : Memory := { m with bytes := .empty }

/-- Memories with the same husk differ in their bytes only. -/
theorem Memory.eq_of_husk_eq {m m' : Memory} (hhusk : m'.husk = m.husk) :
    m' = { m with bytes := m'.bytes } := by
  cases m
  cases m'
  simp_all [husk]

/-- Two stores with the same memories but for their bytes, and with as many instances: no memory was
made, attached or let go of. -/
structure Store.Spares (s t : Store H σ) : Prop where
  husks : ∀ p : Nat, t.memories[p]?.map Memory.husk = s.memories[p]?.map Memory.husk
  instances_size : t.instances.size = s.instances.size

/-- Two stores whose memories have the same sizes. -/
def Store.SameSizes (s t : Store H σ) : Prop :=
  ∀ p : Nat, t.memories[p]?.map Memory.size = s.memories[p]?.map Memory.size

/-- Two stores whose memories have the same sizes but for the memory of an instance. -/
def Store.SameSizesBut (memory : Option Nat) (s t : Store H σ) : Prop :=
  ∀ p : Nat, memory ≠ some p → t.memories[p]?.map Memory.size = s.memories[p]?.map Memory.size

namespace Store

variable {s t u : Store H σ}

/-- A store spares itself. -/
theorem Spares.refl (s : Store H σ) : s.Spares s := ⟨fun _ => rfl, rfl⟩

/-- What is spared twice is spared. -/
theorem Spares.trans (hst : s.Spares t) (htu : t.Spares u) : s.Spares u :=
  ⟨fun p => (htu.husks p).trans (hst.husks p), htu.instances_size.trans hst.instances_size⟩

/-- A memory is replaced by one that differs in its bytes. -/
theorem husks_modify {memories : Array Memory} {address : Nat} {f : Memory → Memory}
    (hhusk : ∀ m, (f m).husk = m.husk) (p : Nat) :
    (memories.modify address f)[p]?.map Memory.husk = memories[p]?.map Memory.husk := by
  rw [Array.getElem?_modify]
  split
  · rw [Option.map_map]
    exact congrArg (Option.map · _) (funext hhusk)
  · rfl

/-- A change of one memory's bytes keeps the husks of all. -/
theorem husks_modifyMemory (s : Store H σ) (address : Nat) {f : Memory → Memory}
    (hhusk : ∀ m, (f m).husk = m.husk) (p : Nat) :
    (s.modifyMemory address f).memories[p]?.map Memory.husk = s.memories[p]?.map Memory.husk :=
  husks_modify hhusk p

/-- Letting a memory grow replaces its bytes. -/
theorem memories_growMemory (s : Store H σ) (address : Nat) (pages : UInt32) :
    ∃ f : Memory → Memory, (∀ m, (f m).husk = m.husk) ∧
      (finalState (growMemory address pages s)).memories = s.memories.modify address f := by
  unfold growMemory
  simp only
  split
  · rename_i m' _ hresult
    refine ⟨fun m => { m with bytes := m'.bytes }, fun _ => rfl, ?_⟩
    rw [modify_eq_setIfInBounds, ← Memory.eq_of_grow hresult]
    rfl
  · refine ⟨id, fun _ => rfl, ?_⟩
    rw [modify_eq_setIfInBounds]
    refine (setIfInBounds_self fun m (hm : s.memories[address]? = some m) => ?_).symm
    rw [hm]
    rfl

/-- A memory that grows keeps its husk. -/
theorem Spares.growMemory (s : Store H σ) (address : Nat) (pages : UInt32) :
    s.Spares (finalState (Store.growMemory address pages s)) := by
  obtain ⟨f, hhusk, hmemories⟩ := memories_growMemory s address pages
  refine ⟨fun p => ?_, ?_⟩
  · rw [hmemories]
    exact husks_modify hhusk p
  · unfold Store.growMemory
    simp only
    split <;> rfl

end Store

/-- Running code makes, attaches and lets go of no memory. -/
theorem Instance.allows_spares (inst : Instance H) :
    inst.Allows (Store.Spares (H := H) (σ := σ)) where
  refl := .refl
  trans _ _ _ := .trans
  touches htouches := by
    cases htouches with
    | global => exact ⟨fun _ => rfl, rfl⟩
    | bytes start w width =>
      exact ⟨Store.husks_modifyMemory _ _ fun _ => rfl, rfl⟩
    | grow pages => exact .growMemory _ _ pages
    | observe => exact ⟨fun _ => rfl, rfl⟩

/-- Running code lets no memory grow but that of its instance. -/
theorem Instance.allows_sameSizesBut (inst : Instance H) :
    inst.Allows (Store.SameSizesBut (H := H) (σ := σ) inst.memory) where
  refl _ _ _ := rfl
  trans _ _ _ hst htu p hp := (htu p hp).trans (hst p hp)
  touches htouches := by
    intro p hp
    cases htouches with
    | global => rfl
    | bytes start w width hplace =>
      rw [Store.modifyMemory, Array.getElem?_modify, if_neg]
      rintro rfl
      exact hp hplace
    | grow pages hplace =>
      obtain ⟨f, -, hmemories⟩ := Store.memories_growMemory _ _ pages
      rw [hmemories, Array.getElem?_modify, if_neg]
      rintro rfl
      exact hp hplace
    | observe => rfl

/-! ## What an instance has taken -/

/-- A resolver answers the memory import of a module with the memory at a place. -/
def Module.Supplies (m : Module) (resolver : Option (Resolver H σ)) (s : Store H σ)
    (p : Nat) : Prop :=
  ∃ r i limits, resolver = some r ∧ i ∈ m.importList ∧ i.type = .memory limits ∧
    r.memory s i.moduleName i.field limits = .ok p

/-- What linking imports takes: the imported memory is attached, and nothing else changes. -/
inductive Linking.Imports (m : Module) (resolver : Option (Resolver H σ)) (s : Store H σ) :
    Linking H σ → Prop
  | nothing {inst : Instance H} (hmemory : inst.memory = none) (howns : inst.ownsMemory = false) :
    Imports m resolver s ⟨s, inst⟩
  | memory {inst : Instance H} {p : Nat} (hsupplied : m.Supplies resolver s p)
      (hfree : (s.memories[p]?.getD default).attached = false) (hmemory : inst.memory = some p)
      (howns : inst.ownsMemory = false) :
    Imports m resolver s ⟨s.modifyMemory p ({ · with attached := true }), inst⟩

/-- There is room for a number of memories. -/
def Linking.Room (l : Linking H σ) (n : Nat) : Prop := l.inst.memory.toList.length + n ≤ 1

namespace Linking.Imports

variable {m : Module} {resolver : Option (Resolver H σ)} {s : Store H σ} {l : Linking H σ}

/-- A change of the instance leaves its memory. -/
theorem modifyInstance (himports : l.Imports m resolver s) {inst : Instance H}
    (hmemory : inst.memory = l.inst.memory) (howns : inst.ownsMemory = l.inst.ownsMemory) :
    Imports m resolver s { l with inst } := by
  cases himports with
  | nothing hnone hborrowed => exact .nothing (hmemory.trans hnone) (howns.trans hborrowed)
  | memory hsupplied hfree hsome hborrowed =>
    exact .memory hsupplied hfree (hmemory.trans hsome) (howns.trans hborrowed)

/-- One more import is bound, of a memory at most while there is room for one. -/
theorem importEntry (himports : l.Imports m resolver s) {i : Import} (hi : i ∈ m.importList)
    {n : Nat} (hroom : l.Room ((Module.memoryImport? i).toList.length + n)) :
    Leads (Link.importEntry resolver i) l (fun _ l' => l'.Imports m resolver s ∧ l'.Room n)
      fun _ l' => l'.Imports m resolver s := by
  have hroom' : l.Room n := by
    unfold Linking.Room at hroom ⊢
    omega
  refine (Link.importEntry_leads resolver i l).weaken (fun _ l' hbinds => ?_) fun _ l' hl' =>
    hl' ▸ himports
  cases hbinds with
  | function => exact ⟨himports.modifyInstance rfl rfl, hroom'⟩
  | @memory r limits p htype hresolver hfound _ hfree =>
    -- The memory is the first one, so that nothing has changed before.
    have hfew : l.inst.memory.toList.length + (1 + n) ≤ 1 := by
      simpa only [Linking.Room, Module.memoryImport?, htype, Option.toList, List.length_singleton]
        using hroom
    cases himports with
    | nothing hmemory howns =>
      refine ⟨.memory ⟨r, i, limits, hresolver, hi, htype, hfound⟩ hfree rfl howns, ?_⟩
      simp only [Linking.Room, Option.toList, List.length_singleton]
      omega
    | memory _ _ hmemory _ =>
      simp only [hmemory, Option.toList, List.length_singleton] at hfew
      omega
  | global => exact ⟨himports.modifyInstance rfl rfl, hroom'⟩

/-- Linking all imports takes one memory at most. -/
theorem forEach {entries : List Import} (himports : l.Imports m resolver s)
    (hentries : ∀ i ∈ entries, i ∈ m.importList) (k : Nat) {n : Nat}
    (hroom : l.Room ((entries.filterMap Module.memoryImport?).length + n)) :
    Leads (Link.forEachFrom (fun _ i => Link.importEntry resolver i) k entries) l
      (fun _ l' => l'.Imports m resolver s ∧ l'.Room n) fun _ l' => l'.Imports m resolver s := by
  induction entries generalizing l k with
  | nil => exact ⟨himports, by simpa using hroom⟩
  | cons i entries ih =>
    have hcount : ((i :: entries).filterMap Module.memoryImport?).length =
        (Module.memoryImport? i).toList.length +
          (entries.filterMap Module.memoryImport?).length := by
      rw [List.filterMap_cons]
      cases Module.memoryImport? i <;> simp [Nat.add_comm]
    rw [hcount, Nat.add_assoc] at hroom
    refine (himports.importEntry (hentries i (by simp)) hroom).bind fun _ l' hl' => ?_
    exact ih hl'.1 (fun j hj => hentries j (by simp [hj])) _ hl'.2

end Linking.Imports

/-- What an instance has taken: nothing, the memory of an import or a memory of its own. -/
inductive Linking.Takes (m : Module) (resolver : Option (Resolver H σ)) (s : Store H σ)
    (l : Linking H σ) : Prop
  | nothing (hmemory : l.inst.memory = none) (hsame : l.store.memories = s.memories)
  | imported {p : Nat} (hsupplied : m.Supplies resolver s p)
      (hfree : (s.memories[p]?.getD default).attached = false) (hmemory : l.inst.memory = some p)
      (howns : l.inst.ownsMemory = false)
      (hsame : l.store.memories = s.memories.modify p ({ · with attached := true }))
  | own {memory : Memory} (hmemory : l.inst.memory = some s.memories.size)
      (howns : l.inst.ownsMemory = true) (hsame : l.store.memories = s.memories.push memory)

/-- Building has written to no memory and to no global so far. -/
structure Linking.Early (m : Module) (resolver : Option (Resolver H σ)) (s : Store H σ)
    (l : Linking H σ) : Prop where
  instances_eq : l.store.instances = s.instances
  globals_eq : ∀ g < s.globals.size, l.store.globals[g]? = s.globals[g]?
  takes : l.Takes m resolver s

namespace Linking.Early

variable {m : Module} {resolver : Option (Resolver H σ)} {s : Store H σ} {l l' : Linking H σ}

/-- With its imports bound, an instance is in an early stage. -/
theorem of_imports (himports : l.Imports m resolver s) : l.Early m resolver s := by
  cases himports with
  | nothing hmemory howns => exact ⟨rfl, fun _ _ => rfl, .nothing hmemory rfl⟩
  | memory hsupplied hfree hmemory howns =>
    exact ⟨rfl, fun _ _ => rfl, .imported hsupplied hfree hmemory howns rfl⟩

/-- Steps that leave the memory alone. -/
theorem of_same (hearly : l.Early m resolver s) (hmemory : l'.inst.memory = l.inst.memory)
    (howns : l'.inst.ownsMemory = l.inst.ownsMemory)
    (hmemories : l'.store.memories = l.store.memories)
    (hinstances : l'.store.instances = l.store.instances)
    (hglobals : ∀ g < s.globals.size, l'.store.globals[g]? = l.store.globals[g]?) :
    l'.Early m resolver s := by
  refine ⟨hinstances.trans hearly.instances_eq,
    fun g hg => (hglobals g hg).trans (hearly.globals_eq g hg), ?_⟩
  cases hearly.takes with
  | nothing hnone hsame => exact .nothing (hmemory.trans hnone) (hmemories.trans hsame)
  | imported hsupplied hfree hsome hborrowed hsame =>
    exact .imported hsupplied hfree (hmemory.trans hsome) (howns.trans hborrowed)
      (hmemories.trans hsame)
  | own hsome howned hsame =>
    exact .own (hmemory.trans hsome) (howns.trans howned) (hmemories.trans hsame)

/-- No globals are taken away. -/
theorem size_globals_le (hearly : l.Early m resolver s) :
    s.globals.size ≤ l.store.globals.size := by
  by_contra hlt
  have hlast := hearly.globals_eq l.store.globals.size (by omega)
  rw [Array.getElem?_eq_none (Nat.le_refl _), Array.getElem?_eq_getElem (by omega)] at hlast
  cases hlast

/-- The globals of the module are added one after another. -/
theorem defineGlobals (hearly : l.Early m resolver s) {n : Nat} (hroom : l.Room n)
    (imported : List Value) (k : Nat) (globals : List GlobalDef) :
    Leads (Link.forEachFrom (Link.defineGlobal imported) k globals) l
      (fun _ l' => l'.Early m resolver s ∧ l'.Room n) fun _ l' => l'.Early m resolver s := by
  induction globals generalizing l k with
  | nil => exact ⟨hearly, hroom⟩
  | cons g globals ih =>
    have hfirst : Leads (Link.defineGlobal imported k g) l
        (fun _ l' => l'.Early m resolver s ∧ l'.Room n) fun _ l' => l'.Early m resolver s := by
      refine (Link.defineGlobal_leads imported k g l).weaken ?_ fun _ l' hl' => hl' ▸ hearly
      rintro _ _ ⟨v, -, rfl⟩
      refine ⟨hearly.of_same rfl rfl rfl rfl fun g hg => ?_, hroom⟩
      simp only [Store.addGlobal]
      exact Array.getElem?_push_lt (hg.trans_le hearly.size_globals_le) ▸
        (Array.getElem?_eq_getElem _).symm
    exact hfirst.bind fun _ l' hl' => ih hl'.1 hl'.2 _

/-- The memory of the module is added, or none. -/
theorem declareMemory (hearly : l.Early m resolver s) (allocator : Nat)
    (hroom : l.Room (m.memories.getD []).length) :
    Leads (Link.declareMemory allocator m) l (fun _ l' => l'.Early m resolver s)
      fun _ l' => l'.Early m resolver s := by
  unfold Link.declareMemory
  cases hmemories : m.memories.getD [] with
  | nil => exact hearly
  | cons limits rest =>
    -- A module with a memory of its own does not import one.
    have hnone : l.inst.memory = none := by
      rw [hmemories, List.length_cons, Linking.Room] at hroom
      cases hmemory : l.inst.memory with
      | none => rfl
      | some p =>
        rw [hmemory, Option.toList, List.length_singleton] at hroom
        omega
    have hsame : l.store.memories = s.memories := by
      cases hearly.takes with
      | nothing _ hsame => exact hsame
      | imported _ _ hmemory => cases hnone.symm.trans hmemory
      | own hmemory => cases hnone.symm.trans hmemory
    refine (Link.allocateMemory_leads allocator limits l).weaken ?_ ?_
    · rintro _ l' ⟨⟨memory, a, -, hpush⟩, hglobals, hinstances, hinst⟩
      refine ⟨hinstances.trans hearly.instances_eq, fun g hg => ?_, ?_⟩
      · rw [hglobals]
        exact hearly.globals_eq g hg
      · exact .own (by rw [hinst, hsame]) (by rw [hinst]) (hpush.trans (by rw [hsame]))
    · rintro _ l' ⟨hmemories', hglobals, hinstances, hinst⟩
      exact hearly.of_same (by rw [hinst]) (by rw [hinst]) hmemories' hinstances
        fun g _ => by rw [hglobals]

end Linking.Early

/-- Building has reached the start function, and has written to the memory of the instance only. -/
def Linking.Late (m : Module) (resolver : Option (Resolver H σ)) (s : Store H σ)
    (l : Linking H σ) : Prop :=
  ∃ l₀ : Linking H σ, l₀.Early m resolver s ∧ l.inst.memory = l₀.inst.memory ∧
    l.inst.ownsMemory = l₀.inst.ownsMemory ∧ l₀.store.Spares l.store ∧ l₀.store.SameSizes l.store

/-- Placing segments either fails before it has written anything or writes all of them. -/
theorem Linking.Early.placeSegments {m : Module} {resolver : Option (Resolver H σ)} {s : Store H σ}
    {l : Linking H σ} (hearly : l.Early m resolver s) :
    Leads (Link.placeSegments m) l (fun _ l' => l'.Late m resolver s)
      fun _ l' => l'.Early m resolver s := by
  refine (Link.placeSegments_leads m l).weaken ?_ fun _ l' hl' => hl' ▸ hearly
  rintro _ _ ⟨place, hsize, fill, -, rfl⟩
  refine ⟨l, hearly, rfl, rfl, ?_⟩
  cases l.inst.memory with
  | none => exact ⟨.refl _, fun _ => rfl⟩
  | some address =>
    refine ⟨⟨Store.husks_modifyMemory _ _ fun _ => rfl, rfl⟩, fun p => ?_⟩
    simp only [Store.modifyMemory, Array.getElem?_modify]
    split
    · rw [Option.map_map]
      refine congrArg (Option.map · _) (funext fun m => ?_)
      simp only [Function.comp, Memory.size, pageCount, hsize]
    · rfl

/-- Instantiating a module has failed in its start function. -/
def InstantiateError.IsStartTrap (e : InstantiateError) : Prop :=
  ∃ err, e = .link err ∧ err.kind = .startTrap

section

variable {host : Host H σ} {invoker : Invoker H σ} {fuel : Nat} {m : Module}
  {resolver : Option (Resolver H σ)} {s : Store H σ}

/-- A start function that fails traps or breaks down. -/
theorem Link.start_leads (function : UInt32) {l : Linking H σ}
    (hspares : ∀ c, Moves Store.Spares (host.call invoker c)) :
    Leads (Link.start host invoker fuel function) l (fun _ _ => True) fun e l' =>
      (∃ crash, e = .crashed crash) ∨ e.IsStartTrap ∧ l'.inst = l.inst ∧ l.store.Spares l'.store ∧
        ((∀ c, Moves Store.SameSizes (host.call invoker c)) →
          l.store.SameSizesBut l.inst.memory l'.store) := by
  have hspared : l.store.Spares (finalState (Link.start host invoker fuel function l)).store :=
    Link.start_moves l.inst.allows_spares hspares function
  have hsizes (hhost : ∀ c, Moves Store.SameSizes (host.call invoker c)) :
      l.store.SameSizesBut l.inst.memory
        (finalState (Link.start host invoker fuel function l)).store :=
    Link.start_moves l.inst.allows_sameSizesBut (fun c t p _ => hhost c t p) function
  unfold Leads
  unfold Link.start at hspared hsizes ⊢
  simp only at hspared hsizes ⊢
  cases houtcome : (l.inst.call host invoker fuel function [] l.store).1.outcome with
  | ok words => trivial
  | error e =>
    cases e with
    | crashed crash => exact .inl ⟨crash, rfl⟩
    | refused refusal => exact .inl ⟨.missing, rfl⟩
    | trapped trap =>
      simp only [houtcome] at hspared hsizes
      exact .inr ⟨⟨_, rfl, rfl⟩, rfl, hspared, hsizes⟩

/-- What a failure leaves of an instance that was being built: what the instance has taken of the
store that it began with, and what its start function has done since. -/
def Linking.Abandoned (host : Host H σ) (invoker : Invoker H σ) (m : Module)
    (resolver : Option (Resolver H σ)) (s : Store H σ) (e : InstantiateError)
    (l : Linking H σ) : Prop :=
  ∃ l₀ : Linking H σ, l₀.Early m resolver s ∧ l.inst.memory = l₀.inst.memory ∧
    l.inst.ownsMemory = l₀.inst.ownsMemory ∧ l₀.store.Spares l.store ∧
    (l = l₀ ∨ e.IsStartTrap ∧ ((∀ c, Moves Store.SameSizes (host.call invoker c)) →
      l₀.store.SameSizesBut l₀.inst.memory l.store))

/-- What an early stage has done is undone. -/
theorem Linking.Early.abandoned {l : Linking H σ} (hearly : l.Early m resolver s)
    (e : InstantiateError) : l.Abandoned host invoker m resolver s e :=
  ⟨l, hearly, rfl, rfl, .refl _, .inl rfl⟩

/-- If the start function traps, what came before it can be undone; otherwise it has crashed. -/
theorem Linking.Late.runStart {l : Linking H σ} (hlate : l.Late m resolver s)
    (hspares : ∀ c, Moves Store.Spares (host.call invoker c)) :
    Leads (Link.runStart host invoker fuel m) l (fun _ _ => True) fun e l' =>
      (∃ crash, e = .crashed crash) ∨ l'.Abandoned host invoker m resolver s e := by
  unfold Link.runStart
  cases m.start with
  | none => trivial
  | some function =>
    refine (Link.start_leads function hspares).weaken (fun _ _ h => h) ?_
    rintro e l' (hcrashed | ⟨htrap, hinst, hspared, hsizes⟩)
    · exact .inl hcrashed
    · obtain ⟨l₀, hearly, hmemory, howns, hspares₀, hsizes₀⟩ := hlate
      refine .inr ⟨l₀, hearly, by rw [hinst, hmemory], by rw [hinst, howns], hspares₀.trans hspared,
        .inr ⟨htrap, fun hhost p hp => ?_⟩⟩
      rw [← hsizes₀ p]
      exact hsizes hhost p (hmemory ▸ hp)

/-- Binding the definitions of a valid module takes a memory only if the module declares none. -/
theorem Link.bindDefinitions_leads (hvalid : m.Valid) {inst : Instance H}
    (hmemory : inst.memory = none) (howns : inst.ownsMemory = false) :
    Leads (Link.bindDefinitions m resolver) ⟨s, inst⟩
      (fun _ l' => l'.Early m resolver s ∧ l'.Room (m.memories.getD []).length)
      fun _ l' => l'.Early m resolver s := by
  have hbegun : Linking.Imports m resolver s ⟨s, inst⟩ := .nothing hmemory howns
  -- A valid module has one memory at most, imported or declared; this room is used up by the entry
  -- that takes the memory.
  have hroom : Linking.Room (⟨s, inst⟩ : Linking H σ)
      ((m.importList.filterMap Module.memoryImport?).length + (m.memories.getD []).length) := by
    rw [Linking.Room, hmemory, Option.toList, List.length_nil, Nat.zero_add]
    exact hvalid.memoryCount_le
  have hcode : Leads (Link.lift m.compile : Link H σ _) ⟨s, inst⟩ (fun _ l' => l' = ⟨s, inst⟩)
      fun _ l' => l'.Early m resolver s := by
    cases m.compile with
    | error e => exact .of_imports hbegun
    | ok functions => exact rfl
  refine hcode.bind fun functions l hl => ?_
  subst hl
  have hnamed : Leads (Link.modifyInstance fun inst : Instance H =>
      { inst with
        name := m.ownName
        types := (m.types.getD []).toArray
        functions := functions.toArray }) ⟨s, inst⟩
      (fun _ l' => l'.Imports m resolver s ∧ l'.Room
        ((m.importList.filterMap Module.memoryImport?).length + (m.memories.getD []).length))
      fun _ l' => l'.Early m resolver s := ⟨hbegun.modifyInstance rfl rfl, hroom⟩
  refine hnamed.bind fun _ l hl => ?_
  have himports : Leads (Link.forEachFrom (fun _ i => Link.importEntry resolver i) 0 m.importList) l
      (fun _ l' => l'.Early m resolver s ∧ l'.Room (m.memories.getD []).length)
      fun _ l' => l'.Early m resolver s :=
    (hl.1.forEach (fun i hi => hi) 0 hl.2).weaken (fun _ _ h => ⟨.of_imports h.1, h.2⟩)
      fun _ _ => .of_imports
  refine himports.bind fun _ l hl => ?_
  have hvalues : Leads Link.globalValues l
      (fun _ l' => l'.Early m resolver s ∧ l'.Room (m.memories.getD []).length)
      fun _ l' => l'.Early m resolver s := hl
  exact hvalues.bind fun imported l hl => hl.1.defineGlobals hl.2 imported 0 _

/-- Building an instance fails with what it has taken and what its start function has done. -/
theorem Link.build_leads (hvalid : m.Valid) (resolver : Option (Resolver H σ))
    (hspares : ∀ c, Moves Store.Spares (host.call invoker c)) (fuel allocator : Nat) (s : Store H σ)
    {inst : Instance H} (hmemory : inst.memory = none) (howns : inst.ownsMemory = false) :
    Leads (Link.build host invoker fuel m resolver allocator) ⟨s, inst⟩
      (fun _ _ => True) fun e l' =>
      (∃ crash, e = .crashed crash) ∨ l'.Abandoned host invoker m resolver s e := by
  have hearly (e : InstantiateError) (l' : Linking H σ) (hl' : l'.Early m resolver s) :
      (∃ crash, e = .crashed crash) ∨ l'.Abandoned host invoker m resolver s e :=
    .inr (hl'.abandoned e)
  rw [Link.build_eq]
  refine ((bindDefinitions_leads hvalid hmemory howns).weaken (fun _ _ h => h) hearly).bind
    fun _ l hl => ?_
  refine ((hl.1.declareMemory allocator hl.2).weaken (fun _ _ h => h) hearly).bind fun _ l hl => ?_
  have htable : Leads (Link.declareTable m) l (fun _ l' => l'.Early m resolver s)
      fun e l' => (∃ crash, e = .crashed crash) ∨ l'.Abandoned host invoker m resolver s e := by
    unfold Link.declareTable
    split
    · exact hl
    · exact hl.of_same rfl rfl rfl rfl fun _ _ => rfl
  refine htable.bind fun _ l hl => ?_
  refine (hl.placeSegments.weaken (fun _ _ h => h) hearly).bind fun _ l hl => ?_
  have hexports : Leads (Link.modifyInstance ({ · with exports := m.exports.getD [] })) l
      (fun _ l' => l'.Late m resolver s)
      fun e l' => (∃ crash, e = .crashed crash) ∨ l'.Abandoned host invoker m resolver s e := by
    obtain ⟨l₀, hearly₀, hmemory₀, howns₀, hspares₀, hsizes₀⟩ := hl
    exact ⟨l₀, hearly₀, hmemory₀, howns₀, hspares₀, hsizes₀⟩
  exact hexports.bind fun _ l hl => hl.runStart hspares

/-! ## Giving back what was taken -/

/-- Counting keeps the memories. -/
@[simp] theorem Store.memories_count (s : Store H σ) (c : Config) (f : Counters → Counters) :
    (s.count c f).memories = s.memories := by
  unfold count
  split <;> rfl

/-- Counting keeps the globals. -/
@[simp] theorem Store.globals_count (s : Store H σ) (c : Config) (f : Counters → Counters) :
    (s.count c f).globals = s.globals := by
  unfold count
  split <;> rfl

/-- Counting keeps the instances. -/
@[simp] theorem Store.instances_count (s : Store H σ) (c : Config) (f : Counters → Counters) :
    (s.count c f).instances = s.instances := by
  unfold count
  split <;> rfl

/-- Giving a memory back keeps the globals. -/
@[simp] theorem Engine.globals_release (inst : Instance H) (s : Store H σ) :
    (release inst s).globals = s.globals := by
  unfold release
  split
  · rfl
  · split <;> rfl

/-- Giving a memory back keeps the instances. -/
@[simp] theorem Engine.instances_release (inst : Instance H) (s : Store H σ) :
    (release inst s).instances = s.instances := by
  unfold release
  split
  · rfl
  · split <;> rfl

/-- Whatever an abandoned instance has taken is given back: the memories that there were are as they
were but for their bytes, and the others are empty. -/
theorem Linking.Early.release {l₀ : Linking H σ} (hearly : l₀.Early m resolver s) {u : Store H σ}
    (hspared : l₀.store.Spares u) {inst : Instance H} (hmemory : inst.memory = l₀.inst.memory)
    (howns : inst.ownsMemory = l₀.inst.ownsMemory) :
    (∀ (p : Nat) (memory : Memory), s.memories[p]? = some memory → ∃ w, u.memories[p]? = some w ∧
        (Engine.release inst u).memories[p]? = some { memory with bytes := w.bytes }) ∧
      ∀ (p : Nat) (memory : Memory), s.memories.size ≤ p →
        (Engine.release inst u).memories[p]? = some memory → memory.bytes = .empty := by
  have hspared (p : Nat) := hspared.husks p
  unfold Engine.release
  -- An instance takes no memory, an imported one, or one of its own: nothing is to be done, the
  -- mark is taken off, or the memory is freed.
  cases hearly.takes with
  | nothing hnone hsame =>
    simp only [hmemory, hnone]
    rw [hsame] at hspared
    refine ⟨fun p memory hp => ?_, fun p memory hp hplace => ?_⟩
    · have hhusk := hspared p
      rw [hp, Option.map_some, Option.map_eq_some_iff] at hhusk
      obtain ⟨w, hw, hhusk⟩ := hhusk
      exact ⟨w, hw, by rw [hw, ← Memory.eq_of_husk_eq hhusk]⟩
    · have hhusk := hspared p
      rw [hplace, Array.getElem?_eq_none hp] at hhusk
      cases hhusk
  | @imported q hsupplied hfree hsome hborrowed hsame =>
    simp only [hmemory, hsome, howns, hborrowed, Bool.false_eq_true, if_false]
    simp only [hsame, Array.getElem?_modify] at hspared
    simp only [Store.modifyMemory, Array.getElem?_modify]
    refine ⟨fun p memory hp => ?_, fun p memory hp hplace => ?_⟩
    · have hhusk := hspared p
      rw [hp] at hhusk
      by_cases hq : q = p
      · subst hq
        rw [hp] at hfree
        simp only [if_true, Option.map_some, Option.map_eq_some_iff] at hhusk ⊢
        obtain ⟨w, hw, hhusk⟩ := hhusk
        refine ⟨w, hw, w, hw, ?_⟩
        have hfree : memory.attached = false := hfree
        rw [Memory.eq_of_husk_eq hhusk, ← hfree]
      · simp only [if_neg hq, Option.map_some, Option.map_eq_some_iff] at hhusk ⊢
        obtain ⟨w, hw, hhusk⟩ := hhusk
        exact ⟨w, hw, by rw [hw, ← Memory.eq_of_husk_eq hhusk]⟩
    · have hhusk := hspared p
      rw [Array.getElem?_eq_none hp] at hhusk
      have hnone : u.memories[p]? = none := by simpa using hhusk
      rw [hnone] at hplace
      simp at hplace
  | @own last hsome howned hsame =>
    simp only [hmemory, hsome, howns, howned, if_true]
    rw [hsame] at hspared
    simp only [Store.freeMemory, Memory.free]
    refine ⟨fun p memory hp => ?_, fun p memory hp hplace => ?_⟩
    · have hlt := (Array.getElem?_eq_some_iff.1 hp).1
      have hhusk := hspared p
      rw [Array.getElem?_push, if_neg (Nat.ne_of_lt hlt), hp, Option.map_some,
        Option.map_eq_some_iff] at hhusk
      obtain ⟨w, hw, hhusk⟩ := hhusk
      refine ⟨w, hw, ?_⟩
      rw [Array.getElem?_setIfInBounds_ne (Nat.ne_of_gt hlt), hw, ← Memory.eq_of_husk_eq hhusk]
    · by_cases hlast : s.memories.size = p
      · subst hlast
        rw [Array.getElem?_setIfInBounds, if_pos rfl] at hplace
        split at hplace
        · cases hplace
          rfl
        · cases hplace
      · have hhusk := hspared p
        rw [Array.getElem?_push, if_neg (Ne.symm hlast), Array.getElem?_eq_none hp] at hhusk
        have hnone : u.memories[p]? = none := by simpa using hhusk
        rw [Array.getElem?_setIfInBounds_ne hlast, hnone] at hplace
        cases hplace

/-- In an early stage the memories that were there have their bytes. -/
theorem Linking.Early.bytes_eq {l : Linking H σ} (hearly : l.Early m resolver s) {p : Nat}
    {memory w : Memory} (hmemory : s.memories[p]? = some memory)
    (hw : l.store.memories[p]? = some w) : w.bytes = memory.bytes := by
  cases hearly.takes with
  | nothing _ hsame =>
    rw [hsame, hmemory] at hw
    cases hw
    rfl
  | imported _ _ _ _ hsame =>
    rw [hsame, Array.getElem?_modify, hmemory] at hw
    split at hw <;> cases hw <;> rfl
  | own _ _ hsame =>
    rw [hsame, Array.getElem?_push, if_neg (Nat.ne_of_lt (Array.getElem?_eq_some_iff.1 hmemory).1),
      hmemory] at hw
    cases hw
    rfl

/-- A memory that has kept its size since building began has the size that it had before. -/
theorem Linking.Early.size_eq {l : Linking H σ} (hearly : l.Early m resolver s) {p : Nat}
    {memory w : Memory} (hmemory : s.memories[p]? = some memory)
    (hsame : some w.size = l.store.memories[p]?.map Memory.size) : w.size = memory.size := by
  obtain ⟨w₀, hw₀, hsize⟩ := Option.map_eq_some_iff.1 hsame.symm
  rw [← hsize, Memory.size, Memory.size, hearly.bytes_eq hmemory hw₀]

/-- A memory that was there before building began is one of the module only as its import. -/
theorem Linking.Early.supplies {l : Linking H σ} (hearly : l.Early m resolver s) {p : Nat}
    {memory : Memory} (hmemory : s.memories[p]? = some memory) (hinst : l.inst.memory = some p) :
    m.Supplies resolver s p := by
  cases hearly.takes with
  | nothing hnone _ => cases hnone.symm.trans hinst
  | imported hsupplied _ hsome =>
    cases hsome.symm.trans hinst
    exact hsupplied
  | own hsome =>
    cases hsome.symm.trans hinst
    rw [Array.getElem?_eq_none (Nat.le_refl _)] at hmemory
    cases hmemory

/-- What is left of a store after a failure: its memories but for their bytes, and behind them empty
ones. Only a trapping start function has written to anything, and it has made no memory grow but an
imported one, if the functions of the embedder let none grow. -/
structure Store.Restored (host : Host H σ) (invoker : Invoker H σ) (supplied : Nat → Prop)
    (e : InstantiateError) (s s' : Store H σ) : Prop where
  instances_size : s'.instances.size = s.instances.size
  kept : ∀ (p : Nat) (memory : Memory), s.memories[p]? = some memory →
    ∃ bytes, s'.memories[p]? = some { memory with bytes }
  empty : ∀ (p : Nat) (memory : Memory), s.memories.size ≤ p → s'.memories[p]? = some memory →
    memory.bytes = .empty
  memories_eq : ¬ e.IsStartTrap → ∀ (p : Nat) (memory : Memory), s.memories[p]? = some memory →
    s'.memories[p]? = some memory
  globals_eq : ¬ e.IsStartTrap → ∀ (g : Nat) (global : Global), s.globals[g]? = some global →
    s'.globals[g]? = some global
  sizes : (∀ c, Moves Store.SameSizes (host.call invoker c)) → ∃ resized : Option Nat,
    (∀ (p : Nat) (memory memory' : Memory), s.memories[p]? = some memory →
      s'.memories[p]? = some memory' → resized ≠ some p → memory'.size = memory.size) ∧
    ∀ (p : Nat) (memory : Memory), resized = some p → s.memories[p]? = some memory →
      e.IsStartTrap ∧ supplied p

/-- Giving back what an abandoned instance has taken restores the store. -/
theorem Linking.Abandoned.restored {e : InstantiateError} {l : Linking H σ}
    (habandoned : l.Abandoned host invoker m resolver s e) :
    s.Restored host invoker (m.Supplies resolver s) e (Engine.release l.inst l.store) := by
  obtain ⟨l₀, hearly, hmemory, howns, hspared, hrest⟩ := habandoned
  obtain ⟨hkept, hempty⟩ := hearly.release hspared hmemory howns
  refine ⟨?instances, fun p memory hplace => ?kept, hempty, fun hnot p memory hplace => ?memories,
    fun hnot g global hplace => ?globals, fun hhost => ?sizes⟩
  case instances => rw [Engine.instances_release, hspared.instances_size, hearly.instances_eq]
  case kept =>
    obtain ⟨w, -, hw⟩ := hkept p memory hplace
    exact ⟨w.bytes, hw⟩
  case memories =>
    obtain rfl : l = l₀ := hrest.resolve_right fun htrap => hnot htrap.1
    obtain ⟨w, hw, hsame⟩ := hkept p memory hplace
    rwa [hearly.bytes_eq hplace hw] at hsame
  case globals =>
    obtain rfl : l = l₀ := hrest.resolve_right fun htrap => hnot htrap.1
    rw [Engine.globals_release, hearly.globals_eq g (Array.getElem?_eq_some_iff.1 hplace).1, hplace]
  case sizes =>
    have hsize (p : Nat) (memory memory' : Memory) (hplace : s.memories[p]? = some memory)
        (hplace' : (Engine.release l.inst l.store).memories[p]? = some memory')
        (hsame : l.store.memories[p]?.map Memory.size = l₀.store.memories[p]?.map Memory.size) :
        memory'.size = memory.size := by
      obtain ⟨w, hw, hnew⟩ := hkept p memory hplace
      rw [hplace'] at hnew
      cases hnew
      rw [hw, Option.map_some] at hsame
      exact (hearly.size_eq hplace hsame : w.size = memory.size)
    -- The linking stopped before the start function, or the start function trapped; in that case
    -- the memory it could reach is excepted.
    obtain rfl | ⟨htrap, hsizes⟩ := hrest
    · exact ⟨none, fun p memory memory' hplace hplace' _ => hsize p memory memory' hplace hplace'
        rfl, fun _ _ hp => by cases hp⟩
    · refine ⟨l₀.inst.memory, fun p memory memory' hplace hplace' hp => ?_,
        fun p memory hp hplace => ⟨htrap, hearly.supplies hplace hp⟩⟩
      exact hsize p memory memory' hplace hplace' (hsizes hhost p hp)

end

/-! ## Pages of the memories that there were -/

section

variable {outside : Nat → Nat} {s s' : Store H σ}

/-- The pages that an allocator has handed out to the first memories of a store. -/
def Store.pagesOfFirst (s : Store H σ) (n i : Nat) : Nat :=
  ((s.memories.toList.take n).map (·.share i)).sum

/-- The number of pages that the allocator at a place reports; none, if there is no allocator. -/
def Store.usedAt (s : Store H σ) (i : Nat) : Nat := (s.allocators[i]?.map Allocator.used).getD 0

/-- There is an allocator with a budget at a place. -/
def Store.Budgeted (s : Store H σ) (i : Nat) : Prop :=
  ∃ a b, s.allocators[i]? = some a ∧ a.budget = some b

/-- What a budget counts are the pages of its memories and those outside. -/
theorem Store.Accounted.usedAt_eq (haccounted : s.Accounted outside) {i : Nat}
    (hbudgeted : s.Budgeted i) : s.usedAt i = outside i + s.pagesOf i := by
  obtain ⟨a, b, ha, hb⟩ := hbudgeted
  rw [usedAt, ha]
  exact (haccounted.holds i a ha).used_eq hb

/-- Without a budget nothing is counted. -/
theorem Store.usedAt_eq_zero {i : Nat} (hbudgeted : ¬ s.Budgeted i) : s.usedAt i = 0 := by
  unfold usedAt
  cases ha : s.allocators[i]? with
  | none => rfl
  | some a =>
    cases hb : a.budget with
    | none => simp [Allocator.used, hb]
    | some b => exact absurd ⟨a, b, ha, hb⟩ hbudgeted

/-- What is in use after accounts were kept was in use before, or is in use at a new allocator. -/
theorem Store.KeepsAccounts.usedAt_eq (hkeeps : s.KeepsAccounts s')
    (haccounted : s.Accounted outside) {i : Nat} (hbudgeted : s'.Budgeted i) :
    s.usedAt i = outside i + s.pagesOf i := by
  cases ha : s.allocators[i]? with
  | none =>
    have hnone : s.pagesOf i = 0 := by
      refine List.sum_eq_zero fun n hn => ?_
      obtain ⟨m, hm, rfl⟩ := List.mem_map.1 hn
      have hlt := haccounted.allocator_lt m (by simpa using hm)
      rw [Array.getElem?_eq_none_iff] at ha
      exact Memory.share_of_ne (by omega)
    rw [usedAt, ha, hnone, haccounted.outside_eq i (Array.getElem?_eq_none_iff.1 ha)]
    rfl
  | some a =>
    obtain ⟨a', b', ha', hb'⟩ := hbudgeted
    obtain ⟨a'', ha'', hsame⟩ := hkeeps.limits i a ha
    rw [ha'] at ha''
    cases ha''
    rw [Allocator.SameLimit, Allocator.limit?, Allocator.limit?, hb', Option.map_some] at hsame
    obtain ⟨b, hb, -⟩ := Option.map_eq_some_iff.1 hsame.symm
    exact haccounted.usedAt_eq ⟨a, b, ha, hb⟩

/-- A budget is not taken away. -/
theorem Store.KeepsAccounts.budgeted (hkeeps : s.KeepsAccounts s') {i : Nat}
    (hbudgeted : s.Budgeted i) : s'.Budgeted i := by
  obtain ⟨a, b, ha, hb⟩ := hbudgeted
  obtain ⟨a', ha', hsame⟩ := hkeeps.limits i a ha
  rw [Allocator.SameLimit, Allocator.limit?, Allocator.limit?, hb, Option.map_some] at hsame
  obtain ⟨b', hb', -⟩ := Option.map_eq_some_iff.1 hsame
  exact ⟨a', b', ha', hb'⟩

/-- Empty memories behind the first ones count nothing. -/
theorem Store.pagesOf_eq_pagesOfFirst {n : Nat}
    (hempty : ∀ (p : Nat) (m : Memory), n ≤ p → s.memories[p]? = some m → m.bytes = .empty)
    (i : Nat) : s.pagesOf i = s.pagesOfFirst n i := by
  have hrest : ((s.memories.toList.drop n).map (·.share i)).sum = 0 := by
    refine List.sum_eq_zero fun k hk => ?_
    obtain ⟨m, hm, rfl⟩ := List.mem_map.1 hk
    obtain ⟨j, hj⟩ := List.mem_iff_getElem?.1 hm
    rw [List.getElem?_drop, Array.getElem?_toList] at hj
    have hbytes := hempty (n + j) m (Nat.le_add_right n j) hj
    simp [Memory.share, Memory.size, hbytes, pageCount_empty]
  rw [pagesOf, pagesOfFirst, ← List.take_append_drop n s.memories.toList, List.map_append,
    List.sum_append, hrest, List.take_append_drop, Nat.add_zero]

/-- Setting an entry of a list changes its sum by the difference. -/
theorem sum_set {l : List Nat} {p x : Nat} (hentry : l[p]? = some x) (y : Nat) :
    (l.set p y).sum + x = l.sum + y := by
  induction l generalizing p with
  | nil => simp at hentry
  | cons a l ih =>
    cases p with
    | zero =>
      obtain rfl : a = x := by simpa using hentry
      simp only [List.set_cons_zero, List.sum_cons]
      omega
    | succ p =>
      have hrest := ih (p := p) (by simpa using hentry)
      simp only [List.set_cons_succ, List.sum_cons]
      omega

/-- The share of each of the first memories. -/
theorem Store.getElem?_firstShares (s : Store H σ) {n p : Nat} (hlt : p < n) (i : Nat) :
    ((s.memories.toList.take n).map (·.share i))[p]? = s.memories[p]?.map (·.share i) := by
  rw [List.getElem?_map, List.getElem?_take_of_lt hlt, Array.getElem?_toList]

/-- If the memories that there were keep their sizes but for one, then the pages that they have
change by what that one wins. -/
theorem Store.pagesOfFirst_eq {resized : Option Nat}
    (hkept : ∀ (p : Nat) (m : Memory), s.memories[p]? = some m → ∃ m', s'.memories[p]? = some m' ∧
      m'.allocator = m.allocator ∧ (resized ≠ some p → m'.size = m.size)) (i : Nat) :
    s'.pagesOfFirst s.memories.size i = s.pagesOf i ∨
      ∃ p m m', resized = some p ∧ s.memories[p]? = some m ∧ m.allocator = i ∧
        s'.memories[p]? = some m' ∧
        s'.pagesOfFirst s.memories.size i + m.size.toNat = s.pagesOf i + m'.size.toNat := by
  have hother (q : Nat) (hq : resized = some q → s.memories.size ≤ q) :
      ((s'.memories.toList.take s.memories.size).map (·.share i))[q]? =
        (s.memories.toList.map (·.share i))[q]? := by
    by_cases hlt : q < s.memories.size
    · obtain ⟨m', hm', hallocator, hsize⟩ := hkept q _ (Array.getElem?_eq_getElem hlt)
      have hsame := hsize fun hresized => absurd (hq hresized) (by omega)
      rw [s'.getElem?_firstShares hlt, hm', List.getElem?_map, Array.getElem?_toList,
        Array.getElem?_eq_getElem hlt, Option.map_some, Option.map_some,
        Memory.share_of_size_eq hallocator hsame]
    · rw [List.getElem?_eq_none (by simp; omega), List.getElem?_eq_none (by simp; omega)]
  -- Without a resized memory the lists of shares are equal; with one they differ at one place, and
  -- so do the sums.
  by_cases hresized : ∃ p, resized = some p ∧ p < s.memories.size
  swap
  · refine .inl (congrArg List.sum (List.ext_getElem? fun q => hother q fun hq => ?_))
    by_contra hlt
    exact hresized ⟨q, hq, by omega⟩
  obtain ⟨p, rfl, hlt⟩ := hresized
  obtain ⟨m', hm', hallocator, -⟩ := hkept p _ (Array.getElem?_eq_getElem hlt)
  have hset : (s'.memories.toList.take s.memories.size).map (·.share i) =
      (s.memories.toList.map (·.share i)).set p (m'.share i) := by
    refine List.ext_getElem? fun q => ?_
    by_cases hq : p = q
    · subst hq
      rw [s'.getElem?_firstShares hlt, hm', List.getElem?_set_self (by simpa using hlt),
        Option.map_some]
    · rw [List.getElem?_set_ne hq]
      exact hother q fun hp => absurd (Option.some.inj hp) hq
  have hsum : s'.pagesOfFirst s.memories.size i + s.memories[p].share i =
      s.pagesOf i + m'.share i := by
    rw [pagesOfFirst, pagesOf, hset]
    exact sum_set (by rw [List.getElem?_map, Array.getElem?_toList, Array.getElem?_eq_getElem hlt,
      Option.map_some]) _
  by_cases hi : s.memories[p].allocator = i
  · refine .inr ⟨p, _, m', rfl, Array.getElem?_eq_getElem hlt, hi, hm', ?_⟩
    subst hi
    rwa [Memory.share_self, ← hallocator, Memory.share_self, hallocator] at hsum
  · rw [Memory.share_of_ne hi, Memory.share_of_ne (by rwa [hallocator])] at hsum
    exact .inl (by omega)

end

/-! ## Failures leave things as they were -/

section

variable {host : Host H σ} {fuel nesting : Nat} {m : Module} {resolver : Option (Resolver H σ)}
  {c : Config} {s s' : Store H σ}

/-- An instantiation that fails has changed nothing, or it has failed while linking and given back
the memory. -/
theorem Engine.instantiate_eq_error {e : InstantiateError}
    (herror : instantiate host fuel nesting m resolver c s = .error e s')
    (hreturned : ∀ crash, e ≠ .crashed crash) :
    s' = s ∧ (∃ fault, e = .config fault) ∨ ∃ c', c.check = .ok c' ∧ ∃ l : Linking H σ,
      Link.build host (invoke host fuel nesting) fuel m resolver (placeAllocator c' s).1
        ⟨(placeAllocator c' s).2, { config := c' }⟩ = .error e l ∧
      s' = (release l.inst l.store).count c' (Counters.instantiation e.label) := by
  unfold instantiate at herror
  cases hcheck : c.check with
  | error fault =>
    simp only [hcheck, EStateM.Result.error.injEq] at herror
    exact .inl ⟨herror.2.symm, fault, herror.1.symm⟩
  | ok c' =>
    refine .inr ⟨c', rfl, ?_⟩
    simp only [hcheck] at herror
    split at herror
    · cases herror
    · obtain ⟨rfl, -⟩ := EStateM.Result.error.inj herror
      exact absurd rfl (hreturned _)
    · rename_i e' l hcrashed hbuild
      obtain ⟨rfl, rfl⟩ := EStateM.Result.error.inj herror
      exact ⟨l, hbuild, rfl⟩

/-- Putting an allocator into a store changes nothing else. -/
theorem Engine.placeAllocator_same (c : Config) (s : Store H σ) :
    (placeAllocator c s).2.memories = s.memories ∧ (placeAllocator c s).2.globals = s.globals ∧
      (placeAllocator c s).2.instances = s.instances := by
  unfold placeAllocator
  split <;> exact ⟨rfl, rfl, rfl⟩

/-- A failed instantiation restores the store. -/
theorem Engine.instantiate_restores (hvalid : m.Valid)
    (hspares : ∀ call, Moves Store.Spares (host.call (invoke host fuel nesting) call))
    {e : InstantiateError} (herror : instantiate host fuel nesting m resolver c s = .error e s')
    (hreturned : ∀ crash, e ≠ .crashed crash) :
    s.Restored host (invoke host fuel nesting)
      (fun p => ∃ c', c.check = .ok c' ∧ m.Supplies resolver (placeAllocator c' s).2 p) e s' := by
  obtain ⟨rfl, -⟩ | ⟨c', hcheck, l, hbuild, rfl⟩ := instantiate_eq_error herror hreturned
  · refine ⟨rfl, fun p memory hplace => ⟨memory.bytes, hplace⟩, fun p memory hp hplace => ?_,
      fun _ _ _ h => h, fun _ _ _ h => h, fun _ => ⟨none, fun p memory memory' hplace hplace' _ =>
        ?_, fun _ _ hp => by cases hp⟩⟩
    · rw [Array.getElem?_eq_none hp] at hplace
      cases hplace
    · rw [hplace] at hplace'
      cases hplace'
      rfl
  have hbegun : ({ config := c' } : Instance H).memory = none := rfl
  have hleads := Link.build_leads hvalid resolver hspares fuel (placeAllocator c' s).1
    (placeAllocator c' s).2 hbegun rfl
  rw [Leads, hbuild] at hleads
  have hrestored := (hleads.resolve_left fun ⟨crash, hcrash⟩ => hreturned crash hcrash).restored
  obtain ⟨hmemories, hglobals, hinstances⟩ := placeAllocator_same c' s
  -- Neither the allocator nor the counters matter.
  constructor
  · rw [Store.instances_count, hrestored.instances_size, hinstances]
  · rw [Store.memories_count, ← hmemories]
    exact hrestored.kept
  · rw [Store.memories_count, ← hmemories]
    exact hrestored.empty
  · rw [Store.memories_count, ← hmemories]
    exact hrestored.memories_eq
  · rw [Store.globals_count, ← hglobals]
    exact hrestored.globals_eq
  · intro hhost
    obtain ⟨resized, hsizes, hresized⟩ := hrestored.sizes hhost
    rw [Store.memories_count]
    rw [hmemories] at hsizes hresized
    exact ⟨resized, hsizes, fun p memory hp hplace =>
      ⟨(hresized p memory hp hplace).1, c', hcheck, (hresized p memory hp hplace).2⟩⟩

/-- What instantiating a module has undone when it returns an error: the store that it leaves
against the store that it began with, where the allocators had handed out some pages outside of
memories. -/
structure Engine.Undone (outside : Nat → Nat) (host : Host H σ) (invoker : Invoker H σ) (m : Module)
    (resolver : Option (Resolver H σ)) (c : Config) (e : InstantiateError) (s s' : Store H σ) :
    Prop where
  /-- There is no new instance. -/
  instances_size : s'.instances.size = s.instances.size
  /-- What an allocator reports to be in use is made up of the pages outside of memories and those
  of the memories that there were before, as it was before. -/
  used_eq : ∀ i, s'.Budgeted i → s.usedAt i = outside i + s.pagesOfFirst s.memories.size i ∧
    s'.usedAt i = outside i + s'.pagesOfFirst s.memories.size i
  /-- It is what it was before, but for what a trapping start function has added to a memory that
  the module imports, if the functions of the embedder change the size of no memory. -/
  used_eq_or : (∀ call, Moves Store.SameSizes (host.call invoker call)) →
    ∀ i, s'.usedAt i = s.usedAt i ∨ e.IsStartTrap ∧ ∃ c' p memory memory',
      c.check = .ok c' ∧ m.Supplies resolver (Engine.placeAllocator c' s).2 p ∧
      s.memories[p]? = some memory ∧ memory.allocator = i ∧ s'.memories[p]? = some memory' ∧
      s'.usedAt i + memory.size.toNat = s.usedAt i + memory'.size.toNat
  /-- Every memory that there was is attached or not as it was before. -/
  attached_eq : ∀ (p : Nat) (memory : Memory), s.memories[p]? = some memory →
    ∃ memory', s'.memories[p]? = some memory' ∧ memory'.attached = memory.attached
  /-- Unless the start function has trapped, every memory is what it was before. -/
  memories_eq : ¬ e.IsStartTrap → ∀ (p : Nat) (memory : Memory), s.memories[p]? = some memory →
    s'.memories[p]? = some memory
  /-- Unless the start function has trapped, every global is what it was before. -/
  globals_eq : ¬ e.IsStartTrap → ∀ (g : Nat) (global : Global), s.globals[g]? = some global →
    s'.globals[g]? = some global

/-- Instantiating a module is atomic: if it returns an error, whatever the loaded module, the
resolver, the configuration and the store with right accounts are, and whatever its allocators have
handed out besides the pages of memories, then what it has taken is given back, and what belongs to
others is as it was. The functions of the embedder may do what they like, but make, attach and let
go of no memory. -/
theorem instantiate_atomic {bytes : List UInt8} {ending : Ending}
    (hload : Module.load bytes ending = .ok m) (hgrounded : c.Grounded s) {outside : Nat → Nat}
    (haccounted : s.Accounted outside) (hacts : host.Acts fuel fun _ => True)
    (hspares : ∀ call, Moves Store.Spares (host.call (Engine.invoke host fuel nesting) call))
    {e : InstantiateError}
    (herror : Engine.instantiate host fuel nesting m resolver c s = .error e s')
    (hreturned : ∀ crash, e ≠ .crashed crash) :
    Engine.Undone outside host (Engine.invoke host fuel nesting) m resolver c e s s' := by
  have hkeeps : s.KeepsAccounts s' := by
    have hkept : s.KeepsAccounts
        (finalState (Engine.instantiate host fuel nesting m resolver c s)) :=
      Engine.instantiate_keepsAccounts hgrounded
        (hacts.moves (Action.allowed_keepsAccounts host fuel) nesting).1
    rwa [herror] at hkept
  have hrestored :=
    Engine.instantiate_restores (Module.valid_of_load hload) hspares herror hreturned
  have hbefore (i : Nat) : s.pagesOf i = s.pagesOfFirst s.memories.size i := by
    refine Store.pagesOf_eq_pagesOfFirst (fun p memory hp hplace => ?_) i
    rw [Array.getElem?_eq_none hp] at hplace
    cases hplace
  -- Pages outside of the memories are the same before and after, so only those of the memories are
  -- compared, and there the ones that are new are empty.
  have hused (i : Nat) (hbudgeted : s'.Budgeted i) : s.usedAt i = outside i + s.pagesOf i ∧
      s'.usedAt i = outside i + s'.pagesOfFirst s.memories.size i := by
    refine ⟨hkeeps.usedAt_eq haccounted hbudgeted, ?_⟩
    rw [(hkeeps.accounted haccounted).usedAt_eq hbudgeted,
      Store.pagesOf_eq_pagesOfFirst hrestored.empty i]
  refine ⟨hrestored.instances_size, fun i hbudgeted => ?used, fun hhost i => ?pages,
    fun p memory hplace => ?attached,
    hrestored.memories_eq, hrestored.globals_eq⟩
  case used => rw [← hbefore]; exact hused i hbudgeted
  case attached =>
    obtain ⟨bytes, hkept⟩ := hrestored.kept p memory hplace
    exact ⟨_, hkept, rfl⟩
  case pages =>
    by_cases hbudgeted : s'.Budgeted i
    swap
    · rw [Store.usedAt_eq_zero hbudgeted,
        Store.usedAt_eq_zero fun hbudget => hbudgeted (hkeeps.budgeted hbudget)]
      exact .inl rfl
    -- At most the imported memory has another size: the start function may have grown it before it
    -- trapped.
    obtain ⟨resized, hsizes, hresized⟩ := hrestored.sizes hhost
    have hkept (p : Nat) (memory : Memory) (hplace : s.memories[p]? = some memory) :
        ∃ memory', s'.memories[p]? = some memory' ∧ memory'.allocator = memory.allocator ∧
          (resized ≠ some p → memory'.size = memory.size) := by
      obtain ⟨bytes, hplace'⟩ := hrestored.kept p memory hplace
      exact ⟨_, hplace', rfl, hsizes p memory _ hplace hplace'⟩
    rw [(hused i hbudgeted).1, (hused i hbudgeted).2]
    obtain hsame | ⟨p, memory, memory', hp, hplace, hallocator, hplace', hsum⟩ :=
      Store.pagesOfFirst_eq hkept i
    · exact .inl (congrArg (outside i + ·) hsame)
    · obtain ⟨htrap, c', hcheck, hsupplied⟩ := hresized p memory hp hplace
      exact .inr ⟨htrap, c', p, memory, memory', hcheck, hsupplied, hplace, hallocator,
        hplace', by omega⟩

end

/-- A module that imports a memory, lets it grow by a page in its start function, and traps. -/
def growingStart : List UInt8 :=
  [0, 0x61, 0x73, 0x6d, 1, 0, 0, 0, 1, 4, 1, 0x60, 0, 0,
    2, 10, 1, 3, 0x65, 0x6e, 0x76, 1, 0x6d, 2, 0, 0, 3, 2, 1, 0, 8, 1, 0,
    10, 10, 1, 8, 0, 0x41, 1, 0x40, 0, 0x1a, 0, 0x0b]

/-- A store with one memory, which has no pages yet. Its allocator has handed out one page all the
same. -/
def emptyMemory : Store Unit Unit where
  allocators := #[{ budget := some { limit := 4, used := 1 } }]
  memories := #[{ declared := {}, cap := 65536, allocator := 0, bytes := .empty }]
  host := ()

/-- A resolver that knows one memory only. -/
def firstMemory : Resolver Unit Unit where
  function _ _ _ _ := .error (.notFound "")
  memory _ _ _ _ := .ok 0
  global _ _ _ _ := .error (.notFound "")

/-- A start function that grows an imported memory and then traps. -/
theorem instantiate_atomic_growingStart :
    ∃ m e s', Module.load growingStart .eof = .ok m ∧
      Config.Grounded { allocator := some (.shared 0) } emptyMemory ∧
      (emptyMemory.Accounted fun i => if i = 0 then 1 else 0) ∧
      growingHost.Acts 5 (fun _ => True) ∧
      (∀ call, Moves Store.Spares (growingHost.call (Engine.invoke growingHost 5 1) call)) ∧
      Engine.instantiate growingHost 5 1 m (some firstMemory) { allocator := some (.shared 0) }
        emptyMemory = .error e s' ∧ e.IsStartTrap ∧ (∀ crash, e ≠ .crashed crash) ∧
      Engine.Undone (fun i => if i = 0 then 1 else 0) growingHost (Engine.invoke growingHost 5 1) m
        (some firstMemory) { allocator := some (.shared 0) } e emptyMemory s' := by
  have htraps : (((Module.load growingStart .eof).toOption.bind fun m =>
      failed (Engine.instantiate growingHost 5 1 m (some firstMemory)
        { allocator := some (.shared 0) } emptyMemory)).map (·.1)) =
      some (.link ⟨"", "", .start ⟨.unreachable, 0, 3, none⟩⟩) := by decide +kernel
  obtain ⟨⟨_, s'⟩, hfailed, rfl⟩ := Option.map_eq_some_iff.mp htraps
  obtain ⟨m, hload, hfailed⟩ := Option.bind_eq_some_iff.mp hfailed
  have herror := failed_eq_some.mp hfailed
  have hload : Module.load growingStart .eof = .ok m := except_toOption_eq_some.mp hload
  have hgrounded : Config.Grounded { allocator := some (.shared 0) } emptyMemory :=
    Nat.zero_lt_one
  have haccounted : emptyMemory.Accounted fun i => if i = 0 then 1 else 0 := by
    refine ⟨?_, ?_, fun i hi => if_neg (Nat.pos_iff_ne_zero.mp hi), fun i a ha b hb => ?_⟩
    · simp only [emptyMemory, List.mem_toArray, List.mem_singleton, forall_eq]
      exact ⟨by decide, by decide⟩
    · simp [emptyMemory]
    · obtain ⟨rfl, rfl⟩ :
          i = 0 ∧ ({ budget := some { limit := 4, used := 1 } } : Allocator) = a := by
        simpa [emptyMemory, List.getElem?_singleton] using ha
      cases hb
      exact ⟨by decide, by decide⟩
  have hspares (call : HostCall Unit) :
      Moves Store.Spares (growingHost.call (Engine.invoke growingHost 5 1) call) := fun s =>
    Store.Spares.growMemory s 0 1
  exact ⟨m, _, s', hload, hgrounded, haccounted, growingHost_acts 5 trivial, hspares, herror,
    ⟨_, rfl, rfl⟩, nofun,
    instantiate_atomic hload hgrounded haccounted (growingHost_acts 5 trivial) hspares herror nofun⟩

end IntWasm
