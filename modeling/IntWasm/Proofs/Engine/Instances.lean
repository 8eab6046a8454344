import IntWasm.Host.Bindings
import IntWasm.Proofs.Engine.Accounts
import IntWasm.Proofs.Engine.Extension
import IntWasm.Proofs.Module.Functions

/-!
# What an instance is made of

Each stage of building an instance provides something that the module has declared: functions for
its imports, places of globals, a memory, a table whose slots hold functions of the module. An
instance that was built has all of them, so its code finds what it relies on, and it goes on finding
it while the start function runs. Main statement: `Engine.instantiate_serves`.
-/

namespace IntWasm

open Structured

variable {H σ : Type}

/-- A resolver that, in stores with at least `n` memories, answers only with memories that are
there. -/
def Resolver.Grounded (r : Resolver H σ) (n : Nat) : Prop :=
  ∀ (s : Store H σ) moduleName name limits p, n ≤ s.memories.size →
    r.memory s moduleName name limits = .ok p → p < s.memories.size

/-- A memory that bindings answer with is bound. -/
theorem Bindings.mem_memories_of_memory {b : Bindings H} {s : Store H σ} {moduleName name : String}
    {limits : Limits} {p : Nat} (hok : b.memory s moduleName name limits = .ok p) :
    (key moduleName name, p) ∈ b.memories := by
  simp only [memory] at hok
  split at hok
  · cases hok
  · rename_i address hlookup
    split at hok
    · obtain rfl := Except.ok.inj hok
      obtain ⟨before, after, heq, -⟩ := List.lookup_eq_some_iff.mp hlookup
      rw [heq]
      simp
    · cases hok

/-- Bindings of memories that are in a store. -/
theorem Bindings.resolver_grounded {b : Bindings H} {n : Nat}
    (hmemories : ∀ d ∈ b.memories, d.2 < n) : (b.resolver : Resolver H σ).Grounded n := by
  intro s moduleName name limits p hle hok
  exact Nat.lt_of_lt_of_le (hmemories _ (mem_memories_of_memory hok)) hle

/-! ## What is provided so far -/

/-- An instance that is being built has the types and functions of a module, imported functions with
given type indices, globals of given types and, if any memory is declared so far, a memory. There
are at least `n` memories. -/
structure Linking.Provides (m : Module) (n : Nat) (functions : List UInt32)
    (globals : List GlobalType) (memories : Nat) (l : Linking H σ) : Prop where
  types_eq : l.inst.types = (m.types.getD []).toArray
  functions_eq : m.compile = .ok l.inst.functions.toList
  imports_eq : l.inst.imports.toList.map (fun f => some f.type) = functions.map m.type?
  globals : List.Forall₂ (fun p type => ∃ g, l.store.globals[p]? = some g ∧ g.type = type)
    l.inst.globals.toList globals
  memory : 0 < memories → ∃ p, l.inst.memory = some p ∧ p < l.store.memories.size
  size_ge : n ≤ l.store.memories.size

/-- One more entry on both sides. -/
theorem forall₂_push {α β : Type} {R : α → β → Prop} {entries : Array α} {bs : List β}
    (hall : List.Forall₂ R entries.toList bs) {a : α} {b : β} (hab : R a b) :
    List.Forall₂ R (entries.push a).toList (bs ++ [b]) := by
  rw [Array.toList_push]
  exact List.rel_append hall (.cons hab .nil)

/-- The first entry and the others. -/
theorem filterMap_cons_toList {α β : Type} (f : α → Option β) (a : α) (rest : List α) :
    (a :: rest).filterMap f = (f a).toList ++ rest.filterMap f := by
  rw [List.filterMap_cons]
  cases f a <;> rfl

namespace Linking.Provides

variable {m : Module} {n memories : Nat} {functions : List UInt32} {globals : List GlobalType}
  {l : Linking H σ} {resolver : Option (Resolver H σ)}

/-- What an import declares is provided. -/
theorem importEntry (hprovides : l.Provides m n functions globals memories)
    (hgrounded : ∀ r, resolver = some r → r.Grounded n) (i : Import) :
    Leads (Link.importEntry resolver i) l
      (fun _ l' => l'.Provides m n (functions ++ (Module.functionImport? i).toList)
        (globals ++ (Module.globalImport? i).toList)
        (memories + (Module.memoryImport? i).toList.length))
      fun _ _ => True := by
  refine (Link.importEntry_leads resolver i l).weaken (fun _ l' hbinds => ?_) fun _ _ _ => trivial
  cases hbinds with
  | function htype hf =>
    simp only [Module.functionImport?, Module.globalImport?, Module.memoryImport?, htype,
      Option.toList_some, Option.toList_none, List.append_nil, List.length_nil, Nat.add_zero]
    refine { hprovides with imports_eq := ?_ }
    rw [hprovides.types_eq, List.getElem?_toArray] at hf
    rw [Array.toList_push, List.map_append, List.map_append, hprovides.imports_eq]
    simp only [List.map_cons, List.map_nil, Module.type?, hf]
  | @memory r limits p htype hresolver hfound =>
    simp only [Module.functionImport?, Module.globalImport?, htype, Option.toList_none,
      List.append_nil]
    have hlt := hgrounded r hresolver _ _ _ _ p hprovides.size_ge hfound
    refine { hprovides with memory := fun _ => ⟨p, rfl, ?_⟩, size_ge := ?_ }
    · simpa [Store.modifyMemory] using hlt
    · simpa [Store.modifyMemory] using hprovides.size_ge
  | global htype hglobal hsame =>
    simp only [Module.functionImport?, Module.globalImport?, Module.memoryImport?, htype,
      Option.toList_some, Option.toList_none, List.append_nil, List.length_nil, Nat.add_zero]
    exact { hprovides with globals := forall₂_push hprovides.globals ⟨_, hglobal, hsame⟩ }

/-- What all imports declare is provided. -/
theorem importEntries (hprovides : l.Provides m n functions globals memories)
    (hgrounded : ∀ r, resolver = some r → r.Grounded n) (k : Nat) (entries : List Import) :
    Leads (Link.forEachFrom (fun _ i => Link.importEntry resolver i) k entries) l
      (fun _ l' => l'.Provides m n (functions ++ entries.filterMap Module.functionImport?)
        (globals ++ entries.filterMap Module.globalImport?)
        (memories + (entries.filterMap Module.memoryImport?).length))
      fun _ _ => True := by
  induction entries generalizing l k functions globals memories with
  | nil =>
    show Linking.Provides m n (functions ++ []) (globals ++ []) memories l
    rwa [List.append_nil, List.append_nil]
  | cons i entries ih =>
    refine (hprovides.importEntry hgrounded i).bind fun _ l' hl' => (ih hl' (k + 1)).weaken ?_
      fun _ _ _ => trivial
    intro _ l'' hl''
    simp only [filterMap_cons_toList, List.length_append, ← List.append_assoc, ← Nat.add_assoc]
    exact hl''

/-- The globals of the module's own are provided. -/
theorem defineGlobals (hprovides : l.Provides m n functions globals memories)
    (imported : List Value) (k : Nat) (entries : List GlobalDef) :
    Leads (Link.forEachFrom (Link.defineGlobal imported) k entries) l
      (fun _ l' => l'.Provides m n functions (globals ++ entries.map (·.type)) memories)
      fun _ _ => True := by
  induction entries generalizing l k globals with
  | nil =>
    show Linking.Provides m n functions (globals ++ []) memories l
    rwa [List.append_nil]
  | cons d entries ih =>
    have hfirst : Leads (Link.defineGlobal imported k d) l
        (fun _ l' => l'.Provides m n functions (globals ++ [d.type]) memories) fun _ _ => True := by
      refine (Link.defineGlobal_leads imported k d l).weaken ?_ fun _ _ _ => trivial
      rintro _ _ ⟨v, -, rfl⟩
      refine { hprovides with globals := forall₂_push (hprovides.globals.imp ?_) ?_ }
      · rintro p type ⟨g, hg, hsame⟩
        exact ⟨g, getElem?_push_of_some hg, hsame⟩
      · exact ⟨.new d.type v, by simp [Store.addGlobal], rfl⟩
    refine hfirst.bind fun _ l' hl' => ?_
    have hrest := ih hl' (k + 1)
    rwa [List.append_assoc, List.singleton_append] at hrest

/-- The memory of the module's own is provided. -/
theorem declareMemory (hprovides : l.Provides m n functions globals memories) (allocator : Nat) :
    Leads (Link.declareMemory allocator m) l
      (fun _ l' => l'.Provides m n functions globals (memories + (m.memories.getD []).length))
      fun _ _ => True := by
  unfold Link.declareMemory
  cases hmemories : m.memories.getD [] with
  | nil => exact hprovides
  | cons limits rest =>
    refine (Link.allocateMemory_leads allocator limits l).weaken ?_ fun _ _ _ => trivial
    rintro _ ⟨store, inst⟩ ⟨⟨memory, a, -, hpush⟩, hglobals, -, hinst⟩
    simp only at hpush hglobals hinst
    subst hinst
    have hsize : store.memories.size = l.store.memories.size + 1 := by rw [hpush, Array.size_push]
    refine ⟨hprovides.types_eq, hprovides.functions_eq, hprovides.imports_eq, ?_,
      fun _ => ⟨_, rfl, ?_⟩, ?_⟩
    · simp only [hglobals]
      exact hprovides.globals
    · simp only [hsize]
      exact Nat.lt_succ_self _
    · exact Nat.le_trans hprovides.size_ge (by simp only [hsize]; omega)

/-- The table does not matter. -/
theorem withTable (hprovides : l.Provides m n functions globals memories) (table : Option Table) :
    Linking.Provides m n functions globals memories { l with inst := { l.inst with table } } :=
  ⟨hprovides.types_eq, hprovides.functions_eq, hprovides.imports_eq, hprovides.globals,
    hprovides.memory, hprovides.size_ge⟩

/-- The exports do not matter. -/
theorem withExports (hprovides : l.Provides m n functions globals memories)
    (exports : List Export) :
    Linking.Provides m n functions globals memories { l with inst := { l.inst with exports } } :=
  ⟨hprovides.types_eq, hprovides.functions_eq, hprovides.imports_eq, hprovides.globals,
    hprovides.memory, hprovides.size_ge⟩

/-- The bytes and functions of segments do not matter. -/
theorem placed (hprovides : l.Provides m n functions globals memories)
    (place : ByteArray → ByteArray) (fill : Table → Table) :
    Linking.Provides m n functions globals memories
      ⟨match l.inst.memory with
        | none => l.store
        | some address =>
          l.store.modifyMemory address fun memory => { memory with bytes := place memory.bytes },
        { l.inst with table := l.inst.table.map fill }⟩ := by
  have hstores {store : Store H σ} (hglobals : store.globals = l.store.globals)
      (hmemories : store.memories.size = l.store.memories.size) :
      Linking.Provides m n functions globals memories
        ⟨store, { l.inst with table := l.inst.table.map fill }⟩ := by
    refine ⟨hprovides.types_eq, hprovides.functions_eq, hprovides.imports_eq, ?_, ?_, ?_⟩
    · simp only [hglobals]
      exact hprovides.globals
    · simp only [hmemories]
      exact hprovides.memory
    · simp only [hmemories]
      exact hprovides.size_ge
  cases l.inst.memory with
  | none => exact hstores rfl rfl
  | some p => exact hstores rfl (by simp [Store.modifyMemory])

end Linking.Provides

/-- An instance that is being built has the table that its module declares, and the functions in it
are those of the module. -/
def Linking.Tabled (m : Module) (l : Linking H σ) : Prop :=
  0 < m.tableCount → ∃ table, l.inst.table = some table ∧
    table.Holds fun f => (m.functionType? f).isSome

/-- A table is declared as the module says and nothing else changes. -/
theorem Link.declareTable_leads (m : Module) (l : Linking H σ) :
    Leads (declareTable m) l
      (fun _ l' => l'.Tabled m ∧ ∃ table, l' = { l with inst := { l.inst with table } })
      fun _ _ => True := by
  unfold declareTable
  cases htables : m.tables.getD [] with
  | nil =>
    refine ⟨fun hcount => ?_, l.inst.table, rfl⟩
    simp [Module.tableCount, htables] at hcount
  | cons t rest =>
    refine ⟨fun _ => ⟨_, rfl, Table.holds_new _ _⟩, _, rfl⟩

/-! ## Instances that are ready -/

/-- An instance has all that a module relies on, in a store: the module's functions, functions of
the right types for its imports, globals, a memory and a table as they were declared, and its
exports. -/
structure Instance.Serves (inst : Instance H) (m : Module) (store : Store H σ) : Prop where
  implements : inst.Implements m
  supports : Supports m inst store
  exports_eq : inst.exports = m.exports.getD []

namespace Instance.Serves

variable {inst : Instance H} {m : Module} {s s' : Store H σ}

/-- An instance serves its module in a store that extends this one. -/
theorem mono (hserves : inst.Serves m s) (hextends : s.Extends s') : inst.Serves m s' :=
  { hserves with supports := hserves.supports.mono hextends }

/-- The machine that waits for the next invocation does not matter. -/
theorem idle (hserves : inst.Serves m s) (slot : Option UInt64) :
    { inst with idle := slot }.Serves m s where
  implements := ⟨hserves.implements.types_eq, hserves.implements.functions_eq,
    hserves.implements.imports_eq⟩
  supports := ⟨hserves.supports.global, hserves.supports.memory, hserves.supports.table⟩
  exports_eq := hserves.exports_eq

end Instance.Serves

/-- An instance that was provided with everything is ready. -/
theorem Linking.Provides.serves {m : Module} (hvalid : m.Valid) {n : Nat} {l : Linking H σ}
    (hprovides : l.Provides m n m.importedFunctions
      (m.importedGlobals ++ (m.globals.getD []).map (·.type)) m.memoryCount)
    (htabled : l.Tabled m) (hexports : l.inst.exports = m.exports.getD []) :
    l.inst.Serves m l.store := by
  have himpl : l.inst.Implements m :=
    ⟨hprovides.types_eq, hprovides.functions_eq, hprovides.imports_eq⟩
  refine ⟨himpl, ⟨fun {i type} htype => ?_, fun hmemory => ?_, fun htable => ?_⟩, hexports⟩
  · rw [Module.scope_globalType] at htype
    obtain ⟨p, hp, g, hglobal, hsame⟩ := forall₂_getElem? hprovides.globals htype
    exact ⟨p, g, by rwa [Array.getElem?_toList] at hp, hglobal, hsame⟩
  · obtain ⟨p, hp, hlt⟩ := hprovides.memory (by simpa using hmemory)
    exact ⟨p, _, hp, Array.getElem?_eq_getElem hlt⟩
  · obtain ⟨table, htable, hholds⟩ := htabled (by simpa using htable)
    refine ⟨table, htable, fun slot function hlookup => ?_⟩
    rw [himpl.signature?_eq hvalid]
    exact hholds slot function hlookup

/-! ## Building -/

section

variable {host : Host H σ} {invoker : Invoker H σ} {fuel : Nat} {m : Module}
  {resolver : Option (Resolver H σ)} {l : Linking H σ}

/-- An instance that has its functions, but no imports and globals yet. -/
theorem Linking.provides_functions (hempty : l.inst.imports = #[] ∧ l.inst.globals = #[])
    {functions : List Function} (hcompile : m.compile = .ok functions) :
    Linking.Provides m l.store.memories.size [] [] 0
      ⟨l.store, { l.inst with
        name := m.ownName, types := (m.types.getD []).toArray, functions :=
          functions.toArray }⟩ := by
  refine ⟨rfl, by simpa using hcompile, by simp [hempty.1], ?_,
    fun h => absurd h (Nat.lt_irrefl 0), Nat.le_refl _⟩
  simp only [hempty.2]
  exact .nil

/-- Definitions that were bound provide the module's functions and globals. -/
theorem Link.bindDefinitions_provides
    (hgrounded : ∀ r, resolver = some r → r.Grounded l.store.memories.size)
    (hempty : l.inst.imports = #[] ∧ l.inst.globals = #[]) :
    Leads (bindDefinitions m resolver) l
      (fun _ l' => l'.Provides m l.store.memories.size m.importedFunctions
        (m.importedGlobals ++ (m.globals.getD []).map (·.type)) m.importedMemories.length)
      fun _ _ => True := by
  unfold bindDefinitions
  cases hcompile : m.compile with
  | error e => exact trivial
  | ok functions =>
    have hbegun := Linking.provides_functions hempty hcompile
    refine Leads.after rfl (Leads.after rfl ?_)
    refine (hbegun.importEntries hgrounded 0 m.importList).bind fun _ l₁ hl₁ => ?_
    rw [List.nil_append, List.nil_append, Nat.zero_add] at hl₁
    exact Leads.after rfl (hl₁.defineGlobals _ 0 (m.globals.getD []))

/-- The segments and the exports make an instance ready. -/
theorem Linking.Provides.placeSegments (hvalid : m.Valid) {n : Nat}
    (hprovides : l.Provides m n m.importedFunctions
      (m.importedGlobals ++ (m.globals.getD []).map (·.type)) m.memoryCount)
    (htabled : l.Tabled m) :
    Leads (do
        Link.placeSegments m
        Link.modifyInstance ({ · with exports := m.exports.getD [] }) : Link H σ Unit) l
      (fun _ l' => l'.inst.Serves m l'.store) fun _ _ => True := by
  have hplaced : Leads (Link.placeSegments m) l (fun _ l' => l'.Provides m n m.importedFunctions
      (m.importedGlobals ++ (m.globals.getD []).map (·.type)) m.memoryCount ∧ l'.Tabled m)
      fun _ _ => True := by
    refine (Link.placeSegments_leads m l).weaken ?_ fun _ _ _ => trivial
    rintro _ _ ⟨place, -, fill, hfill, rfl⟩
    refine ⟨hprovides.placed place fill, fun hcount => ?_⟩
    obtain ⟨table, htable, hholds⟩ := htabled hcount
    exact ⟨fill table, by simp [htable], hfill _ hvalid.elements table hholds⟩
  refine hplaced.bind ?_
  rintro _ l' ⟨hprovides', htabled'⟩
  exact (hprovides'.withExports (m.exports.getD [])).serves hvalid htabled' rfl

/-- The start function leaves an instance as it is but for its waiting machine. -/
theorem Link.runStart_serves {place : Nat}
    (hhost : ∀ c, Moves (Store.Keeps place) (host.call invoker c))
    (hserves : l.inst.Serves m l.store) :
    Leads (runStart host invoker fuel m) l (fun _ l' => l'.inst.Serves m l'.store)
      fun _ _ => True := by
  unfold runStart
  cases m.start with
  | none => exact hserves
  | some function =>
    have hmoves : l.store.Keeps place (finalState (start host invoker fuel function l)).store :=
      start_moves (l.inst.allows_keeps place) hhost function
    unfold Leads
    simp only
    cases hresult : start host invoker fuel function l with
    | error e l' => exact trivial
    | ok _ l' =>
      rw [hresult] at hmoves
      unfold start at hresult
      simp only at hresult
      split at hresult
      · obtain ⟨-, rfl⟩ := EStateM.Result.ok.inj hresult
        exact (hserves.mono hmoves.toExtends).idle _
      · cases hresult
      · cases hresult
      · cases hresult

/-- An instance that was built is ready. -/
theorem Link.build_serves {place allocator : Nat} (hvalid : m.Valid)
    (hhost : ∀ c, Moves (Store.Keeps place) (host.call invoker c))
    (hgrounded : ∀ r, resolver = some r → r.Grounded l.store.memories.size)
    (hempty : l.inst.imports = #[] ∧ l.inst.globals = #[]) :
    Leads (build host invoker fuel m resolver allocator) l
      (fun _ l' => l'.inst.Serves m l'.store) fun _ _ => True := by
  rw [build_eq]
  refine (bindDefinitions_provides hgrounded hempty).bind fun _ l₁ hl₁ => ?_
  refine (hl₁.declareMemory allocator).bind fun _ l₂ hl₂ => ?_
  refine (declareTable_leads m l₂).bind ?_
  rintro _ _ ⟨htabled, table, rfl⟩
  have hlast (l₃ : Linking H σ) (hl₃ : l₃.inst.Serves m l₃.store) :
      Leads (runStart host invoker fuel m) l₃ (fun _ l' => l'.inst.Serves m l'.store)
        fun _ _ => True := runStart_serves hhost hl₃
  have hall := ((hl₂.withTable table).placeSegments hvalid htabled).bind
    fun _ l₃ hl₃ => hlast l₃ hl₃
  rwa [bind_assoc] at hall

end

/-- An instance keeps its configuration, is left as open or closed as it is, and has a machine only
if it had one or could make it. -/
structure Linking.KeepsSettings (l l' : Linking H σ) : Prop where
  config_eq : l'.inst.config = l.inst.config
  closed_eq : l'.inst.closed = l.inst.closed
  machine : l'.inst.idle.isSome → l.inst.HasMachine

/-- Settings that are the same are kept. -/
theorem Linking.KeepsSettings.of_eq {l l' : Linking H σ} (hconfig : l'.inst.config = l.inst.config)
    (hclosed : l'.inst.closed = l.inst.closed) (hidle : l'.inst.idle = l.inst.idle) :
    l.KeepsSettings l' :=
  ⟨hconfig, hclosed, fun hsome => .inl (hidle ▸ hsome)⟩

/-- Building an instance keeps its settings. -/
theorem Link.allows_keepsSettings (host : Host H σ) (invoker : Invoker H σ) (fuel : Nat)
    (resolver : Option (Resolver H σ)) (allocator : Nat) :
    Link.Allows host invoker fuel resolver allocator Linking.KeepsSettings where
  refl _ := .of_eq rfl rfl rfl
  trans _ _ _ hfirst hsecond :=
    ⟨hsecond.config_eq.trans hfirst.config_eq, hsecond.closed_eq.trans hfirst.closed_eq,
      fun hsome => (hsecond.machine hsome).elim hfirst.machine
        fun hfit => .inr (hfirst.config_eq ▸ hfit)⟩
  touches {l l'} htouches := by
    cases htouches with
    | inst hconfig _ _ hclosed hidle => exact .of_eq hconfig hclosed hidle
    | attach => exact .of_eq rfl rfl rfl
    | global => exact .of_eq rfl rfl rfl
    | segments => exact .of_eq rfl rfl rfl
    | allocate limits =>
      unfold allocateMemory
      simp only
      split <;> exact .of_eq rfl rfl rfl
  start function l := by
    unfold start
    simp only
    split
    · exact ⟨rfl, rfl, Instance.hasMachine_of_call rfl⟩
    all_goals exact .of_eq rfl rfl rfl

/-- The instance that instantiating a valid module gives is at its place in the store and open. It
has a checked configuration and all that the module relies on, and a machine waits for it only if
one could be made. -/
theorem Engine.instantiate_serves {host : Host H σ} {fuel nesting : Nat} {m : Module}
    (hvalid : m.Valid) {resolver : Option (Resolver H σ)} {config : Config} {s s' : Store H σ}
    {address place : Nat}
    (hhost : ∀ c, Moves (Store.Keeps place) (host.call (invoke host fuel nesting) c))
    (hgrounded : ∀ r, resolver = some r → r.Grounded s.memories.size)
    (hok : instantiate host fuel nesting m resolver config s = .ok address s') :
    ∃ inst, s'.instances[address]? = some inst ∧ config.check = .ok inst.config ∧
      inst.closed = false ∧ (inst.idle.isSome → inst.config.stacksFit) ∧ inst.Serves m s' := by
  unfold instantiate at hok
  cases hcheck : config.check with
  | error fault => simp [hcheck] at hok
  | ok c =>
    simp only [hcheck] at hok
    have hsize : (placeAllocator c s).2.memories.size = s.memories.size := by
      unfold placeAllocator
      split <;> rfl
    have hbuild : Leads
        (Link.build host (invoke host fuel nesting) fuel m resolver (placeAllocator c s).1)
        ⟨(placeAllocator c s).2, { config := c }⟩ (fun _ l' => l'.inst.Serves m l'.store)
        fun _ _ => True :=
      Link.build_serves hvalid hhost (fun r hr => hsize ▸ hgrounded r hr) ⟨rfl, rfl⟩
    have hkept := Link.build_moves
      (Link.allows_keepsSettings host (invoke host fuel nesting) fuel resolver
        (placeAllocator c s).1)
      m ⟨(placeAllocator c s).2, { config := c }⟩
    unfold Leads at hbuild
    cases hresult : Link.build host (invoke host fuel nesting) fuel m resolver
        (placeAllocator c s).1 ⟨(placeAllocator c s).2, { config := c }⟩ with
    | error e l =>
      simp only [hresult] at hok
      cases e <;> cases hok
    | ok _ l =>
      rw [hresult] at hbuild hkept
      obtain ⟨hconfig, hopen, hmachine⟩ := hkept
      simp only [hresult] at hok
      obtain ⟨rfl, rfl⟩ := EStateM.Result.ok.inj hok
      -- The instance is added to the store, and a counter is raised; neither takes anything away.
      have hadded : l.store.Keeps place (l.store.addInstance l.inst).2 := .addInstance _ _
      have hcounted := (l.inst.allows_keeps place).count (l.store.addInstance l.inst).2 c
        (Counters.instantiation "ok")
      have hinstances : ((l.store.addInstance l.inst).2.count c
          (Counters.instantiation "ok")).instances = l.store.instances.push l.inst := by
        unfold Store.count
        split <;> rfl
      have hfits : l.inst.idle.isSome → l.inst.config.stacksFit := fun hsome =>
        hconfig ▸ (hmachine hsome).resolve_left (by simp)
      refine ⟨l.inst, ?_, congrArg Except.ok hconfig.symm, hopen, hfits,
        hbuild.mono (hadded.trans hcounted).toExtends⟩
      rw [hinstances]
      simp [Store.addInstance]

/-- A module whose function `sum` adds up the numbers from its argument down to one, in a loop. -/
def summing : List UInt8 :=
  [0, 0x61, 0x73, 0x6d, 1, 0, 0, 0, 1, 6, 1, 0x60, 1, 0x7f, 1, 0x7f, 3, 2, 1, 0,
    7, 7, 1, 3, 0x73, 0x75, 0x6d, 0, 0,
    10, 27, 1, 25, 1, 1, 0x7f, 0x03, 0x40, 0x20, 1, 0x20, 0, 0x6a, 0x21, 1,
    0x20, 0, 0x41, 1, 0x6b, 0x22, 0, 0x0d, 0, 0x0b, 0x20, 1, 0x0b]

/-- A store with nothing in it. -/
def bareStore : Store Unit Unit := { host := () }

end IntWasm
