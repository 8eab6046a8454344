import IntWasm.Proofs.Engine.Globals
import IntWasm.Proofs.Module.IndexSpaces

/-!
# Index spaces of instances

Linking numbers what an instance is given and what it makes in the order in which its module numbers
its imports and its own definitions. So an index has the same signature and type wherever it is
looked up: in the module, in the scope that its bodies were checked in, and in any instance of it,
for as long as there is one. No export of a function or a global leads nowhere. Main statement:
`index_spaces_agree`.
-/

namespace IntWasm

variable {H σ : Type}

/-! ## What instances match -/

/-- An instance has what its module declares, each kind in order: functions, globals, exports, a
table, and a memory unless it was closed. -/
structure Instance.Matches (inst : Instance H) (m : Module) (s : Store H σ) : Prop where
  implements : inst.Implements m
  globals : List.Forall₂ (fun p type => ∃ g, s.globals[p]? = some g ∧ g.type = type)
    inst.globals.toList (m.importedGlobals ++ (m.globals.getD []).map (·.type))
  memory : inst.memory.isSome = (!inst.closed && decide (0 < m.memoryCount))
  memory_lt : ∀ p, inst.memory = some p → p < s.memories.size
  table : inst.table.isSome = decide (0 < m.tableCount)
  exports_eq : inst.exports = m.exports.getD []

/-- A function was made from a body: it has the body's locals behind its parameters, and the code
that checking the body gives. -/
structure Function.IsMade (fn : Function) (m : Module) (body : FuncBody) : Prop where
  locals_eq : fn.locals = LocalGroup.total (Module.localGroups fn.type body)
  body_eq : Body.check (m.scope (Module.localGroups fn.type body)) fn.type.results body.offset
    body.code = .ok fn.body

/-- What an index stands for in an instance and its store is what it stands for in the module and in
the scope of its bodies. Only closing an instance takes something away, which is its memory. -/
structure Instance.Indexes (inst : Instance H) (m : Module) (s : Store H σ) : Prop where
  signature : ∀ i, inst.signature? i = m.functionType? i
  /-- Behind the imported functions are those that were made from the bodies, and calls of them
  enter these. -/
  body : ∀ i : UInt32, m.importedFunctions.length ≤ i.toNat → i.toNat < m.functionCount →
    ∃ body fn, (m.code.getD [])[i.toNat - m.importedFunctions.length]? = some body ∧
      fn.IsMade m body ∧ fn.index = i ∧ m.functionType? i = some fn.type ∧
      (Run.call inst i : Run H σ (Progress H)) = do
        Run.enterFunction inst fn
        return .more
  globalType : ∀ locals (i : UInt32),
    ((inst.globals[i.toNat]?).bind fun p => (s.globals[p]?).map (·.type)) =
    (m.scope locals).globalType i
  size_globals : inst.globals.size = m.importedGlobals.length + (m.globals.getD []).length
  memory : ∀ locals, inst.memory.isSome = (!inst.closed && (m.scope locals).hasMemory)
  memory_lt : ∀ p, inst.memory = some p → p < s.memories.size
  table : ∀ locals, inst.table.isSome = (m.scope locals).hasTable

/-- Every export of a function or a global of the instance at a place is found, with what the module
says of its index. An invocation of such a function is refused or calls it. -/
structure Store.Resolves (s : Store H σ) (m : Module) (place : Nat) : Prop where
  function : ∀ e ∈ m.exports.getD [], e.kind = .function →
    ∃ type, m.functionType? e.index = some type ∧
    Engine.functionType s place e.name = .ok type ∧ ∀ inst, s.instances[place]? =
      some inst → ∀ args, (∃ refusal, inst.prepare e.name args = .error (.refused refusal)) ∨
        ∃ words, inst.prepare e.name args = .ok (e.index, type, words)
  global : ∀ e ∈ m.exports.getD [], e.kind = .global →
    ∃ p g, Engine.exportedGlobal s place e.name = .ok p ∧
    s.globals[p]? = some g ∧ ∀ locals, (m.scope locals).globalType e.index = some g.type

/-- An invocation of a function that is exported and has a signature does not break down before it
begins. -/
theorem Instance.prepare_of_require {inst : Instance H} {name : String} {e : Export}
    {type : FuncType} (hfound : inst.require name .function = .ok e)
    (hsignature : inst.signature? e.index = some type) (args : List Value) :
    (∃ refusal, inst.prepare name args = .error (.refused refusal)) ∨
      ∃ words, inst.prepare name args = .ok (e.index, type, words) := by
  simp only [prepare, hfound, hsignature, Except.mapError, bind, Except.bind, throw, throwThe,
    MonadExceptOf.throw, pure, Except.pure]
  split
  · exact .inl ⟨_, rfl⟩
  · split
    · exact .inl ⟨_, rfl⟩
    · cases checkArgs name 0 type.params args with
      | error refusal => exact .inl ⟨refusal, rfl⟩
      | ok words => exact .inr ⟨words, rfl⟩

/-- Entries that stand for values have these at the same indices. -/
theorem forall₂_bind_getElem? {α β : Type} {f : α → Option β} {as : List α} {bs : List β}
    (hall : List.Forall₂ (fun a b => f a = some b) as bs) (i : Nat) : (as[i]?).bind f = bs[i]? := by
  induction hall generalizing i with
  | nil => rfl
  | cons hab _ ih =>
    cases i with
    | zero => simpa using hab
    | succ i => simpa using ih i

namespace Instance.Matches

variable {inst : Instance H} {m : Module} {s t : Store H σ}

/-- An instance goes on matching its module while its machine runs and when it is closed. -/
theorem later (hmatches : inst.Matches m s) (hextends : s.Extends t) {memory : Option Nat}
    (idle : Option UInt64) {closed : Bool}
    (hstate : memory = inst.memory ∧ closed = inst.closed ∨ memory = none ∧ closed = true) :
    { inst with memory, idle, closed }.Matches m t where
  implements := ⟨hmatches.implements.types_eq, hmatches.implements.functions_eq,
    hmatches.implements.imports_eq⟩
  globals := by
    refine hmatches.globals.imp ?_
    rintro p type ⟨g, hg, hsame⟩
    obtain ⟨g', hg', hsame'⟩ := hextends.globals hg
    exact ⟨g', hg', hsame'.trans hsame⟩
  memory := by
    rcases hstate with ⟨rfl, rfl⟩ | ⟨rfl, rfl⟩
    · exact hmatches.memory
    · rfl
  memory_lt p hp := by
    rcases hstate with ⟨rfl, -⟩ | ⟨rfl, -⟩
    · exact Nat.lt_of_lt_of_le (hmatches.memory_lt p hp) hextends.memories_le
    · cases hp
  table := hmatches.table
  exports_eq := hmatches.exports_eq

/-- An export of the module is found by its name and kind. -/
theorem require_eq (hmatches : inst.Matches m s) (hindexed : m.Indexed) {e : Export}
    (he : e ∈ m.exports.getD []) : inst.require e.name e.kind = .ok e := by
  have hfound : inst.export? e.name = some e := by
    unfold export?
    rw [hmatches.exports_eq]
    refine Export.find?_name ?_ (List.mem_reverse.mpr he)
    rw [List.map_reverse, List.nodup_reverse]
    exact hindexed.names
  simp [require, hfound]

/-- The index spaces of an instance that matches a valid module are those of the module. -/
theorem indexes (hmatches : inst.Matches m s) (hindexed : m.Indexed) : inst.Indexes m s where
  signature := hmatches.implements.signature?_eq_functionType? hindexed.length_eq
  body := by
    intro i hle hlt
    have himports := hmatches.implements.length_imports
    have hsize := hmatches.implements.length_functions hindexed.length_eq
    have hinside : i.toNat - m.importedFunctions.length < inst.functions.size := by
      rw [Module.functionCount] at hlt
      omega
    have hfn := Array.getElem?_eq_getElem hinside
    have hbeyond : inst.imports[i.toNat]? = none := Array.getElem?_eq_none (by omega)
    obtain ⟨index, body, hindex, hbody, htype, hlocals, hcheck⟩ :=
      hmatches.implements.exists_body hindexed.length_eq hfn
    refine ⟨body, _, hbody, ⟨hlocals, hcheck⟩, ?_, ?_, ?_⟩
    · rw [hmatches.implements.index_eq hindexed.length_eq hfn, himports, Nat.add_sub_cancel' hle]
      exact UInt32.ofNat_toNat
    · rw [Module.functionType?, if_neg (Nat.not_lt.mpr hle), hindex, Option.bind_some, htype]
    · simp only [Run.call, hbeyond, himports, hfn]
  globalType locals i := by
    have hall := hmatches.globals.imp fun p type hp => Option.map_eq_some_iff.mpr hp
    rw [← Array.getElem?_toList, forall₂_bind_getElem? hall]
    rw [Module.scope_globalType]
  size_globals := by simpa using hmatches.globals.length_eq
  memory locals := by rw [Module.scope_hasMemory, hmatches.memory]
  memory_lt := hmatches.memory_lt
  table _ := hmatches.table

/-- The exports of an instance that matches a valid module lead somewhere. -/
theorem resolves (hmatches : inst.Matches m s) (hindexed : m.Indexed) {place : Nat}
    (hat : s.instances[place]? = some inst) : s.Resolves m place where
  function := by
    intro e he hkind
    obtain ⟨type, htype⟩ := hindexed.exists_functionType he hkind
    have hfound : inst.require e.name .function = .ok e := hkind ▸ hmatches.require_eq hindexed he
    have hsignature : inst.signature? e.index = some type :=
      ((hmatches.indexes hindexed).signature e.index).trans htype
    refine ⟨type, htype, by simp [Engine.functionType, hat, hfound, hsignature, Except.mapError],
      fun inst' hat' args => ?_⟩
    obtain rfl := Option.some.inj (hat.symm.trans hat')
    exact prepare_of_require hfound hsignature args
  global := by
    intro e he hkind
    obtain ⟨type, htype⟩ := hindexed.exists_globalType he hkind []
    have hfound : inst.require e.name .global = .ok e := hkind ▸ hmatches.require_eq hindexed he
    have hglobal := ((hmatches.indexes hindexed).globalType [] e.index).trans htype
    obtain ⟨p, hp, hstored⟩ := Option.bind_eq_some_iff.mp hglobal
    obtain ⟨g, hg, rfl⟩ := Option.map_eq_some_iff.mp hstored
    exact ⟨p, g, by simp [Engine.exportedGlobal, hat, hfound, hp, Except.mapError], hg,
      fun _ => htype⟩

end Instance.Matches

/-! ## Building -/

/-- An instance that is being built has a memory and a table if its module has declared any so
far. -/
structure Linking.Declares (memories tables : Nat) (l : Linking H σ) : Prop where
  memory : l.inst.memory.isSome = decide (0 < memories)
  table : l.inst.table.isSome = decide (0 < tables)

namespace Linking.Declares

variable {m : Module} {memories tables : Nat} {l l' : Linking H σ}

/-- What is declared depends on the memory and the table. -/
theorem of_eq (hdeclares : l.Declares memories tables) (hmemory : l'.inst.memory = l.inst.memory)
    (htable : l'.inst.table = l.inst.table) : l'.Declares memories tables :=
  ⟨hmemory ▸ hdeclares.memory, htable ▸ hdeclares.table⟩

/-- An imported memory is declared. -/
theorem importEntry (hdeclares : l.Declares memories tables) (resolver : Option (Resolver H σ))
    (i : Import) :
    Leads (Link.importEntry resolver i) l
      (fun _ l' => l'.Declares (memories + (Module.memoryImport? i).toList.length) tables)
      fun _ _ => True := by
  refine (Link.importEntry_leads resolver i l).weaken (fun _ l' hbinds => ?_) fun _ _ _ => trivial
  cases hbinds with
  | function htype | global htype =>
    simp only [Module.memoryImport?, htype]
    exact hdeclares.of_eq rfl rfl
  | memory htype =>
    simp only [Module.memoryImport?, htype]
    exact ⟨by simp, hdeclares.table⟩

/-- All imported memories are declared. -/
theorem importEntries (hdeclares : l.Declares memories tables) (resolver : Option (Resolver H σ))
    (k : Nat) (entries : List Import) :
    Leads (Link.forEachFrom (fun _ i => Link.importEntry resolver i) k entries) l
      (fun _ l' => l'.Declares (memories + (entries.filterMap Module.memoryImport?).length) tables)
      fun _ _ => True := by
  induction entries generalizing l k memories with
  | nil => exact hdeclares
  | cons i entries ih =>
    refine (hdeclares.importEntry resolver i).bind fun _ l' hl' => (ih hl' (k + 1)).weaken ?_
      fun _ _ _ => trivial
    intro _ l'' hl''
    rw [filterMap_cons_toList, List.length_append, ← Nat.add_assoc]
    exact hl''

/-- Globals declare neither. -/
theorem defineGlobals (hdeclares : l.Declares memories tables) (imported : List Value) (k : Nat)
    (entries : List GlobalDef) :
    Leads (Link.forEachFrom (Link.defineGlobal imported) k entries) l
      (fun _ l' => l'.Declares memories tables) fun _ _ => True := by
  induction entries generalizing l k with
  | nil => exact hdeclares
  | cons d entries ih =>
    have hfirst : Leads (Link.defineGlobal imported k d) l (fun _ l' => l'.Declares memories tables)
        fun _ _ => True := by
      refine (Link.defineGlobal_leads imported k d l).weaken ?_ fun _ _ _ => trivial
      rintro _ _ ⟨v, -, rfl⟩
      exact hdeclares.of_eq rfl rfl
    exact hfirst.bind fun _ l' hl' => ih hl' (k + 1)

/-- Imports and globals declare the imported memories. -/
theorem bindDefinitions (hdeclares : l.Declares 0 tables) (m : Module)
    (resolver : Option (Resolver H σ)) :
    Leads (Link.bindDefinitions m resolver) l
      (fun _ l' => l'.Declares m.importedMemories.length tables) fun _ _ => True := by
  unfold Link.bindDefinitions
  cases m.compile with
  | error e => exact trivial
  | ok functions =>
    have hbegun : Declares 0 tables ⟨l.store, { l.inst with
        name := m.ownName, types := (m.types.getD []).toArray, functions := functions.toArray }⟩ :=
      hdeclares.of_eq rfl rfl
    refine Leads.after rfl (Leads.after rfl ?_)
    refine (hbegun.importEntries resolver 0 m.importList).bind fun _ l₁ hl₁ => ?_
    rw [Nat.zero_add] at hl₁
    exact Leads.after rfl (hl₁.defineGlobals _ 0 (m.globals.getD []))

/-- The module's own memories are declared after the imported ones. -/
theorem declareMemory (hdeclares : l.Declares memories tables) (allocator : Nat) (m : Module) :
    Leads (Link.declareMemory allocator m) l
      (fun _ l' => l'.Declares (memories + (m.memories.getD []).length) tables)
        fun _ _ => True := by
  unfold Link.declareMemory
  cases m.memories.getD [] with
  | nil => exact hdeclares
  | cons limits rest =>
    refine (Link.allocateMemory_leads allocator limits l).weaken ?_ fun _ _ _ => trivial
    rintro _ l' ⟨-, -, -, hinst⟩
    exact ⟨by simp [hinst], by rw [hinst]; exact hdeclares.table⟩

/-- The module's tables are declared. -/
theorem declareTable (hdeclares : l.Declares memories 0) (m : Module) :
    Leads (Link.declareTable m) l (fun _ l' => l'.Declares memories m.tableCount)
      fun _ _ => True := by
  unfold Link.declareTable Module.tableCount
  cases m.tables.getD [] with
  | nil => exact hdeclares
  | cons t rest => exact ⟨hdeclares.memory, by simp⟩

/-- Segments declare neither. -/
theorem placeSegments (hdeclares : l.Declares memories tables) (m : Module) :
    Leads (Link.placeSegments m) l (fun _ l' => l'.Declares memories tables) fun _ _ => True := by
  refine (Link.placeSegments_leads m l).weaken ?_ fun _ _ _ => trivial
  rintro _ _ ⟨place, -, fill, -, rfl⟩
  exact ⟨hdeclares.memory, by simpa using hdeclares.table⟩

end Linking.Declares

section

variable {m : Module} {resolver : Option (Resolver H σ)} {allocator : Nat} {l : Linking H σ}

/-- An instance that was put together provides what the module imports and defines. -/
theorem Link.assemble_provides
    (hgrounded : ∀ r, resolver = some r → r.Grounded l.store.memories.size)
    (hempty : l.inst.imports = #[] ∧ l.inst.globals = #[]) :
    Leads (assemble m resolver allocator) l
      (fun _ l' => l'.Provides m l.store.memories.size m.importedFunctions
        (m.importedGlobals ++ (m.globals.getD []).map (·.type)) m.memoryCount ∧
        l'.inst.exports = m.exports.getD []) fun _ _ => True := by
  refine (bindDefinitions_provides hgrounded hempty).bind fun _ l₁ hl₁ => ?_
  refine (hl₁.declareMemory allocator).bind fun _ l₂ hl₂ => ?_
  refine (declareTable_leads m l₂).bind ?_
  rintro _ _ ⟨-, table, rfl⟩
  refine ((placeSegments_leads m _).weaken (fun _ l' hplaced => ?_) fun _ _ _ => trivial).bind
    fun _ l₃ (hl₃ : l₃.Provides _ _ _ _ _) => ⟨hl₃.withExports _, rfl⟩
  obtain ⟨place, -, fill, -, rfl⟩ := hplaced
  exact (hl₂.withTable table).placed place fill

/-- It has a memory and a table if the module declares them. -/
theorem Link.assemble_declares (hdeclares : l.Declares 0 0) :
    Leads (assemble m resolver allocator) l (fun _ l' => l'.Declares m.memoryCount m.tableCount)
      fun _ _ => True := by
  refine (hdeclares.bindDefinitions m resolver).bind fun _ l₁ hl₁ => ?_
  refine (hl₁.declareMemory allocator m).bind fun _ l₂ hl₂ => ?_
  refine (hl₂.declareTable m).bind fun _ l₃ hl₃ => ?_
  exact (hl₃.placeSegments m).bind fun _ l₄ hl₄ => hl₄.of_eq rfl rfl

end

section

variable {host : Host H σ} {fuel nesting : Nat} {m : Module} {resolver : Option (Resolver H σ)}
  {config c : Config} {s₀ s₁ s : Store H σ} {place : Nat}

/-- An instance that was put together matches its module. -/
theorem Engine.assemble_matches {l : Linking H σ}
    (hgrounded : ∀ r, resolver = some r → r.Grounded s₀.memories.size)
    (hassemble : Link.assemble m resolver (placeAllocator c s₀).1
      ⟨(placeAllocator c s₀).2, { config := c }⟩ = .ok () l) : l.inst.Matches m l.store := by
  obtain ⟨hprovides, hexports⟩ := Leads.of_ok
    (Link.assemble_provides (fun r hr => by simpa using hgrounded r hr) ⟨rfl, rfl⟩) hassemble
  have hdeclares := (Link.assemble_declares ⟨rfl, rfl⟩).of_ok hassemble
  refine ⟨⟨hprovides.types_eq, hprovides.functions_eq, hprovides.imports_eq⟩, hprovides.globals, ?_,
    ?_, hdeclares.table, hexports⟩
  · rw [hdeclares.memory, (assemble_config hassemble).2, Bool.not_false, Bool.true_and]
  · intro p hp
    have hdeclared : 0 < m.memoryCount := by simpa [hp] using hdeclares.memory
    obtain ⟨p', hp', hlt⟩ := hprovides.memory hdeclared
    obtain rfl := Option.some.inj (hp.symm.trans hp')
    exact hlt

/-- The start function of an instance of a module has got to a state, in which the instance has no
place in the store yet. -/
def Engine.Starting (host : Host H σ) (fuel nesting : Nat) (m : Module)
    (resolver : Option (Resolver H σ)) (config : Config) (s₀ : Store H σ) (inst : Instance H)
    (state : State H σ) : Prop :=
  ∃ c l function slot next, config.check = .ok c ∧ m.start = some function ∧
    Link.assemble m resolver (placeAllocator c s₀).1
    ⟨(placeAllocator c s₀).2, { config := c }⟩ = .ok () l ∧
    l.inst = inst ∧ inst.Visits host (invoke host fuel nesting) function [] l.store slot next state

/-- While its start function runs, an instance matches its module. -/
theorem Engine.Starting.matches {inst : Instance H} {state : State H σ}
    (hacts : host.Acts fuel fun _ => True)
    (hgrounded : ∀ r, resolver = some r → r.Grounded s₀.memories.size)
    (hstarting : Starting host fuel nesting m resolver config s₀ inst state) :
    inst.Matches m state.store := by
  obtain ⟨c, l, function, slot, next, -, -, hassemble, rfl, hvisits⟩ := hstarting
  have hextends := hvisits.moves (Store.lasting_extends.code l.inst)
    (hacts.moves (Store.lasting_extends.allowed host fuel) nesting).1
  exact (assemble_matches hgrounded hassemble).later hextends l.inst.idle (.inl ⟨rfl, rfl⟩)

/-- The instance that instantiating a module gives is open and matches the module. -/
theorem Engine.instantiate_matches (hacts : host.Acts fuel fun _ => True)
    (hgrounded : ∀ r, resolver = some r → r.Grounded s₀.memories.size)
    (hok : instantiate host fuel nesting m resolver config s₀ = .ok place s₁) :
    ∃ inst, s₁.instances[place]? = some inst ∧ inst.closed = false ∧ inst.Matches m s₁ := by
  obtain ⟨c, l, idle, -, hassemble, -, hopen, hextends, hat⟩ :=
    instantiate_assembles (hacts.moves (Store.lasting_extends.allowed host fuel) nesting).1 hok
  exact ⟨_, hat, hopen, (assemble_matches hgrounded hassemble).later hextends idle
    (.inl ⟨rfl, rfl⟩)⟩

end

/-! ## At every moment -/

/-- A store that extends another one and still has the instance at a place, which has kept its
memory unless it was closed. -/
structure Store.KeepsUnlessClosed (place : Nat) (s t : Store H σ) : Prop extends s.Extends t where
  instances : ∀ {inst : Instance H}, s.instances[place]? = some inst → ∃ memory idle closed,
    t.instances[place]? = some { inst with memory, idle, closed } ∧
      (memory = inst.memory ∧ closed = inst.closed ∨ memory = none ∧ closed = true)

/-- Whatever is done, an instance keeps its memory until it is closed. -/
theorem Store.lasting_keepsUnlessClosed (place : Nat) :
    Store.Lasting place (Store.KeepsUnlessClosed (H := H) (σ := σ) place) where
  keeps {s t} hkeeps := by
    refine ⟨hkeeps.toExtends, fun {inst} hat => ?_⟩
    obtain ⟨idle, ht, -⟩ := hkeeps.instances hat
    exact ⟨inst.memory, idle, inst.closed, ht, .inl ⟨rfl, rfl⟩⟩
  idle s address slot := by
    refine ⟨⟨Nat.le_refl _, fun hg => ⟨_, hg, rfl⟩⟩, fun {inst} hat => ?_⟩
    obtain ⟨idle, hafter⟩ := Store.exists_idle hat address slot
    exact ⟨inst.memory, idle, inst.closed, hafter, .inl ⟨rfl, rfl⟩⟩
  close s := by
    refine ⟨Store.lasting_extends.errand _ s, fun {inst} hat => ?_⟩
    simp only [Errand.run, Engine.close, hat]
    cases hclosed : inst.closed with
    | true => exact ⟨inst.memory, inst.idle, inst.closed, hat, .inl ⟨rfl, hclosed⟩⟩
    | false =>
      refine ⟨none, none, true, ?_, .inr ⟨rfl, rfl⟩⟩
      simp [finalState, Store.modifyInstance, Engine.instances_release, Array.getElem?_modify, hat]
  trans {s t u} hst htu := by
    refine ⟨hst.toExtends.trans htu.toExtends, fun {inst} hat => ?_⟩
    obtain ⟨memory, idle, closed, ht, hstate⟩ := hst.instances hat
    obtain ⟨memory', idle', closed', hu, hstate'⟩ := htu.instances ht
    refine ⟨memory', idle', closed', hu, ?_⟩
    rcases hstate' with ⟨rfl, rfl⟩ | hended
    · exact hstate
    · exact .inr hended

/-- All views of the index spaces of a module agree. The bodies of any module see the functions that
the module finds. If it is valid, it finds exactly as many as it counts, and whenever it is
instantiated, whatever the embedder does, the instance has the same functions and globals under the
same indices, while its start function runs and at every later moment, and a memory and a table
exactly if the module declares or imports them; only closing it, which it is not to begin with,
takes its memory away. So whatever function or global it exports is there. -/
theorem index_spaces_agree (m : Module) :
    (∀ locals i, (m.scope locals).functionType i = m.functionType? i) ∧
    (m.validate = .ok () →
      (∀ i, (m.functionType? i).isSome ↔ i.toNat < m.functionCount) ∧
      ∀ {host : Host H σ} {fuel nesting : Nat} {resolver : Option (Resolver H σ)} {config : Config}
        {s₀ : Store H σ}, host.Acts fuel (fun _ => True) →
        (∀ r, resolver = some r → r.Grounded s₀.memories.size) →
        (∀ {inst state}, Engine.Starting host fuel nesting m resolver config s₀ inst state →
          inst.Indexes m state.store) ∧
        ∀ {s₁ : Store H σ} {place : Nat},
          Engine.instantiate host fuel nesting m resolver config s₀ = .ok place s₁ →
          (∃ inst, s₁.instances[place]? = some inst ∧ inst.closed = false) ∧
          ∀ {s : Store H σ}, s₁.Passes host fuel (fun _ => True) s →
            (∃ inst, s.instances[place]? = some inst ∧ inst.Indexes m s) ∧ s.Resolves m place) := by
  refine ⟨Module.scope_functionType, fun hvalid => ?_⟩
  have hindexed := Module.indexed_of_validate hvalid
  refine ⟨hindexed.functionType?_isSome_iff, ?_⟩
  intro host fuel nesting resolver config s₀ hacts hgrounded
  refine ⟨fun hstarting => (hstarting.matches hacts hgrounded).indexes hindexed, ?_⟩
  intro s₁ place hok
  obtain ⟨inst, hat, hopen, hmatches⟩ := Engine.instantiate_matches hacts hgrounded hok
  refine ⟨⟨inst, hat, hopen⟩, fun {s} hpasses => ?_⟩
  have hkeeps := (Store.lasting_keepsUnlessClosed place).passes hacts hpasses
  obtain ⟨memory, idle, closed, hat', hstate⟩ := hkeeps.instances hat
  have hmatches' := hmatches.later hkeeps.toExtends idle hstate
  exact ⟨⟨_, hat', hmatches'.indexes hindexed⟩, hmatches'.resolves hindexed hat'⟩

/-- A module that imports a global, a function, a memory and another function, in this order. Behind
them come a function that answers with its own global, a table and that global; it exports the
functions `a` and `f` and the globals `g` and `h`, one of each imported and one its own. -/
def interleaved : List UInt8 :=
  [0, 0x61, 0x73, 0x6d, 1, 0, 0, 0, 1, 9, 2, 0x60, 0, 1, 0x7f, 0x60, 1, 0x7f, 0,
    2, 27, 4, 1, 0x65, 1, 0x67, 3, 0x7f, 0, 1, 0x65, 1, 0x61, 0, 1, 1, 0x65, 1, 0x6d, 2, 0, 0,
    1, 0x65, 1, 0x62, 0, 0, 3, 2, 1, 0, 4, 4, 1, 0x70, 0, 1, 6, 6, 1, 0x7f, 0, 0x41, 7, 0x0b,
    7, 17, 4, 1, 0x61, 0, 0, 1, 0x66, 0, 2, 1, 0x67, 3, 0, 1, 0x68, 3, 1,
    10, 6, 1, 4, 0, 0x23, 1, 0x0b]

/-- What the module imports. -/
def interleavedImports : Bindings Unit :=
  { functions := [("e.a", ⟨{ params := [.i32] }, ()⟩), ("e.b", ⟨{ results := [.i32] }, ()⟩)]
    memories := [("e.m", 0)]
    globals := [("e.g", 0)] }

/-- A store with an empty memory and a global. -/
def suppliedStore : Store Unit Unit :=
  { memories := #[default], globals := #[⟨⟨.i32, false⟩, 1⟩], host := () }

/-- Whether the module is valid, has three functions and two globals, and is instantiated. -/
def linksInterleaved : Bool :=
  (Module.decode interleaved .eof).toOption.any fun m =>
    m.validate.toOption == some () && m.functionCount == 3 && m.importedGlobals.length == 1 &&
      (m.exports.getD []).contains ⟨"f", .function, 2⟩ && (m.exports.getD []).contains
        ⟨"h", .global, 1⟩ && (succeeded (Engine.instantiate growingHost 100 1 m
          (some interleavedImports.resolver) {} suppliedStore)).any (·.1 == 0)

/-- Imports of all kinds in any order, of which each kind has its own indices. -/
theorem index_spaces_agree_interleaved : ∃ (m : Module) (s : Store Unit Unit) (inst : Instance Unit)
    (type : FuncType) (p : Nat) (g : Global),
      m.validate = .ok () ∧ m.functionCount = 3 ∧ m.importedGlobals.length = 1 ∧
      Engine.instantiate growingHost 100 1 m (some interleavedImports.resolver)
        {} suppliedStore = .ok 0 s ∧
      s.instances[0]? = some inst ∧ inst.closed = false ∧ inst.Indexes m s ∧
      m.functionType? 2 = some type ∧
      Engine.functionType s 0 "f" = .ok type ∧ Engine.exportedGlobal s 0 "h" = .ok p ∧
      s.globals[p]? = some g ∧ (m.scope []).globalType 1 = some g.type := by
  have hlinks : linksInterleaved = true := by decide +kernel
  simp only [linksInterleaved, Option.any_eq_true, Bool.and_eq_true, succeeded_eq_some, beq_iff_eq,
    except_toOption_eq_some, List.contains_iff_mem] at hlinks
  obtain ⟨m, -, ⟨⟨⟨⟨hvalid, hcount⟩, hglobals⟩, hf⟩, hh⟩, ⟨place, s⟩, hok, rfl⟩ := hlinks
  obtain ⟨-, hvalidated⟩ := index_spaces_agree m
  obtain ⟨-, hinstances⟩ := hvalidated hvalid
  have hgrounded : ∀ r : Resolver Unit Unit, some interleavedImports.resolver = some r →
      r.Grounded suppliedStore.memories.size := by
    rintro _ ⟨⟩
    exact Bindings.resolver_grounded (by simp [interleavedImports, suppliedStore])
  obtain ⟨⟨inst, hat, hopen⟩, hmoments⟩ :=
    (hinstances (growingHost_acts 100 trivial) hgrounded).2 hok
  obtain ⟨⟨inst', hat', hindexes⟩, hresolves⟩ := hmoments .here
  obtain rfl := Option.some.inj (hat.symm.trans hat')
  obtain ⟨type, htype, hfunction, -⟩ := hresolves.function _ hf rfl
  obtain ⟨p, g, hglobal, hg, hsame⟩ := hresolves.global _ hh rfl
  exact ⟨m, s, inst, type, p, g, hvalid, hcount, hglobals, hok, hat, hopen, hindexes, htype,
    hfunction, hglobal, hg, hsame []⟩

end IntWasm
