import IntWasm.Proofs.Engine.Actions

/-!
# What linking does to the store

Building an instance takes an imported memory, makes globals and a memory, places segments and runs
a start function, besides all that it does to the instance alone. A relation that contains these
steps holds between what there is before and after building an instance, wherever it stops. Main
statement: `Link.build_moves`.
-/

namespace IntWasm

variable {H σ : Type}

/-! ## Tables -/

/-- Every slot of a table holds a function of a kind or nothing. -/
def Table.Holds (P : UInt32 → Prop) (t : Table) : Prop :=
  ∀ slot function, t.lookup slot = .ok function → P function

section

variable {P : UInt32 → Prop} {t : Table}

/-- A new table is empty. -/
theorem Table.holds_new (min max : UInt32) : (Table.new min max).Holds P := by
  intro slot function hlookup
  unfold Table.lookup Table.new at hlookup
  split at hlookup
  · cases hlookup
  · simp at hlookup

/-- Setting an entry keeps what holds of all, if it holds of the new one. -/
theorem Table.Holds.set? (hholds : t.Holds P) {i function : UInt32} (hfunction : P function)
    {t' : Table} (hset : t.set? i function = some t') : t'.Holds P := by
  intro slot found hlookup
  unfold Table.set? at hset
  split at hset
  · obtain rfl := Option.some.inj hset
    have hother := hholds slot found
    unfold Table.lookup at hlookup hother
    split at hlookup
    · cases hlookup
    · rename_i hinside
      rw [if_neg hinside] at hother
      rw [Std.TreeMap.getElem?_insert] at hlookup
      by_cases hslot : compare i slot = .eq
      · rw [if_pos hslot] at hlookup
        obtain rfl := Except.ok.inj hlookup
        exact hfunction
      · rw [if_neg hslot] at hlookup
        exact hother hlookup
  · cases hset

/-- Filling a table with functions of a kind. -/
theorem Link.holds_fillTable (hholds : t.Holds P) {functions : List UInt32}
    (hfunctions : ∀ f ∈ functions, P f) (start : Nat) :
    (fillTable t start functions).Holds P := by
  induction functions generalizing t start with
  | nil => exact hholds
  | cons f functions ih =>
    refine ih ?_ (fun g hg => hfunctions g (by simp [hg])) _
    cases hset : t.set? (UInt32.ofNat start) f with
    | none => exact hholds
    | some t' => exact hholds.set? (hfunctions f (by simp)) hset

end

/-! ## Steps as functions of the store -/

namespace Link

/-- The error of an import. -/
def importError (i : Import) (cause : LinkError.Cause) : InstantiateError :=
  .link { moduleName := i.moduleName, field := i.field, cause }

/-- A function is imported if its type is known, it is resolved and its type is that. -/
theorem importFunction_eq (r : Resolver H σ) (i : Import) (index : UInt32) (l : Linking H σ) :
    importFunction r i index l =
      match l.inst.types[index.toNat]? with
      | none => .error (importError i (.typeIndex index)) l
      | some type =>
        match r.function l.store i.moduleName i.field type with
        | .error fault => .error (importError i (.unresolved fault)) l
        | .ok f =>
          if f.type = type then
            .ok () { l with inst := { l.inst with
              imports := l.inst.imports.push
                { f with moduleName := i.moduleName, name := i.field } } }
          else .error (importError i (.signature f.type type)) l := by
  simp only [importFunction, bind, EStateM.bind, estate_get]
  cases l.inst.types[index.toNat]? with
  | none => rfl
  | some type =>
    simp only [EStateM.bind, estate_get]
    cases r.function l.store i.moduleName i.field type with
    | error fault => rfl
    | ok f => by_cases htype : f.type = type <;> simp [found, htype, pure, EStateM.pure] <;> rfl

/-- A memory is imported if it is resolved, satisfies the limits and is not attached. -/
theorem importMemory_eq (r : Resolver H σ) (i : Import) (limits : Limits) (l : Linking H σ) :
    importMemory r i limits l =
      match r.memory l.store i.moduleName i.field limits with
      | .error fault => .error (importError i (.unresolved fault)) l
      | .ok address =>
        if (l.store.memories[address]?.getD default).satisfies limits then
          if (l.store.memories[address]?.getD default).attached then
            .error (importError i .memoryInUse) l
          else .ok () ⟨l.store.modifyMemory address ({ · with attached := true }),
            { l.inst with memory := some address }⟩
        else .error (importError i .unsuitable) l := by
  simp only [importMemory, bind, EStateM.bind, estate_get]
  cases r.memory l.store i.moduleName i.field limits with
  | error fault => rfl
  | ok address =>
    cases hfits : (l.store.memories[address]?.getD default).satisfies limits <;>
    cases hattached : (l.store.memories[address]?.getD default).attached <;>
    simp [found, hfits, hattached, pure, EStateM.pure] <;> rfl

/-- A global is imported if it is resolved and has the type. -/
theorem importGlobal_eq (r : Resolver H σ) (i : Import) (type : GlobalType) (l : Linking H σ) :
    importGlobal r i type l =
      match r.global l.store i.moduleName i.field type with
      | .error fault => .error (importError i (.unresolved fault)) l
      | .ok address =>
        match l.store.globals[address]? with
        | none => .error (importError i .unsuitable) l
        | some g =>
          if g.type = type then
            .ok () { l with inst := { l.inst with globals := l.inst.globals.push address } }
          else .error (importError i .unsuitable) l := by
  simp only [importGlobal, bind, EStateM.bind, estate_get]
  cases r.global l.store i.moduleName i.field type with
  | error fault => rfl
  | ok address =>
    simp only [found, pure, EStateM.pure]
    cases l.store.globals[address]? with
    | none => rfl
    | some g => by_cases htype : g.type = type <;> simp [htype, EStateM.bind] <;> rfl

/-- A global is defined if its expression is evaluated to a value of its type. -/
theorem defineGlobal_eq (imported : List Value) (i : Nat) (g : GlobalDef) (l : Linking H σ) :
    defineGlobal imported i g l =
      match ConstExpr.eval imported g.init with
      | .error fault => .error (.global (imported.length + i) fault) l
      | .ok v =>
        if v.type = g.type.type then
          .ok () ⟨(l.store.addGlobal (.new g.type v)).2,
            { l.inst with globals := l.inst.globals.push l.store.globals.size }⟩
        else .error (.globalType (imported.length + i) v.type g.type.type) l := by
  unfold defineGlobal
  cases ConstExpr.eval imported g.init with
  | error fault => rfl
  | ok v => by_cases htype : v.type = g.type.type <;> simp [htype] <;> rfl

/-- The offsets of all segments are found before anything is written. -/
theorem placeSegments_eq (m : Module) (l : Linking H σ) :
    placeSegments m l =
      let globals := l.inst.globals.toList.filterMap fun a => (l.store.globals[a]?).map (·.value)
      let size := do
        let memory ← l.store.memories[← l.inst.memory]?
        return memory.bytes.size
      match elementOffsets globals l.inst.table 0 (m.elements.getD []) with
      | .error e => .error e l
      | .ok elementStarts =>
        match dataOffsets globals size 0 (m.data.getD []) with
        | .error e => .error e l
        | .ok dataStarts =>
          .ok () ⟨match l.inst.memory with
            | none => l.store
            | some address => l.store.modifyMemory address fun memory =>
                { memory with
                  bytes := ((m.data.getD []).zip dataStarts).foldl
                    (fun bytes (s, start) => setBytes bytes start s.bytes) memory.bytes },
            { l.inst with
              table := l.inst.table.map fun table =>
                ((m.elements.getD []).zip elementStarts).foldl
                  (fun t (s, start) => fillTable t start s.functions) table }⟩ := by
  simp only [placeSegments, globalValues, bind, EStateM.bind, estate_get, pure, EStateM.pure, lift]
  generalize elementOffsets _ l.inst.table 0 (m.elements.getD []) = elementStarts
  cases elementStarts with
  | error e => rfl
  | ok elementStarts =>
    simp only
    generalize dataOffsets _ _ 0 (m.data.getD []) = dataStarts
    cases dataStarts with
    | error e => rfl
    | ok dataStarts =>
      -- The instance is taken apart, because its table changes and its memory does not.
      obtain ⟨store, inst⟩ := l
      cases inst with
      | mk name config types imports functions globals table memory ownsMemory exports
          idle closed =>
        cases memory <;> rfl

/-! ## What steps lead to -/

/-- An imported function has the type that the module declares. -/
theorem importFunction_leads (r : Resolver H σ) (i : Import) (index : UInt32) (l : Linking H σ) :
    Leads (importFunction r i index) l
      (fun _ l' => ∃ f : ImportedFunction H, l.inst.types[index.toNat]? = some f.type ∧
        f.moduleName = i.moduleName ∧
        l' = { l with inst := { l.inst with imports := l.inst.imports.push f } })
      fun _ l' => l' = l := by
  unfold Leads
  rw [importFunction_eq]
  cases htype : l.inst.types[index.toNat]? with
  | none => rfl
  | some type =>
    simp only
    cases r.function l.store i.moduleName i.field type with
    | error fault => rfl
    | ok f =>
      by_cases hsame : f.type = type
      · simp only [if_pos hsame]
        exact ⟨{ f with moduleName := i.moduleName, name := i.field }, by rw [← hsame], rfl, rfl⟩
      · simp only [if_neg hsame]

/-- An imported memory satisfies the limits, was not attached and is now. -/
theorem importMemory_leads (r : Resolver H σ) (i : Import) (limits : Limits) (l : Linking H σ) :
    Leads (importMemory r i limits) l
      (fun _ l' => ∃ address, r.memory l.store i.moduleName i.field limits = .ok address ∧
        (l.store.memories[address]?.getD default).satisfies limits = true ∧
        (l.store.memories[address]?.getD default).attached = false ∧
        l' = ⟨l.store.modifyMemory address ({ · with attached := true }),
          { l.inst with memory := some address }⟩)
      fun _ l' => l' = l := by
  unfold Leads
  rw [importMemory_eq]
  cases hfound : r.memory l.store i.moduleName i.field limits with
  | error fault => rfl
  | ok address =>
    by_cases hfits : (l.store.memories[address]?.getD default).satisfies limits = true
    · by_cases hattached : (l.store.memories[address]?.getD default).attached = true
      · simp only [if_pos hfits, if_pos hattached]
      · simp only [if_pos hfits, if_neg hattached]
        exact ⟨address, rfl, hfits, Bool.not_eq_true _ ▸ hattached, rfl⟩
    · simp only [if_neg hfits]

/-- An imported global has the type that the module declares. -/
theorem importGlobal_leads (r : Resolver H σ) (i : Import) (type : GlobalType) (l : Linking H σ) :
    Leads (importGlobal r i type) l
      (fun _ l' => ∃ address g, l.store.globals[address]? = some g ∧ g.type = type ∧
        l' = { l with inst := { l.inst with globals := l.inst.globals.push address } })
      fun _ l' => l' = l := by
  unfold Leads
  rw [importGlobal_eq]
  cases r.global l.store i.moduleName i.field type with
  | error fault => rfl
  | ok address =>
    simp only
    cases hglobal : l.store.globals[address]? with
    | none => rfl
    | some g =>
      by_cases hsame : g.type = type
      · simp only [if_pos hsame]
        exact ⟨address, g, hglobal, hsame, rfl⟩
      · simp only [if_neg hsame]

/-- A defined global has a value of its type. -/
theorem defineGlobal_leads (imported : List Value) (i : Nat) (g : GlobalDef) (l : Linking H σ) :
    Leads (defineGlobal imported i g) l
      (fun _ l' => ∃ v : Value, v.type = g.type.type ∧
        l' = ⟨(l.store.addGlobal (.new g.type v)).2,
          { l.inst with globals := l.inst.globals.push l.store.globals.size }⟩)
      fun _ l' => l' = l := by
  unfold Leads
  rw [defineGlobal_eq]
  cases ConstExpr.eval imported g.init with
  | error fault => rfl
  | ok v =>
    by_cases hsame : v.type = g.type.type
    · simp only [if_pos hsame]
      exact ⟨v, hsame, rfl⟩
    · simp only [if_neg hsame]

/-- A memory of an instance's own is the last one of the store. -/
theorem allocateMemory_leads (allocator : Nat) (limits : Limits) (l : Linking H σ) :
    Leads (allocateMemory allocator limits) l
      (fun _ l' => (∃ m a, Memory.new limits allocator l.inst.config.maxMemoryPages
            (l.store.allocators[allocator]?.getD {}) = .ok m a ∧
          l'.store.memories = l.store.memories.push m) ∧
        l'.store.globals = l.store.globals ∧ l'.store.instances = l.store.instances ∧
        l'.inst = { l.inst with memory := some l.store.memories.size, ownsMemory := true })
      fun _ l' => l'.store.memories = l.store.memories ∧ l'.store.globals = l.store.globals ∧
        l'.store.instances = l.store.instances ∧ l'.inst = l.inst := by
  unfold Leads allocateMemory Store.newMemory
  simp only
  cases hnew : Memory.new limits allocator l.inst.config.maxMemoryPages
      (l.store.allocators[allocator]?.getD {}) with
  | ok m a => exact ⟨⟨m, a, rfl, rfl⟩, rfl, rfl, rfl⟩
  | error e a => exact ⟨rfl, rfl, rfl, rfl⟩

/-- Of the store, an instance's own memory changes what a new memory does. -/
theorem store_allocateMemory (allocator : Nat) (limits : Limits) (l : Linking H σ) :
    (finalState (allocateMemory allocator limits l)).store =
      finalState (Store.newMemory limits allocator l.inst.config.maxMemoryPages l.store) := by
  unfold allocateMemory
  cases hnew : Store.newMemory limits allocator l.inst.config.maxMemoryPages l.store <;>
    simp only [hnew, finalState]

/-- The bytes of data segments take the place of others. -/
theorem size_placeData (segments : List (DataSegment × Nat)) (bytes : ByteArray) :
    (segments.foldl (fun bytes (s, start) => setBytes bytes start s.bytes) bytes).size =
      bytes.size := by
  induction segments generalizing bytes with
  | nil => rfl
  | cons s segments ih => rw [List.foldl_cons, ih, size_setBytes]

/-- The functions of element segments fill a table. -/
theorem holds_placeElements {P : UInt32 → Prop} {segments : List (ElementSegment × Nat)}
    (hsegments : ∀ s ∈ segments, ∀ f ∈ s.1.functions, P f) {t : Table} (hholds : t.Holds P) :
    (segments.foldl (fun t (s, start) => fillTable t start s.functions) t).Holds P := by
  induction segments generalizing t with
  | nil => exact hholds
  | cons s segments ih =>
    exact ih (fun s' hs' => hsegments s' (by simp [hs']))
      (holds_fillTable hholds (hsegments s (by simp)) s.2)

/-- Placing the segments writes to the memory of the instance and fills its table. -/
theorem placeSegments_leads (m : Module) (l : Linking H σ) :
    Leads (placeSegments m) l
      (fun _ l' => ∃ place : ByteArray → ByteArray, (∀ bytes, (place bytes).size = bytes.size) ∧
        ∃ fill : Table → Table, (∀ P : UInt32 → Prop,
          (∀ s ∈ m.elements.getD [], ∀ f ∈ s.functions, P f) → ∀ t, t.Holds P → (fill t).Holds P) ∧
        l' = ⟨match l.inst.memory with
          | none => l.store
          | some address =>
            l.store.modifyMemory address fun memory => { memory with bytes := place memory.bytes },
          { l.inst with table := l.inst.table.map fill }⟩)
      fun _ l' => l' = l := by
  unfold Leads
  rw [placeSegments_eq]
  simp only
  generalize elementOffsets _ l.inst.table 0 (m.elements.getD []) = elementStarts
  cases elementStarts with
  | error e => rfl
  | ok elementStarts =>
    simp only
    generalize dataOffsets _ _ 0 (m.data.getD []) = dataStarts
    cases dataStarts with
    | error e => rfl
    | ok dataStarts =>
      refine ⟨_, size_placeData ((m.data.getD []).zip dataStarts), _, fun P hP t ht => ?_, rfl⟩
      exact holds_placeElements (fun s hs => hP s.1 (List.of_mem_zip hs).1) ht

end Link

/-! ## What steps change -/

/-- What binding an import does. A function has the type that the module declares, a memory
satisfies the limits, was not attached and is now, and a global has the type that is declared. -/
inductive Linking.Binds (resolver : Option (Resolver H σ)) (i : Import) (l : Linking H σ) :
    Linking H σ → Prop
  | function {index : UInt32} {f : ImportedFunction H} (htype : i.type = .function index)
      (hfound : l.inst.types[index.toNat]? = some f.type) (hmodule : f.moduleName = i.moduleName) :
    Binds resolver i l { l with inst := { l.inst with imports := l.inst.imports.push f } }
  | memory {r : Resolver H σ} {limits : Limits} {address : Nat} (htype : i.type = .memory limits)
      (hresolver : resolver = some r)
      (hfound : r.memory l.store i.moduleName i.field limits = .ok address)
      (hfits : (l.store.memories[address]?.getD default).satisfies limits = true)
      (hfree : (l.store.memories[address]?.getD default).attached = false) :
    Binds resolver i l ⟨l.store.modifyMemory address ({ · with attached := true }),
      { l.inst with memory := some address }⟩
  | global {type : GlobalType} {address : Nat} {g : Global} (htype : i.type = .global type)
      (hfound : l.store.globals[address]? = some g) (hsame : g.type = type) :
    Binds resolver i l
      { l with inst := { l.inst with globals := l.inst.globals.push address } }

/-- An import is bound by its kind, or refused with nothing changed. -/
theorem Link.importEntry_leads (resolver : Option (Resolver H σ)) (i : Import) (l : Linking H σ) :
    Leads (importEntry resolver i) l (fun _ l' => l.Binds resolver i l') fun _ l' => l' = l := by
  unfold importEntry
  cases resolver with
  | none => exact rfl
  | some r =>
    cases htype : i.type with
    | function index =>
      refine (importFunction_leads r i index l).weaken ?_ fun _ _ hl' => hl'
      rintro _ _ ⟨f, hfound, hmodule, rfl⟩
      exact .function htype hfound hmodule
    | memory limits =>
      refine (importMemory_leads r i limits l).weaken ?_ fun _ _ hl' => hl'
      rintro _ _ ⟨address, hfound, hfits, hfree, rfl⟩
      exact .memory htype rfl hfound hfits hfree
    | global type =>
      refine (importGlobal_leads r i type l).weaken ?_ fun _ _ hl' => hl'
      rintro _ _ ⟨address, g, hfound, hsame, rfl⟩
      exact .global htype hfound hsame

/-- What one step of building an instance does, short of its start function. -/
inductive Linking.Touches (resolver : Option (Resolver H σ)) (allocator : Nat) :
    Linking H σ → Linking H σ → Prop
  | inst {l : Linking H σ} {inst : Instance H} (hconfig : inst.config = l.inst.config)
      (hmemory : inst.memory = l.inst.memory) (howns : inst.ownsMemory = l.inst.ownsMemory)
      (hclosed : inst.closed = l.inst.closed) (hidle : inst.idle = l.inst.idle) :
    Touches resolver allocator l { l with inst }
  | attach {l : Linking H σ} {r : Resolver H σ} {i : Import} {limits : Limits} {address : Nat}
      (hresolver : resolver = some r)
      (hfound : r.memory l.store i.moduleName i.field limits = .ok address)
      (hfree : (l.store.memories[address]?.getD default).attached = false) :
    Touches resolver allocator l ⟨l.store.modifyMemory address ({ · with attached := true }),
      { l.inst with memory := some address }⟩
  | global {l : Linking H σ} (type : GlobalType) (v : Value) :
    Touches resolver allocator l ⟨(l.store.addGlobal (.new type v)).2,
      { l.inst with globals := l.inst.globals.push l.store.globals.size }⟩
  | allocate {l : Linking H σ} (limits : Limits) :
    Touches resolver allocator l (finalState (Link.allocateMemory allocator limits l))
  | segments {l : Linking H σ} {address : Nat} {place : ByteArray → ByteArray}
      (hplace : l.inst.memory = some address) (hsize : ∀ bytes, (place bytes).size = bytes.size) :
    Touches resolver allocator l
      { l with store := l.store.modifyMemory address fun m => { m with bytes := place m.bytes } }

/-- A relation that holds between what there is before and after each step of building an
instance. -/
structure Link.Allows (host : Host H σ) (invoker : Invoker H σ) (fuel : Nat)
    (resolver : Option (Resolver H σ)) (allocator : Nat) (L : Linking H σ → Linking H σ → Prop) :
    Prop where
  refl : ∀ l, L l l
  trans : ∀ ⦃l₁ l₂ l₃⦄, L l₁ l₂ → L l₂ l₃ → L l₁ l₃
  touches : ∀ {l l'}, l.Touches resolver allocator l' → L l l'
  start : ∀ function l, L l (finalState (Link.start host invoker fuel function l))

namespace Link

variable {host : Host H σ} {invoker : Invoker H σ} {fuel allocator : Nat}
  {resolver : Option (Resolver H σ)} {L : Linking H σ → Linking H σ → Prop}

/-- What does not touch the instance is allowed. -/
theorem lift_moves (hallows : Link.Allows host invoker fuel resolver allocator L) {α : Type}
    (r : Except InstantiateError α) : Moves L (lift r) := by
  intro l
  cases r <;> exact hallows.refl l

/-- An import of whatever kind is allowed. -/
theorem importEntry_moves (hallows : Link.Allows host invoker fuel resolver allocator L)
    (i : Import) : Moves L (importEntry resolver i) := by
  intro l
  refine (importEntry_leads resolver i l).finally (fun _ l' hbinds => ?_) fun _ l' hl' =>
    hl' ▸ hallows.refl l
  cases hbinds with
  | function => exact hallows.touches (.inst rfl rfl rfl rfl rfl)
  | memory _ hresolver hfound _ hfree => exact hallows.touches (.attach hresolver hfound hfree)
  | global => exact hallows.touches (.inst rfl rfl rfl rfl rfl)

/-- A step that is allowed is allowed for every entry. -/
theorem forEachFrom_moves (hallows : Link.Allows host invoker fuel resolver allocator L) {α : Type}
    {step : Nat → α → Link H σ Unit} (hstep : ∀ i a, Moves L (step i a)) (i : Nat)
    (entries : List α) : Moves L (forEachFrom step i entries) := by
  induction entries generalizing i with
  | nil => exact moves_pure hallows.refl ()
  | cons a rest ih => exact Moves.bind hallows.trans (hstep i a) fun _ => ih (i + 1)

/-- Defining a global is allowed. -/
theorem defineGlobal_moves (hallows : Link.Allows host invoker fuel resolver allocator L)
    (imported : List Value) (i : Nat) (g : GlobalDef) : Moves L (defineGlobal imported i g) := by
  intro l
  refine (defineGlobal_leads imported i g l).finally ?_ fun _ l' hl' => hl' ▸ hallows.refl l
  rintro _ _ ⟨v, -, rfl⟩
  exact hallows.touches (.global g.type v)

/-- Placing segments is allowed, the bytes of the memory being written one segment after another. -/
theorem placeSegments_moves (hallows : Link.Allows host invoker fuel resolver allocator L)
    (m : Module) : Moves L (placeSegments m) := by
  intro l
  refine (placeSegments_leads m l).finally ?_ fun _ l' hl' => hl' ▸ hallows.refl l
  rintro _ _ ⟨place, hsize, fill, -, rfl⟩
  have htable (inst : Instance H) (hconfig : inst.config = l.inst.config)
      (hmemory : inst.memory = l.inst.memory) (howns : inst.ownsMemory = l.inst.ownsMemory)
      (hclosed : inst.closed = l.inst.closed) (hidle : inst.idle = l.inst.idle) :
          L l { l with inst } :=
    hallows.touches (.inst hconfig hmemory howns hclosed hidle)
  have hfilled := htable { l.inst with table := l.inst.table.map fill } rfl rfl rfl rfl rfl
  split
  · exact hfilled
  · rename_i address hmemory
    exact hallows.trans hfilled (hallows.touches (.segments hmemory hsize))

/-! ## Building in stages -/

/-- The first stage: the code, the imports and the globals of an instance. -/
def bindDefinitions (m : Module) (resolver : Option (Resolver H σ)) : Link H σ Unit := do
  let functions ← lift m.compile
  modifyInstance fun inst =>
    { inst with
      name := m.ownName
      types := (m.types.getD []).toArray
      functions := functions.toArray }
  forEachFrom (fun _ i => importEntry resolver i) 0 m.importList
  let imported ← globalValues
  forEachFrom (defineGlobal imported) 0 (m.globals.getD [])

/-- The second stage: the memory of an instance. -/
def declareMemory (allocator : Nat) (m : Module) : Link H σ Unit :=
  match m.memories.getD [] with
  | [] => pure ()
  | limits :: _ => allocateMemory allocator limits

/-- The third stage: the table of an instance. -/
def declareTable (m : Module) : Link H σ Unit :=
  match m.tables.getD [] with
  | [] => pure ()
  | t :: _ => allocateTable t.limits

/-- The last stage: the start function of an instance. -/
def runStart (host : Host H σ) (invoker : Invoker H σ) (fuel : Nat) (m : Module) : Link H σ Unit :=
  match m.start with
  | none => pure ()
  | some function => start host invoker fuel function

/-- An instance is built in stages, of which binding definitions is the first. -/
theorem build_eq (host : Host H σ) (invoker : Invoker H σ) (fuel : Nat) (m : Module)
    (resolver : Option (Resolver H σ)) (allocator : Nat) :
    build host invoker fuel m resolver allocator = (do
      bindDefinitions m resolver
      declareMemory allocator m
      declareTable m
      placeSegments m
      modifyInstance ({ · with exports := m.exports.getD [] })
      runStart host invoker fuel m) := by
  simp only [build, bindDefinitions, declareMemory, declareTable, runStart, bind_assoc]
  cases m.memories.getD [] <;> cases m.tables.getD [] <;> rfl

/-- A change of an instance that leaves alone what is watched is allowed. -/
theorem modifyInstance_moves (hallows : Link.Allows host invoker fuel resolver allocator L)
    {f : Instance H → Instance H} (hconfig : ∀ i, (f i).config = i.config)
    (hmemory : ∀ i, (f i).memory = i.memory) (howns : ∀ i, (f i).ownsMemory = i.ownsMemory)
    (hclosed : ∀ i, (f i).closed = i.closed) (hidle : ∀ i, (f i).idle = i.idle) :
    Moves L (modifyInstance f : Link H σ Unit) :=
  fun _ => hallows.touches (.inst (hconfig _) (hmemory _) (howns _) (hclosed _) (hidle _))

/-- Binding imports and globals is allowed. -/
theorem bindDefinitions_moves (hallows : Link.Allows host invoker fuel resolver allocator L)
    (m : Module) : Moves L (bindDefinitions m resolver) := by
  refine Moves.bind hallows.trans (lift_moves hallows _) fun functions => ?_
  refine Moves.bind hallows.trans (modifyInstance_moves hallows (fun _ => rfl) (fun _ => rfl)
    (fun _ => rfl) (fun _ => rfl) fun _ => rfl) fun _ => ?_
  refine Moves.bind hallows.trans
    (forEachFrom_moves hallows (fun _ i => importEntry_moves hallows i) 0 _) fun _ => ?_
  refine Moves.bind hallows.trans (fun l => hallows.refl l) fun imported => ?_
  exact forEachFrom_moves hallows (defineGlobal_moves hallows imported) 0 _

/-- Declaring a memory is allowed. -/
theorem declareMemory_moves (hallows : Link.Allows host invoker fuel resolver allocator L)
    (m : Module) : Moves L (declareMemory allocator m) := by
  unfold declareMemory
  split
  · exact moves_pure hallows.refl _
  · exact fun l => hallows.touches (.allocate _)

/-- Declaring a table is allowed. -/
theorem declareTable_moves (hallows : Link.Allows host invoker fuel resolver allocator L)
    (m : Module) : Moves L (declareTable m) := by
  unfold declareTable
  split
  · exact moves_pure hallows.refl _
  · exact modifyInstance_moves hallows (fun _ => rfl) (fun _ => rfl) (fun _ => rfl) (fun _ => rfl)
      fun _ => rfl

/-- Running the start function is allowed if calls are. -/
theorem runStart_moves (hallows : Link.Allows host invoker fuel resolver allocator L) (m : Module) :
    Moves L (runStart host invoker fuel m) := by
  unfold runStart
  split
  · exact moves_pure hallows.refl _
  · exact hallows.start _

/-- A relation on stores that the code of an instance and the functions of the embedder keep to
holds over its start function. -/
theorem start_moves {R : Store H σ → Store H σ → Prop} {l : Linking H σ} (hallows : l.inst.Allows R)
    (hhost : ∀ c, Moves R (host.call invoker c)) (function : UInt32) :
    R l.store (finalState (start host invoker fuel function l)).store := by
  have hcall := Instance.call_moves hallows hhost fuel function [] l.store
  unfold start
  simp only
  split <;> exact hcall

/-- Building an instance takes a store and the instance along every relation that its steps keep to,
whether it succeeds or not. -/
theorem build_moves (hallows : Link.Allows host invoker fuel resolver allocator L) (m : Module) :
    Moves L (build host invoker fuel m resolver allocator) := by
  rw [build_eq]
  refine Moves.bind hallows.trans (bindDefinitions_moves hallows m) fun _ => ?_
  refine Moves.bind hallows.trans (declareMemory_moves hallows m) fun _ => ?_
  refine Moves.bind hallows.trans (declareTable_moves hallows m) fun _ => ?_
  refine Moves.bind hallows.trans (placeSegments_moves hallows m) fun _ => ?_
  refine Moves.bind hallows.trans (modifyInstance_moves hallows (fun _ => rfl) (fun _ => rfl)
    (fun _ => rfl) (fun _ => rfl) fun _ => rfl) fun _ => ?_
  exact runStart_moves hallows m

end Link

end IntWasm
