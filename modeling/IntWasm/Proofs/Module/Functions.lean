import IntWasm.Engine.Instantiate
import IntWasm.Proofs.Module.Reading
import IntWasm.Proofs.Structured.Machine

/-!
# The functions of a valid module

A valid module has a body for every function and refers to nothing that does not exist. Its
functions are made ready by checking their bodies once more, so the body of each is that of the code
which it spells. An instance implements a module if it has the module's types and functions and was
given functions of the right types for its imports. Main statement: `Instance.Implements.realizes`,
by which all that is known of structured code holds of such an instance.
-/

namespace IntWasm

open Structured

/-! ## Types and scopes -/

/-- Types that are integers are integer types. -/
theorem exists_ints {types : List ValueType} (htypes : ∀ t ∈ types, t.IsInt) :
    ∃ ints : List IntType, types = ints.map IntType.valueType := by
  induction types with
  | nil => exact ⟨[], rfl⟩
  | cons t types ih =>
    obtain ⟨width, rfl⟩ := htypes t (by simp)
    obtain ⟨ints, rfl⟩ := ih fun t ht => htypes t (by simp [ht])
    exact ⟨width :: ints, rfl⟩

/-- A function type of integers is proper. -/
theorem FuncType.Plain.proper {f : FuncType} (hf : f.Plain) : f.Proper := by
  obtain ⟨params, hparams⟩ := exists_ints hf.params
  obtain ⟨results, hresults⟩ := exists_ints hf.results
  obtain ⟨_, _⟩ := f
  exact ⟨params, results, by rw [ofInts, ← hparams, ← hresults]⟩

/-- The results of a function are those of a block. -/
theorem FuncType.Plain.exists_result {f : FuncType} (hf : f.Plain) :
    ∃ result : BlockType, f.results = Structured.results result := by
  obtain ⟨ints, hints⟩ := exists_ints hf.results
  have hle := hf.results_le
  rw [hints, List.length_map] at hle
  match ints, hle with
  | [], _ => exact ⟨none, hints⟩
  | [width], _ => exact ⟨some width, hints⟩

namespace LocalGroup

/-- The type of a local is that of one of the groups. -/
theorem mem_of_typeAt {groups : List LocalGroup} {i : Nat} {t : ValueType}
    (htype : typeAt groups i = some t) : ∃ g ∈ groups, g.type = t := by
  induction groups generalizing i with
  | nil => cases htype
  | cons g groups ih =>
    unfold typeAt at htype
    split at htype
    · exact ⟨g, by simp, Option.some.inj htype⟩
    · obtain ⟨g', hmem, hg'⟩ := ih htype
      exact ⟨g', by simp [hmem], hg'⟩

/-- A local that has a type is one of those that are counted. -/
theorem lt_total_of_typeAt {groups : List LocalGroup} {i : Nat} {t : ValueType}
    (htype : typeAt groups i = some t) : i < total groups := by
  induction groups generalizing i with
  | nil => cases htype
  | cons g groups ih =>
    unfold typeAt at htype
    unfold total
    split at htype
    · omega
    · have hlt := ih htype
      omega

/-- Parameters are counted among the locals. -/
theorem length_le_total (types : List ValueType) (groups : List LocalGroup) :
    types.length ≤ total (types.map ({ count := 1, type := · }) ++ groups) := by
  induction types with
  | nil => exact Nat.zero_le _
  | cons t types ih =>
    simp only [List.map_cons, List.cons_append, List.length_cons, total]
    have hone : (1 : UInt32).toNat = 1 := rfl
    omega

end LocalGroup

/-- A body spells code and the end of the function. -/
def FuncBody.Writes (body : FuncBody) (code : Code) : Prop :=
  ∃ first, code.Spells first ∧ body.code = first ++ [closingByte]

namespace Module

variable {m : Module}

/-- The types of a plain module are plain. -/
theorem Plain.type? (hm : m.Plain) {i : UInt32} {f : FuncType} (hf : m.type? i = some f) :
    f.Plain :=
  hm.types f (List.mem_of_getElem? hf)

/-- The functions of a plain module have plain types. -/
theorem Plain.functionType? (hm : m.Plain) {i : UInt32} {f : FuncType}
    (hf : m.functionType? i = some f) : f.Plain := by
  simp only [Module.functionType?] at hf
  split at hf
  · obtain ⟨t, -, ht⟩ := Option.bind_eq_some_iff.mp hf
    exact hm.type? ht
  · obtain ⟨t, -, ht⟩ := Option.bind_eq_some_iff.mp hf
    exact hm.type? ht

/-- Going through imports collects the functions and the globals among them, and counts the
memories. -/
theorem Imported.foldl_add (imports : List Import) (s : Imported) :
    imports.foldl add s =
      { functions := s.functions ++ imports.filterMap functionImport?
        globals := s.globals ++ imports.filterMap globalImport?
        memories := s.memories + (imports.filterMap memoryImport?).length } := by
  induction imports generalizing s with
  | nil => simp
  | cons i imports ih =>
    rw [List.foldl_cons, ih]
    cases htype : i.type with
    | function | global => simp [add, functionImport?, globalImport?, memoryImport?, htype]
    | memory =>
      simp [add, functionImport?, globalImport?, memoryImport?, htype]
      omega

/-- What bodies see of the imports of a module are its imported definitions, in order. -/
theorem imported_eq : m.importList.foldl Imported.add {} =
    { functions := m.importedFunctions.toArray
      globals := m.importedGlobals.toArray
      memories := m.importedMemories.length } := by
  rw [Imported.foldl_add]
  simp [importedFunctions, importedGlobals, importedMemories]

/-- An index behind `n` entries, less `n`. -/
theorem toNat_sub_length {i : UInt32} {n : Nat} (hle : n ≤ i.toNat) :
    (i - n.toUInt32).toNat = i.toNat - n := by
  have hsmall : n.toUInt32.toNat = n := UInt32.toNat_ofNat_of_lt (Nat.lt_of_le_of_lt hle i.toNat_lt)
  rw [UInt32.toNat_sub_of_le _ _ (by rw [UInt32.le_iff_toNat_le, hsmall]; exact hle), hsmall]

/-- Bodies see the imported functions of the module and, behind them, its own. -/
theorem scope_functionType (locals : List LocalGroup) (i : UInt32) :
    (m.scope locals).functionType i = m.functionType? i := by
  simp only [scope, imported_eq, Module.functionType?, List.size_toArray, List.getElem?_toArray]
  by_cases hi : i.toNat < m.importedFunctions.length
  · rw [if_pos hi, if_pos hi]
    rfl
  · rw [if_neg hi, if_neg hi, toNat_sub_length (Nat.not_lt.mp hi)]
    rfl

/-- Bodies see the imported globals of the module and, behind them, its own. -/
theorem scope_globalType (locals : List LocalGroup) (i : UInt32) :
    (m.scope locals).globalType i =
      (m.importedGlobals ++ (m.globals.getD []).map (·.type))[i.toNat]? := by
  simp only [scope, imported_eq, List.size_toArray, List.getElem?_toArray]
  by_cases hi : i.toNat < m.importedGlobals.length
  · rw [if_pos hi, List.getElem?_append_left hi]
  · rw [if_neg hi, List.getElem?_append_right (Nat.not_lt.mp hi),
      toNat_sub_length (Nat.not_lt.mp hi), List.getElem?_map]

/-- Bodies see the types of the module. -/
theorem scope_type (locals : List LocalGroup) (i : UInt32) :
    (m.scope locals).type i = m.type? i := by
  simp [scope, Module.type?]

/-- A scope knows a table if the module has one, imported or its own. -/
@[simp] theorem scope_hasTable (locals : List LocalGroup) :
    (m.scope locals).hasTable = decide (0 < m.tableCount) := rfl

/-- Bodies see the imported memories of the module and its own. -/
@[simp] theorem scope_hasMemory (locals : List LocalGroup) :
    (m.scope locals).hasMemory = decide (0 < m.memoryCount) := by
  simp [scope, imported_eq, memoryCount]

/-- The groups of the locals of a function have integer types. -/
theorem isInt_of_mem_localGroups {type : FuncType} {body : FuncBody} (htype : type.Plain)
    (hbody : body.Plain) : ∀ g ∈ localGroups type body, g.type.IsInt := by
  intro g hg
  rcases List.mem_append.mp hg with hparam | hlocal
  · obtain ⟨t, ht, rfl⟩ := List.mem_map.mp hparam
    exact htype.params t ht
  · exact hbody.locals g hlocal

/-- Imported globals hold integers. -/
theorem Plain.importedGlobals (hm : m.Plain) : ∀ g ∈ m.importedGlobals, g.type.IsInt := by
  intro g hg
  obtain ⟨i, hi, hglobal⟩ := List.mem_filterMap.mp hg
  refine (hm.imports i hi).global g ?_
  unfold globalImport? at hglobal
  split at hglobal
  · rename_i htype
    rw [htype, Option.some.inj hglobal]
  · cases hglobal

/-- The scope of a plain module has integer types only. -/
theorem Plain.scope_proper (hm : m.Plain) {locals : List LocalGroup}
    (hlocals : ∀ g ∈ locals, g.type.IsInt) : (m.scope locals).Proper where
  localType := by
    intro i t ht
    obtain ⟨g, hg, rfl⟩ := LocalGroup.mem_of_typeAt ht
    exact hlocals g hg
  globalType := by
    intro i g hg
    rw [scope_globalType] at hg
    rcases List.mem_append.mp (List.mem_of_getElem? hg) with himported | hown
    · exact hm.importedGlobals g himported
    · obtain ⟨d, hd, rfl⟩ := List.mem_map.mp hown
      exact hm.globals d hd
  functionType := by
    intro i f hf
    rw [scope_functionType] at hf
    exact (hm.functionType? hf).proper
  type := by
    intro i f hf
    rw [scope_type] at hf
    exact (hm.type? hf).proper

/-- The scope of a plain module has results of at most one type. -/
theorem Plain.scope_narrow (hm : m.Plain) (locals : List LocalGroup) :
    (m.scope locals).Narrow where
  functionType := by
    intro i f hf
    rw [scope_functionType] at hf
    exact (hm.functionType? hf).results_le
  type := by
    intro i f hf
    rw [scope_type] at hf
    exact (hm.type? hf).results_le

/-! ## Functions -/

/-- A function that was made ready. -/
theorem compileFunction_eq_ok {imported i : Nat} {index : UInt32} {body : FuncBody} {fn : Function}
    (hok : m.compileFunction imported i index body = .ok fn) :
    m.type? index = some fn.type ∧ fn.locals = LocalGroup.total (localGroups fn.type body) ∧
      Body.check (m.scope (localGroups fn.type body)) fn.type.results body.offset body.code =
        .ok fn.body := by
  unfold compileFunction at hok
  cases htype : m.type? index with
  | none => simp [htype] at hok
  | some type =>
    simp only [htype] at hok
    cases hcheck : Body.check (m.scope (localGroups type body)) type.results body.offset
        body.code with
    | error e => simp [hcheck] at hok
    | ok checked =>
      simp only [hcheck, Except.ok.injEq] at hok
      subst hok
      exact ⟨rfl, rfl, hcheck⟩

/-- The functions that were made ready, one by one. -/
theorem compileFrom_eq_ok {imported i : Nat} {pairs : List (UInt32 × FuncBody)}
    {fns : List Function} (hok : m.compileFrom imported i pairs = .ok fns) :
    List.Forall₂ (fun pair fn => ∃ i, m.compileFunction imported i pair.1 pair.2 = .ok fn) pairs
      fns := by
  induction pairs generalizing i fns with
  | nil =>
    obtain rfl := Except.ok.inj hok
    exact .nil
  | cons pair pairs ih =>
    obtain ⟨index, body⟩ := pair
    simp only [compileFrom, except_bind_eq_ok, except_pure_eq_ok] at hok
    obtain ⟨fn, hfn, rest, hrest, rfl⟩ := hok
    exact .cons ⟨i, hfn⟩ (ih hrest)

/-- A compiled function has the index that follows the imports. -/
theorem index_of_compileFunction {imported i : Nat} {index : UInt32} {body : FuncBody}
    {fn : Function} (hok : m.compileFunction imported i index body = .ok fn) :
    fn.index = UInt32.ofNat (imported + i) := by
  unfold compileFunction at hok
  split at hok
  · cases hok
  · simp only at hok
    split at hok
    · cases hok
    · obtain rfl := Except.ok.inj hok
      rfl

/-- Functions that are made ready get the indices that they are called by. -/
theorem index_of_compileFrom {imported i : Nat} {pairs : List (UInt32 × FuncBody)}
    {fns : List Function} (hok : m.compileFrom imported i pairs = .ok fns) {j : Nat} {fn : Function}
    (hfn : fns[j]? = some fn) : fn.index = UInt32.ofNat (imported + (i + j)) := by
  induction pairs generalizing i j fns with
  | nil =>
    obtain rfl := Except.ok.inj hok
    cases hfn
  | cons pair pairs ih =>
    obtain ⟨index, body⟩ := pair
    simp only [compileFrom, except_bind_eq_ok, except_pure_eq_ok] at hok
    obtain ⟨first, hfirst, rest, hrest, rfl⟩ := hok
    cases j with
    | zero =>
      obtain rfl := Option.some.inj hfn
      exact index_of_compileFunction hfirst
    | succ j =>
      rw [ih hrest (by simpa using hfn)]
      congr 2
      omega

/-- All functions that were made ready. -/
theorem compile_eq_ok {fns : List Function} (hok : m.compile = .ok fns)
    (hlength : (m.functions.getD []).length = (m.code.getD []).length) :
    List.Forall₂ (fun pair fn => ∃ i, m.compileFunction m.importedFunctions.length i pair.1 pair.2 =
      .ok fn) ((m.functions.getD []).zip (m.code.getD [])) fns := by
  simp only [compile] at hok
  split at hok
  · rename_i hempty
    obtain rfl := Except.ok.inj hok
    rw [List.isEmpty_iff.mp hempty, List.zip_nil_right]
    exact .nil
  · rw [if_neg (not_not.mpr hlength)] at hok
    exact compileFrom_eq_ok hok

/-! ## Validity -/

/-- A requirement is met exactly if its condition holds. -/
theorem require_eq_ok {condition : Bool} {rule : Violation} {u : Unit} :
    require condition rule = .ok u ↔ condition = true := by
  unfold require invalid
  split <;> simp_all

/-- A check of a list has accepted each entry. -/
theorem forEachFrom_eq_ok {α : Type} {check : Nat → α → Except InvalidModule Unit} {i : Nat}
    {entries : List α} {u : Unit} (hok : forEachFrom check i entries = .ok u) :
    ∀ a ∈ entries, ∃ j, check j a = .ok () := by
  induction entries generalizing i with
  | nil => simp
  | cons a entries ih =>
    simp only [forEachFrom, except_bind_eq_ok] at hok
    obtain ⟨⟨⟩, hfirst, hrest⟩ := hok
    intro b hb
    rcases List.mem_cons.mp hb with rfl | hb
    · exact ⟨i, hfirst⟩
    · exact ih hrest b hb

/-- What the engine relies on in a valid module. -/
structure Valid (m : Module) : Prop where
  plain : m.Plain
  length_eq : (m.functions.getD []).length = (m.code.getD []).length
  functions : ∀ index ∈ m.functions.getD [], (m.type? index).isSome
  elements : ∀ s ∈ m.elements.getD [], ∀ f ∈ s.functions, (m.functionType? f).isSome
  exports : ∀ e ∈ m.exports.getD [], e.kind = .function → (m.functionType? e.index).isSome
  memoryCount_le : m.memoryCount ≤ 1
  start : ∀ f, m.start = some f → ∃ type, m.functionType? f = some type ∧ type.params = []

/-- What is exported exists. -/
theorem checkExportsFrom_eq_ok {seen : List String} {exports : List Export} {u : Unit}
    (hok : m.checkExportsFrom seen exports = .ok u) :
    ∀ e ∈ exports, m.exportExists e = true := by
  induction exports generalizing seen with
  | nil => simp
  | cons e exports ih =>
    simp only [checkExportsFrom, except_bind_eq_ok, require_eq_ok] at hok
    obtain ⟨⟨⟩, -, ⟨⟩, hexists, hrest⟩ := hok
    intro e' he'
    rcases List.mem_cons.mp he' with rfl | he'
    · exact hexists
    · exact ih hrest e' he'

/-- A module that has passed every check of `validate`. -/
structure Validated (m : Module) : Prop where
  imports : m.checkImports = .ok ()
  functions : m.checkFunctions = .ok ()
  tables : m.checkTables = .ok ()
  memories : m.checkMemories = .ok ()
  globals : m.checkGlobals = .ok ()
  elements : m.checkElements = .ok ()
  data : m.checkData = .ok ()
  start : m.checkStart = .ok ()
  exports : m.checkExports = .ok ()
  code : m.checkCode = .ok ()

/-- Validation succeeds exactly if each of its checks does. -/
theorem validate_eq_ok : m.validate = .ok () ↔ m.Validated := by
  simp only [validate, except_bind_eq_ok]
  constructor
  · rintro ⟨_, himports, _, hfunctions, _, htables, _, hmemories, _, hglobals, _, helements,
      _, hdata, _, hstart, _, hexports, hcode⟩
    exact ⟨himports, hfunctions, htables, hmemories, hglobals, helements, hdata, hstart, hexports,
      hcode⟩
  · intro h
    exact ⟨_, h.imports, _, h.functions, _, h.tables, _, h.memories, _, h.globals, _, h.elements,
      _, h.data, _, h.start, _, h.exports, h.code⟩

/-- A module is loaded exactly if its bytes decode to it and it passes every check. -/
theorem load_eq_ok {bytes : List UInt8} {ending : Ending} :
    load bytes ending = .ok m ↔ decode bytes ending = .ok m ∧ m.Validated := by
  unfold load
  cases decode bytes ending with
  | error e => simp
  | ok decoded =>
    simp only [Except.ok.injEq]
    constructor
    · intro hok
      cases hvalidate : decoded.validate with
      | error e => simp [hvalidate] at hok
      | ok u =>
        obtain rfl : decoded = m := by simpa [hvalidate] using hok
        exact ⟨rfl, validate_eq_ok.mp hvalidate⟩
    · rintro ⟨rfl, hvalidated⟩
      rw [validate_eq_ok.mpr hvalidated]

/-- There are as many types of functions as bodies, and each type is one of the module. -/
theorem checkFunctions_eq_ok {u : Unit} (hok : m.checkFunctions = .ok u) :
    (m.functions.getD []).length = (m.code.getD []).length ∧
      ∀ index ∈ m.functions.getD [], (m.type? index).isSome := by
  simp only [checkFunctions, except_bind_eq_ok, require_eq_ok, decide_eq_true_eq] at hok
  obtain ⟨_, hlength, htypes⟩ := hok
  refine ⟨hlength, fun index hindex => ?_⟩
  obtain ⟨j, hj⟩ := forEachFrom_eq_ok htypes index hindex
  exact require_eq_ok.mp hj

/-- A module that was loaded is valid. -/
theorem valid_of_load {bytes : List UInt8} {ending : Ending} (hok : load bytes ending = .ok m) :
    m.Valid := by
  obtain ⟨hdecode, hvalidated⟩ := load_eq_ok.mp hok
  obtain ⟨hlength, htypes⟩ := checkFunctions_eq_ok hvalidated.functions
  refine ⟨plain_of_decode hdecode, hlength, htypes, ?_, ?_, ?_, ?_⟩
  · intro s hs f hf
    obtain ⟨j, hj⟩ := forEachFrom_eq_ok hvalidated.elements s hs
    simp only [except_bind_eq_ok] at hj
    obtain ⟨_, -, _, -, hall⟩ := hj
    obtain ⟨k, hk⟩ := forEachFrom_eq_ok hall f hf
    exact require_eq_ok.mp hk
  · intro e he hkind
    have hexists := checkExportsFrom_eq_ok hvalidated.exports e he
    rwa [exportExists, if_pos hkind] at hexists
  · have hmemories := hvalidated.memories
    simp only [checkMemories, except_bind_eq_ok, require_eq_ok, decide_eq_true_eq] at hmemories
    obtain ⟨_, hcount, -⟩ := hmemories
    exact hcount
  · intro f hf
    have hstart := hvalidated.start
    simp only [checkStart, hf] at hstart
    split at hstart
    · cases hstart
    · rename_i type htype
      simp only [require_eq_ok, Bool.and_eq_true, List.isEmpty_iff] at hstart
      exact ⟨type, htype, hstart.1⟩

end Module

/-! ## Instances -/

section

variable {α β : Type} {R : α → β → Prop}

/-- Entries at the same place of related lists are related. -/
theorem forall₂_getElem? {as : List α} {bs : List β} (hall : List.Forall₂ R as bs) {i : Nat} {b : β}
    (hb : bs[i]? = some b) : ∃ a, as[i]? = some a ∧ R a b := by
  induction hall generalizing i with
  | nil => cases hb
  | @cons a b' as bs hab _ ih =>
    cases i with
    | zero =>
      obtain rfl := Option.some.inj hb
      exact ⟨a, rfl, hab⟩
    | succ i => exact ih (by simpa using hb)

/-- Entries that each have a relative make a list of relatives. -/
theorem exists_forall₂ {as : List α} (hall : ∀ a ∈ as, ∃ b, R a b) :
    ∃ bs, List.Forall₂ R as bs := by
  induction as with
  | nil => exact ⟨[], .nil⟩
  | cons a as ih =>
    obtain ⟨b, hb⟩ := hall a (by simp)
    obtain ⟨bs, hbs⟩ := ih fun a ha => hall a (by simp [ha])
    exact ⟨b :: bs, .cons hb hbs⟩

end

variable {H σ : Type}

/-- An instance runs the functions of a module: it has its types and functions, and for its imports
it was given functions of their types. Its memory, globals and table may be any. -/
structure Instance.Implements (inst : Instance H) (m : Module) : Prop where
  types_eq : inst.types = (m.types.getD []).toArray
  functions_eq : m.compile = .ok inst.functions.toList
  imports_eq : inst.imports.toList.map (fun f => some f.type) = m.importedFunctions.map m.type?

/-- The code of the functions of a module. -/
def Module.Writes (m : Module) (codes : List Code) : Prop :=
  List.Forall₂ FuncBody.Writes (m.code.getD []) codes

section

variable {m : Module} {inst : Instance H}

/-- An instance has the module's imported functions. -/
theorem Instance.Implements.length_imports (himpl : inst.Implements m) :
    inst.imports.size = m.importedFunctions.length := by
  simpa using congrArg List.length himpl.imports_eq

section

variable (himpl : inst.Implements m)
  (hlength : (m.functions.getD []).length = (m.code.getD []).length)

include himpl hlength

/-- The function that an index of an instance stands for, as it stands in the module. -/
theorem Instance.Implements.exists_body {i : Nat} {fn : Function}
    (hfn : inst.functions[i]? = some fn) :
    ∃ index body, (m.functions.getD [])[i]? = some index ∧ (m.code.getD [])[i]? = some body ∧
      m.type? index = some fn.type ∧
      fn.locals = LocalGroup.total (Module.localGroups fn.type body) ∧
      Body.check (m.scope (Module.localGroups fn.type body)) fn.type.results body.offset body.code =
        .ok fn.body := by
  have hall := Module.compile_eq_ok himpl.functions_eq hlength
  rw [← Array.getElem?_toList] at hfn
  obtain ⟨⟨index, body⟩, hpair, j, hcompiled⟩ := forall₂_getElem? hall hfn
  obtain ⟨hindex, hbody⟩ := List.getElem?_zip_eq_some.mp hpair
  exact ⟨index, body, hindex, hbody, Module.compileFunction_eq_ok hcompiled⟩

/-- An instance has the module's own functions. -/
theorem Instance.Implements.length_functions :
    inst.functions.size = (m.functions.getD []).length := by
  have hcompiled := (Module.compile_eq_ok himpl.functions_eq hlength).length_eq
  rw [List.length_zip, ← hlength, Nat.min_self, Array.length_toList] at hcompiled
  exact hcompiled.symm

/-- The functions of an instance know the indices that they are called by. -/
theorem Instance.Implements.index_eq {i : Nat} {fn : Function}
    (hfn : inst.functions[i]? = some fn) : fn.index = UInt32.ofNat (inst.imports.size + i) := by
  have hcompiled := himpl.functions_eq
  rw [← Array.getElem?_toList] at hfn
  simp only [Module.compile] at hcompiled
  split at hcompiled
  · rw [← Except.ok.inj hcompiled] at hfn
    cases hfn
  · rw [if_neg (not_not.mpr hlength)] at hcompiled
    rw [Module.index_of_compileFrom hcompiled hfn, himpl.length_imports, Nat.zero_add]

/-- The functions of an instance have the types that the module gives them. -/
theorem Instance.Implements.signature?_eq_functionType? (i : UInt32) :
    inst.signature? i = m.functionType? i := by
  have himports := himpl.length_imports
  simp only [Instance.signature?, Module.functionType?]
  by_cases hi : i.toNat < m.importedFunctions.length
  · have himport := congrArg (·[i.toNat]?) himpl.imports_eq
    have hsize : i.toNat < inst.imports.size := by omega
    simp only [List.getElem?_map, Array.getElem?_toList, Array.getElem?_eq_getElem hsize,
      List.getElem?_eq_getElem hi, Option.map_some, Option.some.injEq] at himport
    simp only [Array.getElem?_eq_getElem hsize, if_pos hi, List.getElem?_eq_getElem hi,
      Option.bind_some, himport]
  · have hnone : inst.imports[i.toNat]? = none := by
      rw [Array.getElem?_eq_none]
      omega
    simp only [hnone, if_neg hi, himports]
    cases hfn : inst.functions[i.toNat - m.importedFunctions.length]? with
    | some fn =>
      obtain ⟨index, body, hindex, -, htype, -⟩ := himpl.exists_body hlength hfn
      simp [hindex, htype]
    | none =>
      rw [Array.getElem?_eq_none_iff, himpl.length_functions hlength] at hfn
      simp [List.getElem?_eq_none hfn]

end

/-- An index has the signature that the module gives it. -/
theorem Instance.Implements.signature?_eq (himpl : inst.Implements m) (hvalid : m.Valid)
    (i : UInt32) : inst.signature? i = m.functionType? i :=
  himpl.signature?_eq_functionType? hvalid.length_eq i

/-- The functions of an instance are linked as the module's scope says. -/
theorem Instance.Implements.links (himpl : inst.Implements m) (hvalid : m.Valid) {fn : Function}
    {locals : List LocalGroup} (hlocals : fn.locals = LocalGroup.total locals) :
    Links (m.scope locals) inst fn where
  localType ht := by
    rw [hlocals]
    exact LocalGroup.lt_total_of_typeAt ht
  functionType hf := by
    rw [himpl.signature?_eq hvalid, ← Module.scope_functionType]
    exact hf
  type hf := by
    rw [Module.scope_type] at hf
    rw [himpl.types_eq, List.getElem?_toArray]
    exact hf

/-- Every body of a module that is implemented spells some code. -/
theorem Instance.Implements.exists_codes (himpl : inst.Implements m) (hvalid : m.Valid) :
    ∃ codes, m.Writes codes := by
  refine exists_forall₂ fun body hbody => ?_
  obtain ⟨i, hi, hbody⟩ := List.getElem_of_mem hbody
  have hsize : i < inst.functions.size := by
    rw [himpl.length_functions hvalid.length_eq, hvalid.length_eq]
    exact hi
  obtain ⟨index, body', -, hbody', -, -, hcheck⟩ :=
    himpl.exists_body hvalid.length_eq (Array.getElem?_eq_getElem hsize)
  rw [List.getElem?_eq_getElem hi, Option.some.injEq] at hbody'
  obtain ⟨code, first, hspells, hbytes⟩ := exists_code_of_check hcheck
  exact ⟨code, first, hspells, by rw [← hbody, hbody', hbytes]⟩

/-- The functions of an instance are those that its module was written as. -/
theorem Instance.Implements.realizes {p : Setting H σ} (himpl : p.inst.Implements m)
    (hvalid : m.Valid) (hwrites : m.Writes p.codes) : Realizes p m where
  function := by
    intro i fn hfn
    obtain ⟨index, body, hindex, hbody, htype, hlocals, hcheck⟩ :=
      himpl.exists_body hvalid.length_eq hfn
    have hplain := hvalid.plain.type? htype
    have hbodyPlain := hvalid.plain.code body (List.mem_of_getElem? hbody)
    obtain ⟨code, hcode, first, hspells, hbytes⟩ := forall₂_getElem? hwrites.flip hbody
    obtain ⟨result, hresult⟩ := hplain.exists_result
    have hlength := hbodyPlain.length_lt
    rw [hbytes, List.length_append] at hlength
    rw [hresult, hbytes] at hcheck
    refine ⟨code, Module.localGroups fn.type body, result, hcode, ?_, himpl.links hvalid hlocals,
      ?_, ?_⟩
    · refine lays_of_check (hvalid.plain.scope_proper ?_) (hvalid.plain.scope_narrow _) hspells
        (by omega) hcheck
      exact Module.isInt_of_mem_localGroups hplain hbodyPlain
    · rw [hresult, results, List.length_map]
    · rw [hlocals]
      exact LocalGroup.length_le_total _ _
  results_le := by
    intro i f hf
    have himport := congrArg (·[i]?) himpl.imports_eq
    simp only [List.getElem?_map, Array.getElem?_toList, hf, Option.map_some] at himport
    obtain ⟨index, -, htype⟩ := Option.map_eq_some_iff.mp himport.symm
    exact (hvalid.plain.type? htype).results_le

end

end IntWasm
