import IntWasm.Proofs.Module.Functions

/-!
# What validation has checked

Validation runs the checks that loading leaves to it: every body against its type, and every
constant expression against the type that is expected of it. Whatever is done with a loaded module
later can rely on their success. Main statement: `checked_of_load`.
-/

namespace IntWasm

namespace Module

/-- The checks of bodies and constant expressions that a module has passed. -/
structure Checked (m : Module) : Prop where
  bodies : ∀ {i : Nat} {index : UInt32} {body : FuncBody}, (m.functions.getD [])[i]? = some index →
    (m.code.getD [])[i]? = some body → ∃ type checked, m.type? index = some type ∧
      Body.check (m.scope (localGroups type body)) type.results body.offset body.code = .ok checked
  globals : ∀ g ∈ m.globals.getD [], checkConst m.importedGlobals g.type.type g.init = .ok ()
  elements : ∀ s ∈ m.elements.getD [], checkConst m.importedGlobals .i32 s.offset = .ok ()
  data : ∀ s ∈ m.data.getD [], checkConst m.importedGlobals .i32 s.offset = .ok ()
  start : ∀ {index : UInt32} {type : FuncType}, m.start = some index →
    m.functionType? index = some type →
    type.params = [] ∧ type.results = []

variable {m : Module}

/-- Naming the part does not change what is accepted. -/
theorem inPart_eq_ok {part : String} {r : Except DecodeError Unit} {u : Unit} :
    inPart part r = .ok u ↔ r = .ok () := by
  simp [inPart]

/-- A body that checks against its type. -/
theorem checkBody_eq_ok {function : Nat} {type : FuncType} {body : FuncBody} {u : Unit}
    (hok : m.checkBody function type body = .ok u) :
    ∃ checked, Body.check (m.scope (localGroups type body)) type.results body.offset body.code =
      .ok checked := by
  simp only [checkBody] at hok
  split at hok
  · cases hok
  · split at hok
    · rename_i checked hchecked
      exact ⟨checked, hchecked⟩
    · cases hok

/-- The body of every function that was declared was checked. -/
theorem checkBody_of_checkCode {u : Unit} (hcode : m.checkCode = .ok u) {i : Nat} {index : UInt32}
    {body : FuncBody} {type : FuncType} (hindex : (m.functions.getD [])[i]? = some index)
    (hbody : (m.code.getD [])[i]? = some body) (htype : m.type? index = some type) :
    ∃ j, m.checkBody j type body = .ok () := by
  have hpair : (index, body) ∈ (m.functions.getD []).zip (m.code.getD []) := by
    refine List.mem_of_getElem? (i := i) ?_
    rw [List.getElem?_zip_eq_some]
    exact ⟨hindex, hbody⟩
  obtain ⟨j, hj⟩ := forEachFrom_eq_ok hcode _ hpair
  simp only [htype, Option.getD_some] at hj
  exact ⟨_, hj⟩

/-- Every function that was declared has a type, and its body checks against it. -/
theorem exists_checked (htypes : ∀ index ∈ m.functions.getD [], (m.type? index).isSome)
    {u : Unit} (hcode : m.checkCode = .ok u) {i : Nat} {index : UInt32} {body : FuncBody}
    (hindex : (m.functions.getD [])[i]? = some index) (hbody : (m.code.getD [])[i]? = some body) :
    ∃ type checked, m.type? index = some type ∧
      Body.check (m.scope (localGroups type body)) type.results body.offset body.code =
        .ok checked := by
  obtain ⟨type, htype⟩ := Option.isSome_iff_exists.mp (htypes index (List.mem_of_getElem? hindex))
  obtain ⟨j, hj⟩ := checkBody_of_checkCode hcode hindex hbody htype
  obtain ⟨checked, hchecked⟩ := checkBody_eq_ok hj
  exact ⟨type, checked, htype, hchecked⟩

/-- No function of a module that was loaded has too many locals. -/
theorem total_le_of_load {bytes : List UInt8} {ending : Ending} (hok : load bytes ending = .ok m)
    {i : Nat} {index : UInt32} {body : FuncBody} {type : FuncType}
    (hindex : (m.functions.getD [])[i]? = some index) (hbody : (m.code.getD [])[i]? = some body)
    (htype : m.type? index = some type) : LocalGroup.total (localGroups type body) ≤ maxLocals := by
  obtain ⟨j, hj⟩ := checkBody_of_checkCode (load_eq_ok.mp hok).2.code hindex hbody htype
  by_contra hlt
  simp only [checkBody, if_pos (Nat.lt_of_not_le hlt)] at hj
  cases hj

/-- A module that was loaded has passed the checks of its parts. -/
theorem checked_of_load {bytes : List UInt8} {ending : Ending} (hok : load bytes ending = .ok m) :
    m.Checked := by
  have hvalidated := (load_eq_ok.mp hok).2
  refine ⟨exists_checked (valid_of_load hok).functions hvalidated.code, fun g hg => ?_,
    fun s hs => ?_, fun s hs => ?_, fun {index type} hindex htype => ?_⟩
  · obtain ⟨j, hj⟩ := forEachFrom_eq_ok hvalidated.globals g hg
    exact inPart_eq_ok.mp hj
  · obtain ⟨j, hj⟩ := forEachFrom_eq_ok hvalidated.elements s hs
    simp only [except_bind_eq_ok, inPart_eq_ok] at hj
    obtain ⟨_, -, _, hconst, -⟩ := hj
    exact hconst
  · obtain ⟨j, hj⟩ := forEachFrom_eq_ok hvalidated.data s hs
    simp only [except_bind_eq_ok, inPart_eq_ok] at hj
    obtain ⟨_, -, hconst⟩ := hj
    exact hconst
  · simpa [checkStart, hindex, htype, require_eq_ok] using hvalidated.start

end Module

end IntWasm
