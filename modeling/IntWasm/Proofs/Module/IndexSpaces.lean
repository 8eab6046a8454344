import IntWasm.Proofs.Module.Functions

/-!
# Index spaces

Each kind of definition is numbered by itself, the imports before the module's own. A module looks
up its functions by these numbers, its bodies see functions and globals by them, and its exports
refer to them. In a valid module every number below the size of its index space stands for
something, so no such reference leads nowhere. Main statements:
`Module.Indexed.functionType?_isSome_iff` and `Module.indexed_of_validate`.
-/

namespace IntWasm

/-- In a list of exports with different names each is found by its name. -/
theorem Export.find?_name {exports : List Export} (hnames : (exports.map (·.name)).Nodup)
    {e : Export} (he : e ∈ exports) : exports.find? (·.name = e.name) = some e := by
  induction exports with
  | nil => cases he
  | cons first exports ih =>
    obtain ⟨hfirst, hrest⟩ := List.nodup_cons.mp hnames
    rcases List.mem_cons.mp he with rfl | he
    · simp
    · have hne : first.name ≠ e.name := fun heq => hfirst (List.mem_map.mpr ⟨e, he, heq.symm⟩)
      rw [List.find?_cons_of_neg (by simpa using hne)]
      exact ih hrest he

namespace Module

variable {m : Module}

/-- What validation says about the index spaces of a module: the signatures of all functions exist,
those of the module's own have bodies, and what is exported exists and is found by its name. -/
structure Indexed (m : Module) : Prop where
  length_eq : (m.functions.getD []).length = (m.code.getD []).length
  imported : ∀ index ∈ m.importedFunctions, (m.type? index).isSome
  own : ∀ index ∈ m.functions.getD [], (m.type? index).isSome
  exported : ∀ e ∈ m.exports.getD [], m.exportExists e = true
  names : ((m.exports.getD []).map (·.name)).Nodup

/-- Exports that were checked have different names, none of which was seen before. -/
theorem nodup_of_checkExportsFrom {seen : List String} {exports : List Export} {u : Unit}
    (hok : m.checkExportsFrom seen exports = .ok u) :
    (exports.map (·.name)).Nodup ∧ ∀ e ∈ exports, e.name ∉ seen := by
  induction exports generalizing seen with
  | nil => simp
  | cons first exports ih =>
    simp only [checkExportsFrom, except_bind_eq_ok, require_eq_ok] at hok
    obtain ⟨⟨⟩, hfresh, ⟨⟩, -, hrest⟩ := hok
    obtain ⟨hnodup, hunseen⟩ := ih hrest
    refine ⟨List.nodup_cons.mpr ⟨fun hmem => ?_, hnodup⟩, fun e he => ?_⟩
    · obtain ⟨e, he, hname⟩ := List.mem_map.mp hmem
      exact hunseen e he (by simp [hname])
    · rcases List.mem_cons.mp he with rfl | he
      · simpa using hfresh
      · exact fun hmem => hunseen e he (List.mem_cons_of_mem _ hmem)

/-- The indices of a validated module are in their spaces. -/
theorem indexed_of_validate (hok : m.validate = .ok ()) : m.Indexed := by
  have hvalidated := validate_eq_ok.mp hok
  obtain ⟨hlength, htypes⟩ := checkFunctions_eq_ok hvalidated.functions
  refine ⟨hlength, fun index hindex => ?_, htypes, checkExportsFrom_eq_ok hvalidated.exports,
    (nodup_of_checkExportsFrom hvalidated.exports).1⟩
  obtain ⟨i, hi, himport⟩ := List.mem_filterMap.mp hindex
  obtain ⟨j, hj⟩ := forEachFrom_eq_ok hvalidated.imports i hi
  unfold functionImport? at himport
  split at himport
  · next type htype =>
    obtain rfl := Option.some.inj himport
    rw [htype] at hj
    exact require_eq_ok.mp hj
  · cases himport

/-- The index space of globals has the imported ones and the module's own, and nothing else. -/
theorem scope_globalType_isSome_iff (locals : List LocalGroup) (i : UInt32) :
    ((m.scope locals).globalType i).isSome ↔
      i.toNat < m.importedGlobals.length + (m.globals.getD []).length := by
  simp [scope_globalType]

namespace Indexed

variable (hindexed : m.Indexed)

include hindexed

/-- An index has a signature exactly if it is one of a function. -/
theorem functionType?_isSome_iff (i : UInt32) :
    (m.functionType? i).isSome ↔ i.toNat < m.functionCount := by
  simp only [Module.functionType?, functionCount]
  by_cases hi : i.toNat < m.importedFunctions.length
  · have hsome := hindexed.imported _ (List.getElem_mem hi)
    rw [if_pos hi, List.getElem?_eq_getElem hi, Option.bind_some]
    exact ⟨fun _ => by omega, fun _ => hsome⟩
  · rw [if_neg hi]
    cases hown : (m.functions.getD [])[i.toNat - m.importedFunctions.length]? with
    | none =>
      have hbeyond := List.getElem?_eq_none_iff.mp hown
      simp only [Option.bind_none, Option.isSome_none, Bool.false_eq_true, false_iff]
      omega
    | some index =>
      have hsome := hindexed.own index (List.mem_of_getElem? hown)
      have hinside := (List.getElem?_eq_some_iff.mp hown).1
      exact ⟨fun _ => by omega, fun _ => hsome⟩

/-- An exported function has a signature. -/
theorem exists_functionType {e : Export} (he : e ∈ m.exports.getD []) (hkind : e.kind = .function) :
    ∃ type, m.functionType? e.index = some type := by
  have hexists := hindexed.exported e he
  rw [exportExists, if_pos hkind] at hexists
  exact Option.isSome_iff_exists.mp hexists

/-- An exported global has a type. -/
theorem exists_globalType {e : Export} (he : e ∈ m.exports.getD []) (hkind : e.kind = .global)
    (locals : List LocalGroup) : ∃ type, (m.scope locals).globalType e.index = some type := by
  have hexists := hindexed.exported e he
  rw [exportExists, hkind, if_neg (by decide), if_neg (by decide), if_neg (by decide), if_pos rfl,
    decide_eq_true_eq] at hexists
  exact Option.isSome_iff_exists.mp ((scope_globalType_isSome_iff locals e.index).mpr hexists)

end Indexed

end Module

end IntWasm
