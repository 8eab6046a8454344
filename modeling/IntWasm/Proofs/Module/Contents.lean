import IntWasm.Proofs.Module.Sections

/-!
# What sections make of a module

A module that was put together from sections has exactly their contents: the known ones once each,
in the order of their numbers, and the custom ones in the order in which they stood. Main
statements: `Module.known_foldl` and `Module.customs_foldl`.
-/

namespace IntWasm

attribute [ext] Module

namespace Module

/-- The contents of the known sections that a module has, in the order of their numbers. -/
def known (m : Module) : List Content :=
  (m.types.map .types).toList ++ ((m.imports.map .imports).toList ++
    ((m.functions.map .functions).toList ++ ((m.tables.map .tables).toList ++
    ((m.memories.map .memories).toList ++ ((m.globals.map .globals).toList ++
    ((m.exports.map .exports).toList ++ ((m.start.map .start).toList ++
    ((m.elements.map .elements).toList ++ ((m.code.map .code).toList ++
    (m.data.map .data).toList)))))))))

/-- A known section has numbers above those of others only if those are absent. -/
structure Below (m : Module) (n : UInt8) : Prop where
  types : n ≤ 1 → m.types = none
  imports : n ≤ 2 → m.imports = none
  functions : n ≤ 3 → m.functions = none
  tables : n ≤ 4 → m.tables = none
  memories : n ≤ 5 → m.memories = none
  globals : n ≤ 6 → m.globals = none
  exports : n ≤ 7 → m.exports = none
  start : n ≤ 8 → m.start = none
  elements : n ≤ 9 → m.elements = none
  code : n ≤ 10 → m.code = none
  data : n ≤ 11 → m.data = none

/-- Sections with smaller ids leave the larger ones to come. -/
theorem below_of_known {m : Module} {n : UInt8} (hlt : ∀ c ∈ m.known, c.id.number < n) :
    m.Below n := by
  have hnone {α : Type} {field : Option α} {make : α → Content} {k : UInt8}
      (hmem : ∀ a, field = some a → make a ∈ m.known) (hk : ∀ a, (make a).id.number = k)
      (hle : n ≤ k) :
      field = none := by
    cases hfield : field with
    | none => rfl
    | some a =>
      have hless := hlt _ (hmem a hfield)
      rw [hk a] at hless
      exact absurd hle (UInt8.not_le.mpr hless)
  exact {
    types := hnone (fun a ha => by simp [known, ha]) fun a =>
      show (Content.types a).id.number = 1 from rfl
    imports := hnone (fun a ha => by simp [known, ha]) fun a =>
      show (Content.imports a).id.number = 2 from rfl
    functions := hnone (fun a ha => by simp [known, ha]) fun a =>
      show (Content.functions a).id.number = 3 from rfl
    tables := hnone (fun a ha => by simp [known, ha]) fun a =>
      show (Content.tables a).id.number = 4 from rfl
    memories := hnone (fun a ha => by simp [known, ha]) fun a =>
      show (Content.memories a).id.number = 5 from rfl
    globals := hnone (fun a ha => by simp [known, ha]) fun a =>
      show (Content.globals a).id.number = 6 from rfl
    exports := hnone (fun a ha => by simp [known, ha]) fun a =>
      show (Content.exports a).id.number = 7 from rfl
    start := hnone (fun a ha => by simp [known, ha]) fun a =>
      show (Content.start a).id.number = 8 from rfl
    elements := hnone (fun a ha => by simp [known, ha]) fun a =>
      show (Content.elements a).id.number = 9 from rfl
    code := hnone (fun a ha => by simp [known, ha]) fun a =>
      show (Content.code a).id.number = 10 from rfl
    data := hnone (fun a ha => by simp [known, ha]) fun a =>
      show (Content.data a).id.number = 11 from rfl
  }

/-- A known section behind all others comes last. -/
theorem known_add {m : Module} {content : Content} (hknown : content.id ≠ .custom)
    (hlt : ∀ c ∈ m.known, c.id.number < content.id.number) :
    (m.add content).known = m.known ++ [content] := by
  have hbelow := below_of_known hlt
  cases content
  case custom => exact (hknown rfl).elim
  all_goals
    simp only [Content.id, SectionId.type, SectionId.imports, SectionId.function, SectionId.table,
      SectionId.memory, SectionId.global, SectionId.exports, SectionId.start, SectionId.element,
      SectionId.code, SectionId.data] at hbelow
    simp [known, add, hbelow.types, hbelow.imports, hbelow.functions, hbelow.tables,
      hbelow.memories, hbelow.globals, hbelow.exports, hbelow.start, hbelow.elements,
      hbelow.code, hbelow.data]

/-- A custom section is none of the known ones. -/
theorem known_add_custom {m : Module} {content : Content} (hcustom : content.id = .custom) :
    (m.add content).known = m.known := by
  cases content
  case custom => rfl
  all_goals exact (Content.id_ne hcustom rfl).elim

/-- Whether contents are those of a known section. -/
def isKnown (content : Content) : Bool := content.id ≠ .custom

/-- Sections in a row have known numbers above a given one, and in ascending order. -/
theorem Sections.ascending {last : SectionId} {place : Nat} {rest : List UInt8}
    {parts : List (SectionSpan × Content)} (hsections : Sections last place rest parts) :
    ((parts.map Prod.snd).filter isKnown).Pairwise (fun a b => a.id.number < b.id.number) ∧
      ∀ content ∈ (parts.map Prod.snd).filter isKnown, last.number < content.id.number := by
  induction hsections with
  | nil => simp
  | @cons last place start size payload rest content parts hfollows hsize hstart
      hpayload hrest ih =>
    obtain ⟨hpairs, hlast⟩ := ih
    rw [List.map_cons, List.filter_cons]
    by_cases hcustom : content.id = .custom
    · simp only [lastKnown, if_pos hcustom] at hlast
      rw [if_neg (by simp [isKnown, hcustom])]
      exact ⟨hpairs, hlast⟩
    · simp only [lastKnown, if_neg hcustom] at hlast
      have hless := hfollows.resolve_left hcustom
      rw [if_pos (by simpa [isKnown] using hcustom)]
      refine ⟨hpairs.cons hlast, ?_⟩
      intro other hother
      rcases List.mem_cons.mp hother with rfl | hother
      · exact hless
      · exact UInt8.lt_trans hless (hlast other hother)

/-- The known contents of a module are those of its sections. -/
theorem known_foldl {m : Module} {parts : List (SectionSpan × Content)}
    (hpairs : (m.known ++ (parts.map Prod.snd).filter isKnown).Pairwise
      fun a b => a.id.number < b.id.number) :
    (parts.foldl addSection m).known = m.known ++ (parts.map Prod.snd).filter isKnown := by
  induction parts generalizing m with
  | nil => simp
  | cons part parts ih =>
    rw [List.map_cons, List.filter_cons] at hpairs ⊢
    rw [List.foldl_cons]
    by_cases hcustom : part.2.id = .custom
    · have hadded : (m.addSection part).known = m.known := known_add_custom hcustom
      rw [if_neg (by simp [isKnown, hcustom])] at hpairs ⊢
      rw [ih (by rwa [hadded]), hadded]
    · rw [if_pos (by simpa [isKnown] using hcustom)] at hpairs ⊢
      have hadded : (m.addSection part).known = m.known ++ [part.2] :=
        known_add hcustom fun c hc => (List.pairwise_append.mp hpairs).2.2 c hc part.2 (by simp)
      rw [List.append_cons] at hpairs ⊢
      rw [ih (by rwa [hadded]), hadded]

/-- The spans of sections are added in order. -/
theorem spans_foldl (m : Module) (parts : List (SectionSpan × Content)) :
    (parts.foldl addSection m).spans = m.spans ++ parts.map Prod.fst := by
  induction parts generalizing m with
  | nil => simp
  | cons part parts ih => simp [ih, addSection]

/-- The custom sections of a module are those among its sections. -/
theorem customs_foldl (m : Module) (parts : List (SectionSpan × Content)) :
    (parts.foldl addSection m).customs.map Content.custom =
      m.customs.map Content.custom ++ (parts.map Prod.snd).filter fun content =>
        !isKnown content := by
  induction parts generalizing m with
  | nil => simp
  | cons part parts ih =>
    rw [List.foldl_cons, ih, List.map_cons, List.filter_cons]
    obtain ⟨span, content⟩ := part
    cases content
    case custom entry => simp [addSection, add, isKnown, Content.id]
    all_goals
      rw [if_neg (by simpa [isKnown] using fun h => (Content.id_ne h rfl).elim)]
      rfl

end Module

end IntWasm
