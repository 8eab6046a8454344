import IntWasm.Proofs.Module.Checked
import IntWasm.Report.Statistics
import IntWasm.Report.Summary

/-!
# The sections that reports need

A report reads most sections of a module without asking whether they are there. What it tells about
a loaded module is complete if they are, and otherwise it breaks off at the first that is not;
nothing else can go wrong. Main statement: `reports_need_sections`.
-/

namespace IntWasm

/-! ## Telling -/

namespace Telling

/-- A text is told to its end if a condition holds, and otherwise breaks off because something is
missing. -/
def Needs (x : Telling Unit) (P : Prop) : Prop :=
  ∀ text, Leads x text (fun _ _ => P) fun crash _ => crash = .missing ∧ ¬ P

variable {x y : Telling Unit} {P Q : Prop}

/-- Text is told in any case. -/
theorem needs_say (piece : String) : Needs (say piece) True := fun _ => trivial

/-- Telling nothing needs nothing. -/
theorem needs_pure : Needs (pure ()) True := fun _ => trivial

/-- What is needed may be said in another way. -/
theorem Needs.iff (hx : Needs x P) (hiff : P ↔ Q) : Needs x Q := propext hiff ▸ hx

/-- Two parts of a report need what each needs. -/
theorem Needs.bind (hx : Needs x P) (hy : Needs y Q) : Needs (do x; y) (P ∧ Q) := by
  intro text
  refine Leads.bind ((hx text).weaken (fun _ _ hP => hP) fun crash _ hfails => ?_)
    fun _ text' hP => ?_
  · exact ⟨hfails.1, fun hboth => hfails.2 hboth.1⟩
  · refine (hy text').weaken (fun _ _ hQ => ⟨hP, hQ⟩) fun crash _ hfails => ?_
    exact ⟨hfails.1, fun hboth => hfails.2 hboth.2⟩

/-- The entries of a section that has to be there. -/
theorem needs_entries {α : Type} {list : Option (List α)} {next : List α → Telling Unit}
    (hnext : Needs (next (list.getD [])) P) :
    Needs (do next (← entries list)) (list.isSome ∧ P) := by
  intro text
  cases list with
  | none => exact ⟨rfl, fun hboth => absurd hboth.1 (by simp)⟩
  | some list =>
    refine (hnext text).weaken (fun _ _ hP => ⟨rfl, hP⟩) fun crash _ hfails => ?_
    exact ⟨hfails.1, fun hboth => hfails.2 hboth.2⟩

/-- What is told for every entry is needed if there are entries. -/
theorem needs_sayEach {α : Type} {piece : Nat → α → Telling Unit} (i : Nat) (list : List α)
    (hpiece : ∀ j a, list[j]? = some a → Needs (piece (i + j) a) P) :
    Needs (sayEach piece i list) (list ≠ [] → P) := by
  induction list generalizing i with
  | nil => exact needs_pure.iff (by simp)
  | cons a list ih =>
    have hfirst := hpiece 0 a rfl
    have hrest := ih (i + 1) fun j b hb => by
      have := hpiece (j + 1) b hb
      rwa [Nat.add_comm j 1, ← Nat.add_assoc] at this
    exact (hfirst.bind hrest).iff
      ⟨fun hboth _ => hboth.1, fun h => ⟨h (by simp), fun _ => h (by simp)⟩⟩

/-- Pieces that need nothing. -/
theorem needs_sayAll {α : Type} {piece : Nat → α → String} (i : Nat) (list : List α) :
    Needs (sayEach (fun i a => say (piece i a)) i list) True :=
  (needs_sayEach i list fun _ _ _ => needs_say _).iff (by simp)

end Telling

/-! ## Summaries -/

/-- The sections without which a summary breaks off. -/
structure Module.Summarizable (m : Module) : Prop where
  types : m.types.isSome
  imports : m.imports.isSome
  functions : m.functions.isSome
  tables : m.tables.isSome
  elements : m.tables.getD [] ≠ [] → m.elements.isSome
  memories : m.memories.isSome
  data : m.memories.getD [] ≠ [] → m.data.isSome
  globals : m.globals.isSome
  exports : m.exports.isSome

namespace Module

open Telling

variable {m : Module} (names : FunctionNames)

/-- A function is told with the size of its body, which a valid module has. -/
theorem needs_tellFunction (imported : Nat) {i : Nat} {body : FuncBody}
    (hbody : (m.code.getD [])[i]? = some body) : Needs (m.tellFunction names imported i) True := by
  cases hcode : m.code with
  | none => simp [hcode] at hbody
  | some bodies =>
    rw [hcode, Option.getD_some] at hbody
    intro text
    unfold tellFunction
    simp [Leads, entries, hcode, hbody, say, estate_modify, bind, EStateM.bind, pure, EStateM.pure]

/-- The functions are told if their section is there. -/
theorem needs_tellFunctions (hlength : (m.functions.getD []).length = (m.code.getD []).length) :
    Needs (m.tellFunctions names) m.functions.isSome := by
  have heach : Needs (sayEach (fun i _ => m.tellFunction names m.importedFunctions.length i) 0
      (m.functions.getD [])) (m.functions.getD [] ≠ [] → True) :=
    needs_sayEach 0 _ fun j index hindex => by
      have hlt : j < (m.code.getD []).length := hlength ▸ (List.getElem?_eq_some_iff.mp hindex).1
      rw [Nat.zero_add]
      exact needs_tellFunction names _ (List.getElem?_eq_getElem hlt)
  exact ((needs_say _).bind (needs_entries heach)).iff (by simp)

/-- The tables are told if their section is there, and the element section if there are any. -/
theorem needs_tellTables (m : Module) : Needs m.tellTables
    (m.tables.isSome ∧ (m.tables.getD [] ≠ [] → m.elements.isSome)) :=
  needs_entries (needs_sayEach 0 _ fun _ _ _ => (needs_entries (needs_say _)).iff (by simp))

/-- The memories are told if their section is there, and the data section if there are any. -/
theorem needs_tellMemories (m : Module) : Needs m.tellMemories
    (m.memories.isSome ∧ (m.memories.getD [] ≠ [] → m.data.isSome)) :=
  needs_entries (needs_sayEach 0 _ fun _ _ _ => (needs_entries (needs_say _)).iff (by simp))

/-- The globals are told if their section is there. -/
theorem needs_tellGlobals (m : Module) : Needs m.tellGlobals m.globals.isSome := by
  refine (needs_entries (P := True) ?_).iff (by simp)
  split
  · exact ((needs_say _).bind (needs_sayAll 0 _)).iff (by simp)
  · exact needs_sayAll 0 _

/-- A summary of a valid module is complete if the sections that it reads are there. -/
theorem needs_summary (hvalid : m.Valid) : Needs (m.summary names) m.Summarizable := by
  have htypes : Needs m.tellTypes m.types.isSome :=
    ((needs_say _).bind (needs_entries (needs_sayAll 0 _))).iff (by simp)
  have himports : Needs m.tellImports m.imports.isSome :=
    ((needs_say _).bind (needs_entries (needs_sayAll 0 _))).iff (by simp)
  have hexports : Needs m.tellExports m.exports.isSome :=
    ((needs_say _).bind (needs_entries (needs_sayAll 0 _))).iff (by simp)
  refine Needs.iff (htypes.bind (himports.bind ((needs_tellFunctions names hvalid.length_eq).bind
    ((needs_tellTables m).bind ((needs_tellMemories m).bind ((needs_tellGlobals m).bind
      (hexports.bind (Q := True) ?start))))))) ⟨?_, ?_⟩
  case start =>
    cases m.start with
    | none => exact needs_pure
    | some index => exact needs_say _
  · rintro ⟨types, imports, functions, ⟨tables, elements⟩, ⟨memories, data⟩, globals, exports, -⟩
    exact ⟨types, imports, functions, tables, elements, memories, data, globals, exports⟩
  · rintro ⟨types, imports, functions, tables, elements, memories, data, globals, exports⟩
    exact ⟨types, imports, functions, ⟨tables, elements⟩, ⟨memories, data⟩, globals,
      exports, trivial⟩

end Module

/-! ## Statistics -/

namespace Statistics

variable {m : Module} {names : FunctionNames}

/-- The row of the function with a given body, whose index among the module's own is `i`. -/
def IsRow (m : Module) (names : FunctionNames) (i : Nat) (code : FuncBody)
    (fields : List String) : Prop :=
  ∃ type body, ((m.functions.getD [])[i]?).bind m.type? = some type ∧
    Body.check (m.scope (Module.localGroups type code)) type.results code.offset
    code.code = .ok body ∧
    fields = row ((names (UInt32.ofNat (m.importedFunctions.length + i))).getD "")
      (m.importedFunctions.length + i) type (LocalGroup.total (Module.localGroups type code)) body

/-- A table of rows with its head, if it has any row. -/
def table : List (List String) → String
  | [] => ""
  | rows => Text.Csv.row heads ++ String.join (rows.map Text.Csv.row)

/-- A table has a row for each list of fields. -/
theorem table_cons (fields : List String) (rows : List (List String)) :
    table (fields :: rows) =
      Text.Csv.row heads ++ (Text.Csv.row fields ++ String.join (rows.map Text.Csv.row)) :=
  congrArg (Text.Csv.row heads ++ ·) String.join_cons

/-- The row of a body is told, and before the first row the head of the table. -/
theorem tellBody_leads (hchecked : m.Checked) {i : Nat} {index : UInt32} {code : FuncBody}
    (hindex : (m.functions.getD [])[i]? = some index) (hcode : (m.code.getD [])[i]? = some code)
    (text : String) :
    Leads (tellBody m names i code) text
      (fun _ text' => ∃ fields, IsRow m names i code fields ∧
        text' = text ++ (if i = 0 then Text.Csv.row heads else "") ++ Text.Csv.row fields)
      fun _ _ => False := by
  obtain ⟨type, body, htype, hbody⟩ := hchecked.bodies hindex hcode
  have hfound : ((m.functions.getD [])[i]?).bind m.type? = some type := by rw [hindex]; exact htype
  unfold tellBody Leads
  by_cases hfirst : i = 0
  · simp only [hfound, hbody, if_pos hfirst]
    exact ⟨_, ⟨type, body, hfound, hbody, rfl⟩, rfl⟩
  · simp only [hfound, hbody, if_neg hfirst]
    exact ⟨_, ⟨type, body, hfound, hbody, rfl⟩, by simp [String.append_empty]⟩

/-- The rows of bodies are told in order. -/
theorem tellFrom_leads (hvalid : m.Valid) (hchecked : m.Checked) (i : Nat) (bodies : List FuncBody)
    (hbodies : (m.code.getD []).drop i = bodies) (text : String) :
    Leads (tellFrom m names i bodies) text
      (fun _ text' => ∃ rows : List (List String), rows.length = bodies.length ∧
        (∀ j code, bodies[j]? = some code → ∃ fields, rows[j]? = some fields ∧
          IsRow m names (i + j) code fields) ∧
        text' = text ++ (if i = 0 then table rows else String.join (rows.map Text.Csv.row)))
      fun _ _ => False := by
  induction bodies generalizing i text with
  | nil =>
    refine ⟨[], rfl, by simp, ?_⟩
    split <;> exact String.append_empty.symm
  | cons code bodies ih =>
    have hcode : (m.code.getD [])[i]? = some code := by
      have hhead := congrArg List.head? hbodies
      rwa [List.head?_drop] at hhead
    have hlt : i < (m.functions.getD []).length :=
      hvalid.length_eq ▸ (List.getElem?_eq_some_iff.mp hcode).1
    have hrest : (m.code.getD []).drop (i + 1) = bodies := by
      rw [← List.tail_drop, hbodies, List.tail_cons]
    refine (tellBody_leads hchecked (List.getElem?_eq_getElem hlt) hcode text).bind ?_
    rintro _ _ ⟨fields, hfields, rfl⟩
    refine (ih (i + 1) hrest _).weaken ?_ fun _ _ hfalse => hfalse
    rintro _ _ ⟨rows, hlength, hrows, rfl⟩
    refine ⟨fields :: rows, by simp [hlength], fun j other hother => ?_, ?_⟩
    · cases j with
      | zero =>
        obtain rfl := Option.some.inj hother
        exact ⟨fields, rfl, hfields⟩
      | succ j =>
        obtain ⟨fields', hfields', hrow⟩ := hrows j other hother
        exact ⟨fields', hfields', by rwa [Nat.add_comm j 1, ← Nat.add_assoc]⟩
    · have hlater : (if i + 1 = 0 then table rows else String.join (rows.map Text.Csv.row)) =
          String.join (rows.map Text.Csv.row) := if_neg (Nat.succ_ne_zero i)
      by_cases hi : i = 0
      · simp only [if_pos hi, hlater, table_cons, String.append_assoc]
      · simp only [if_neg hi, hlater, List.map_cons, String.join_cons, String.append_assoc,
          String.empty_append]

/-- The statistics of a loaded module are a table with a row for every body, if there is a section
of bodies, and otherwise nothing. -/
theorem tell_leads (hvalid : m.Valid) (hchecked : m.Checked) (text : String) :
    Leads (tell m names) text
      (fun _ text' => ∃ bodies, m.code = some bodies ∧ ∃ rows : List (List String),
        rows.length = bodies.length ∧
        (∀ i code, bodies[i]? = some code → ∃ fields, rows[i]? = some fields ∧
          IsRow m names i code fields) ∧
        text' = text ++ table rows)
      fun fault _ => fault = .crash .missing ∧ m.code = none := by
  unfold tell
  cases hcode : m.code with
  | none => exact ⟨rfl, rfl⟩
  | some bodies =>
    refine (tellFrom_leads hvalid hchecked 0 bodies (by simp [hcode]) text).weaken ?_
      fun _ _ hfalse => hfalse.elim
    rintro _ _ ⟨rows, hlength, hrows, rfl⟩
    exact ⟨bodies, rfl, rows, hlength, by simpa using hrows, rfl⟩

end Statistics

/-! ## Reports of loaded modules -/

/-- The reports of a loaded module depend on nothing but the sections that are there. The names of
its functions are known if there is a section of imports. A summary is told to its end if the
sections are there that it reads. The statistics are a table with exactly one row for every body, in
order, if there is a section of bodies. If a section that is read is absent the report breaks off
there; it never fails in another way. -/
theorem reports_need_sections {bytes : List UInt8} {ending : Ending} {m : Module}
    (hload : Module.load bytes ending = .ok m) :
    (match m.functionNames with
      | .ok _ => m.imports.isSome
      | .error crash => crash = .missing ∧ m.imports = none) ∧
    (∀ names text, Leads (m.summary names) text (fun _ _ => m.Summarizable)
      fun crash _ => crash = .missing ∧ ¬ m.Summarizable) ∧
    ∀ names text, Leads (Statistics.tell m names) text
      (fun _ text' => ∃ bodies, m.code = some bodies ∧ ∃ rows : List (List String),
        rows.length = bodies.length ∧
        (∀ i code, bodies[i]? = some code → ∃ fields, rows[i]? = some fields ∧
          Statistics.IsRow m names i code fields) ∧
        text' = text ++ Statistics.table rows)
      fun fault _ => fault = .crash .missing ∧ m.code = none := by
  have hvalid := Module.valid_of_load hload
  have hchecked := Module.checked_of_load hload
  refine ⟨?_, fun names => Module.needs_summary names hvalid, fun names =>
    Statistics.tell_leads hvalid hchecked⟩
  unfold Module.functionNames
  cases m.imports with
  | none => exact ⟨rfl, rfl⟩
  | some imports => rfl

/-- A module with one function, which does nothing. It has sections of types, functions and bodies
only. -/
def bareFunction : List UInt8 :=
  [0, 0x61, 0x73, 0x6d, 1, 0, 0, 0, 1, 4, 1, 0x60, 0, 0, 3, 2, 1, 0, 10, 4, 1, 2, 0, 0x0b]

/-- A module without an import section, which can be counted and not summed up. -/
theorem reports_need_sections_bareFunction :
    ∃ m, Module.load bareFunction .eof = .ok m ∧ m.functionNames.toBool = false ∧
      ∀ names, (∃ text, m.summary names "" = .error .missing text) ∧
        ∃ fields text, Statistics.tell m names "" = .ok () text ∧
        text = Statistics.table [fields] := by
  have hreads : ((Module.load bareFunction .eof).toOption.any fun m =>
      m.imports.isNone && m.code.map List.length == some 1) = true := by decide +kernel
  simp only [Option.any_eq_true, Bool.and_eq_true, Option.isNone_iff_eq_none, beq_iff_eq,
    except_toOption_eq_some] at hreads
  obtain ⟨m, hload, himports, hcode⟩ := hreads
  obtain ⟨hnames, hsummary, hstatistics⟩ := reports_need_sections hload
  refine ⟨m, hload, ?_, fun names => ⟨?_, ?_⟩⟩
  · cases hfound : m.functionNames with
    | ok names => simp [hfound, himports] at hnames
    | error crash => rfl
  · have hbreaks := hsummary names ""
    unfold Leads at hbreaks
    cases htold : m.summary names "" with
    | ok _ text =>
      rw [htold] at hbreaks
      exact absurd hbreaks.imports (by simp [himports])
    | error crash text =>
      rw [htold] at hbreaks
      exact ⟨text, by rw [hbreaks.1]⟩
  · have hrows := hstatistics names ""
    unfold Leads at hrows
    cases htold : Statistics.tell m names "" with
    | error fault text =>
      rw [htold] at hrows
      simp [hrows.2] at hcode
    | ok _ text =>
      rw [htold] at hrows
      obtain ⟨bodies, hbodies, rows, hlength, -, rfl⟩ := hrows
      rw [hbodies, Option.map_some, Option.some.injEq] at hcode
      obtain ⟨fields, rfl⟩ := List.length_eq_one_iff.mp (hlength.trans hcode)
      exact ⟨fields, _, rfl, String.empty_append⟩

/-- A module without any section is loaded, but all reports of it break off. -/
theorem reports_break_off_header :
    Module.load Module.header .eof = .ok {} ∧ Module.functionNames {} = .error .missing ∧
      Module.summary {} (fun _ => none) "" = .error .missing "types:\n" ∧
      Statistics.tell {} (fun _ => none) "" = .error (.crash .missing) "" :=
  ⟨by decide +kernel, rfl, rfl, rfl⟩

end IntWasm
