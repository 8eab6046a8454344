import IntWasm.Host.Bindings
import Mathlib.Data.List.Induction

/-!
# What bindings resolve an import to

Bindings keep the latest definition of every kind under its key. So an import is resolved to the
latest definition of its kind under the names that have the same key. These are only the names of
the import, unless the name of one module goes on with a point and a part that the other module has
in front of the name of its field. Main statements: `Bindings.resolves_latest` and
`Bindings.key_eq_key_iff`.
-/

namespace IntWasm.Bindings

variable {H σ α : Type}

/-! ## Definitions -/

/-- Something that an import can be resolved to. Memories and globals are places in the store. -/
inductive Definition (H : Type) where
  | function (f : HostFunction H)
  | memory (address : Nat)
  | global (address : Nat)

namespace Definition

/-- The function, if one is defined. -/
def function? : Definition H → Option (HostFunction H)
  | function f => some f
  | _ => none

/-- The place of the memory, if one is defined. -/
def memory? : Definition H → Option Nat
  | memory address => some address
  | _ => none

/-- The place of the global, if one is defined. -/
def global? : Definition H → Option Nat
  | global address => some address
  | _ => none

/-- What is defined is there. -/
def Stored (store : Store H σ) : Definition H → Prop
  | function _ => True
  | memory address => address < store.memories.size
  | global address => address < store.globals.size

/-- A stored memory is in the store. -/
theorem Stored.memory {store : Store H σ} {d : Definition H} (hstored : d.Stored store)
    {address : Nat} (hd : d.memory? = some address) :
    ∃ memory, store.memories[address]? = some memory := by
  cases d with
  | memory place =>
    obtain rfl := Option.some.inj hd
    exact ⟨_, Array.getElem?_eq_getElem hstored⟩
  | function | global => cases hd

/-- A stored global is in the store. -/
theorem Stored.global {store : Store H σ} {d : Definition H} (hstored : d.Stored store)
    {address : Nat} (hd : d.global? = some address) : ∃ g, store.globals[address]? = some g := by
  cases d with
  | global place =>
    obtain rfl := Option.some.inj hd
    exact ⟨_, Array.getElem?_eq_getElem hstored⟩
  | function | memory => cases hd

end Definition

/-- A definition under the names of a module and of a field. -/
structure Entry (H : Type) where
  moduleName : String
  name : String
  definition : Definition H

/-- Makes a definition. -/
def define (b : Bindings H) (e : Entry H) : Bindings H :=
  match e.definition with
  | .function f => b.defineFunction e.moduleName e.name f
  | .memory address => b.defineMemory e.moduleName e.name address
  | .global address => b.defineGlobal e.moduleName e.name address

/-- The bindings after definitions were made one after another. -/
def ofEntries (entries : List (Entry H)) : Bindings H := entries.foldl define {}

section Latest

variable (under : Entry H → Prop) [DecidablePred under] (pick : Definition H → Option α)

/-- The latest of the definitions under given names that are of a given kind. -/
def latest? (entries : List (Entry H)) : Option α :=
  (entries.filter under).reverse.findSome? fun e => pick e.definition

/-- A later entry is found first. -/
theorem latest?_concat (entries : List (Entry H)) (e : Entry H) :
    latest? under pick (entries ++ [e]) =
      if under e then (pick e.definition).or (latest? under pick entries)
        else latest? under pick entries := by
  by_cases he : under e
  · cases hpick : pick e.definition <;> simp [latest?, he, hpick, List.filter_append]
  · simp [latest?, he, List.filter_append]

/-- Nothing is found if no entry under the key is of the kind. -/
theorem latest?_eq_none {entries : List (Entry H)} :
    latest? under pick entries = none ↔ ∀ e ∈ entries, under e → pick e.definition = none := by
  simp [latest?, List.findSome?_eq_none_iff]

/-- What is found is one of the entries. -/
theorem exists_of_latest? {entries : List (Entry H)} {a : α}
    (hlatest : latest? under pick entries = some a) :
    ∃ e ∈ entries, pick e.definition = some a := by
  obtain ⟨e, he, hpick⟩ := List.exists_of_findSome?_eq_some hlatest
  exact ⟨e, (List.mem_filter.mp (List.mem_reverse.mp he)).1, hpick⟩

/-- The same keys find the same entries. -/
theorem latest?_congr {under' : Entry H → Prop} [DecidablePred under'] {entries : List (Entry H)}
    (hsame : ∀ e ∈ entries, under e ↔ under' e) :
    latest? under pick entries = latest? under' pick entries := by
  unfold latest?
  rw [List.filter_congr fun e he => decide_eq_decide.mpr (hsame e he)]

end Latest

/-! ## Keys -/

/-- Definitions under a key. -/
abbrev Entry.HasKey (k : String) (e : Entry H) : Prop := key e.moduleName e.name = k

/-- What was put last is found. -/
theorem lookup_put (k k' : String) (a : α) (list : List (String × α)) :
    (put k a list).lookup k' = if k = k' then some a else list.lookup k' := by
  by_cases hk : k = k'
  · simp [put, hk]
  · have hother : (list.filter (·.1 ≠ k)).lookup k' = list.lookup k' := by
      induction list with
      | nil => rfl
      | cons d list ih =>
        obtain ⟨k'', b⟩ := d
        by_cases hfirst : k'' = k
        · have hne : k' ≠ k'' := fun h => hk (hfirst.symm.trans h.symm)
          simpa [hfirst, List.lookup_cons, beq_false_of_ne (Ne.symm hk)] using ih
        · by_cases hsame : k' = k''
          · simp [hfirst, hsame]
          · simpa [hfirst, List.lookup_cons, beq_false_of_ne hsame] using ih
    simp only [put, List.lookup_cons, beq_false_of_ne (Ne.symm hk), if_neg hk, hother]

/-- A later definition is made last. -/
theorem ofEntries_concat (entries : List (Entry H)) (e : Entry H) :
    ofEntries (entries ++ [e]) = (ofEntries entries).define e := by
  rw [ofEntries, List.foldl_append]
  rfl

/-- A table of definitions of one kind has the latest ones under their keys. -/
theorem lookup_ofEntries {table : Bindings H → List (String × α)} {pick : Definition H → Option α}
    (hempty : table {} = [])
    (hdefine : ∀ b e, table (define b e) =
      (pick e.definition).elim (table b) fun a => put (key e.moduleName e.name) a (table b))
    (entries : List (Entry H)) (k : String) :
    (table (ofEntries entries)).lookup k = latest? (Entry.HasKey k) pick entries := by
  induction entries using List.reverseRecOn with
  | nil =>
    rw [ofEntries, List.foldl_nil, hempty]
    rfl
  | append_singleton entries e ih =>
    rw [ofEntries_concat, latest?_concat, ← ih, hdefine]
    cases pick e.definition with
    | none => simp
    | some a => simp [lookup_put]

variable (entries : List (Entry H)) (k : String)

/-- A function is looked up among those defined under its key. -/
theorem lookup_functions :
    (ofEntries entries).functions.lookup k =
      latest? (Entry.HasKey k) Definition.function? entries :=
  lookup_ofEntries rfl (fun b ⟨_, _, d⟩ => by cases d <;> rfl) entries k

/-- A memory is looked up among those defined under its key. -/
theorem lookup_memories :
    (ofEntries entries).memories.lookup k = latest? (Entry.HasKey k) Definition.memory? entries :=
  lookup_ofEntries rfl (fun b ⟨_, _, d⟩ => by cases d <;> rfl) entries k

/-- A global is looked up among those defined under its key. -/
theorem lookup_globals :
    (ofEntries entries).globals.lookup k = latest? (Entry.HasKey k) Definition.global? entries :=
  lookup_ofEntries rfl (fun b ⟨_, _, d⟩ => by cases d <;> rfl) entries k

/-- A key is defined if there is a definition of some kind under it. -/
theorem isDefined_iff : (ofEntries entries).isDefined k = true ↔ ∃ e ∈ entries, e.HasKey k := by
  have hlatest {α : Type} (pick : Definition H → Option α) :
      (latest? (Entry.HasKey k) pick entries).isSome = true ↔
        ∃ e ∈ entries, e.HasKey k ∧ pick e.definition ≠ none := by
    rw [← Option.ne_none_iff_isSome, ne_eq, latest?_eq_none]
    simp only [not_forall, exists_prop, ne_eq]
  simp only [isDefined, lookup_functions, lookup_memories, lookup_globals, Bool.or_eq_true, hlatest]
  constructor
  · rintro ((⟨e, he, hkey, -⟩ | ⟨e, he, hkey, -⟩) | ⟨e, he, hkey, -⟩)
    all_goals exact ⟨e, he, hkey⟩
  · rintro ⟨e, he, hkey⟩
    cases hdefinition : e.definition with
    | function f => exact .inl (.inl ⟨e, he, hkey, by simp [hdefinition, Definition.function?]⟩)
    | memory address => exact .inl (.inr ⟨e, he, hkey, by simp [hdefinition, Definition.memory?]⟩)
    | global address => exact .inr ⟨e, he, hkey, by simp [hdefinition, Definition.global?]⟩

/-! ## Resolving -/

/-- What an import comes to, given the definitions in question, how one of them is picked, and
whether it fits. -/
structure Consults (under : Entry H → Prop) [DecidablePred under] (pick : Definition H → Option α)
    (fits : α → Prop) (kind : ExternKind) (result : Except ImportFault α) : Prop where
  /-- The latest definition of the kind is taken if it fits. -/
  suits {a} (hlatest : latest? under pick entries = some a) (hfits : fits a) : result = .ok a
  /-- If it does not fit, there is a mismatch. -/
  unsuited {a} (hlatest : latest? under pick entries = some a) (hfits : ¬ fits a) :
    ∃ e, result = .error e ∧ e.isMismatch = true
  /-- If there are definitions of other kinds only, there is a mismatch as well. -/
  otherKind (hlatest : latest? under pick entries = none) (hsome : ∃ e ∈ entries, under e) :
    result = .error (.wrongKind k kind)
  /-- Without any definition nothing is found. -/
  undefined (hnone : ∀ e ∈ entries, ¬ under e) : result = .error (.notFound k)

section Consults

variable {entries} {k} {under : Entry H → Prop} [DecidablePred under]
  {pick : Definition H → Option α} {fits : α → Prop} {kind : ExternKind}
  {result : Except ImportFault α}

/-- A resolved import depends on the definitions in question only. -/
theorem Consults.congr {under' : Entry H → Prop} [DecidablePred under']
    (hconsults : Consults entries k under pick fits kind result)
    (hsame : ∀ e ∈ entries, under e ↔ under' e) :
    Consults entries k under' pick fits kind result := by
  have hlatest := latest?_congr under pick hsame
  constructor
  · intro a ha hfits
    exact hconsults.suits (hlatest.trans ha) hfits
  · intro a ha hfits
    exact hconsults.unsuited (hlatest.trans ha) hfits
  · rintro hnone ⟨e, he, hunder⟩
    exact hconsults.otherKind (hlatest.trans hnone) ⟨e, he, (hsame e he).mpr hunder⟩
  · intro hnone
    exact hconsults.undefined fun e he hunder => hnone e he ((hsame e he).mp hunder)

/-- Without a definition of its kind, an import is of the wrong kind or not found. -/
theorem consults_of
    (hsuits : ∀ a, latest? (Entry.HasKey k) pick entries = some a → fits a → result = .ok a)
    (hunsuited : ∀ a, latest? (Entry.HasKey k) pick entries = some a → ¬ fits a →
      ∃ e, result = .error e ∧ e.isMismatch = true)
    (hmissing : latest? (Entry.HasKey k) pick entries = none →
      result = .error ((ofEntries entries).missing k kind)) :
    Consults entries k (Entry.HasKey k) pick fits kind result := by
  refine ⟨hsuits _, hunsuited _, fun hnone hsome => ?_, fun hnone => ?_⟩
  · rw [hmissing hnone, missing, if_pos ((isDefined_iff entries k).mpr hsome)]
  · have hlatest := (latest?_eq_none (Entry.HasKey k) pick).mpr fun e he hkey =>
      (hnone e he hkey).elim
    have hundefined : ¬ (ofEntries entries).isDefined k = true := by
      rw [isDefined_iff]
      rintro ⟨e, he, hkey⟩
      exact hnone e he hkey
    rw [hmissing hlatest, missing, if_neg hundefined]

end Consults

/-- The resolver answers with the latest function under the key, if its type is the one asked for.
-/
theorem function_consults (moduleName name : String) (type : FuncType) :
    Consults entries (key moduleName name) (Entry.HasKey (key moduleName name)) Definition.function?
      (·.type = type) .function ((ofEntries entries).function moduleName name type) := by
  refine consults_of (fun f hf hfits => ?_) (fun f hf hfits => ?_) fun hnone => ?_
  · rw [← lookup_functions] at hf
    simp only [function, hf, if_pos hfits]
  · rw [← lookup_functions] at hf
    simp only [function, hf, if_neg hfits]
    exact ⟨_, rfl, rfl⟩
  · rw [← lookup_functions] at hnone
    simp only [function, hnone]

variable {entries}

/-- The resolver answers with the latest memory under the key, if it satisfies the limits. -/
theorem memory_consults {store : Store H σ} (hstored : ∀ e ∈ entries, e.definition.Stored store)
    (moduleName name : String) (limits : Limits) :
    Consults entries (key moduleName name) (Entry.HasKey (key moduleName name)) Definition.memory?
      (fun address => ∃ memory, store.memories[address]? = some memory ∧
        memory.satisfies limits = true) .memory
      ((ofEntries entries).memory store moduleName name limits) := by
  refine consults_of (fun address ha hfits => ?_) (fun address ha hfits => ?_) fun hnone => ?_
  · obtain ⟨memory, hmemory, hsatisfies⟩ := hfits
    rw [← lookup_memories] at ha
    simp only [Bindings.memory, ha, hmemory, Option.getD_some, if_pos hsatisfies]
  · obtain ⟨e, he, hdefined⟩ := exists_of_latest? _ _ ha
    obtain ⟨memory, hmemory⟩ := (hstored e he).memory hdefined
    have hrefused : ¬ memory.satisfies limits = true :=
      fun hsatisfies => hfits ⟨memory, hmemory, hsatisfies⟩
    rw [← lookup_memories] at ha
    simp only [Bindings.memory, ha, hmemory, Option.getD_some, if_neg hrefused]
    exact ⟨_, rfl, rfl⟩
  · rw [← lookup_memories] at hnone
    simp only [Bindings.memory, hnone]

/-- The resolver answers with the latest global under the key, if its type is the one asked for. -/
theorem global_consults {store : Store H σ} (hstored : ∀ e ∈ entries, e.definition.Stored store)
    (moduleName name : String) (type : GlobalType) :
    Consults entries (key moduleName name) (Entry.HasKey (key moduleName name)) Definition.global?
      (fun address => ∃ g, store.globals[address]? = some g ∧ g.type = type) .global
      ((ofEntries entries).global store moduleName name type) := by
  refine consults_of (fun address ha hfits => ?_) (fun address ha hfits => ?_) fun hnone => ?_
  · obtain ⟨g, hg, htype⟩ := hfits
    rw [← lookup_globals] at ha
    simp only [Bindings.global, ha, hg, if_pos htype]
  · obtain ⟨e, he, hdefined⟩ := exists_of_latest? _ _ ha
    obtain ⟨g, hg⟩ := (hstored e he).global hdefined
    have hrefused : ¬ g.type = type := fun htype => hfits ⟨g, hg, htype⟩
    rw [← lookup_globals] at ha
    simp only [Bindings.global, ha, hg, if_neg hrefused]
    exact ⟨_, rfl, rfl⟩
  · rw [← lookup_globals] at hnone
    simp only [Bindings.global, hnone]

/-- Two pairs of names have the same key only if they are equal, or if the name of one module goes
on with a point and a part that the other has in front of the name of its field. -/
theorem key_eq_key_iff {m n m' n' : String} :
    key m n = key m' n' ↔ (m = m' ∧ n = n') ∨
      ∃ middle, (m' = key m middle ∧ n = key middle n') ∨
      (m = key m' middle ∧ n' = key middle n) := by
  have hkey (m n : String) : (key m n).toList = m.toList ++ '.' :: n.toList := by simp [key]
  have hsplit {m n m' n' : String} {front : List Char} (hfront : m'.toList = m.toList ++ front)
      (hback : '.' :: n.toList = front ++ '.' :: n'.toList) :
      (m = m' ∧ n = n') ∨ ∃ middle, m' = key m middle ∧ n = key middle n' := by
    cases front with
    | nil =>
      refine .inl ⟨String.toList_inj.mp ?_, String.toList_inj.mp (List.cons.inj hback).2⟩
      rw [hfront, List.append_nil]
    | cons point middle =>
      obtain rfl : '.' = point := (List.cons.inj hback).1
      have hrest : n.toList = middle ++ '.' :: n'.toList := (List.cons.inj hback).2
      refine .inr ⟨String.ofList middle, String.toList_inj.mp ?_, String.toList_inj.mp ?_⟩
      · rw [hkey, String.toList_ofList, hfront]
      · rw [hkey, String.toList_ofList, hrest]
  rw [← String.toList_inj, hkey, hkey]
  constructor
  · intro heq
    rcases List.append_eq_append_iff.mp heq with ⟨front, hfront, hback⟩ | ⟨front, hfront, hback⟩
    · rcases hsplit hfront hback with hsame | ⟨middle, hmiddle⟩
      · exact .inl hsame
      · exact .inr ⟨middle, .inl hmiddle⟩
    · rcases hsplit hfront hback with ⟨hm, hn⟩ | ⟨middle, hmiddle⟩
      · exact .inl ⟨hm.symm, hn.symm⟩
      · exact .inr ⟨middle, .inr hmiddle⟩
  · rintro (⟨rfl, rfl⟩ | ⟨middle, ⟨rfl, rfl⟩ | ⟨rfl, rfl⟩⟩)
    · rfl
    · simp [hkey]
    · simp [hkey]

/-- Imports of all kinds under the names of a module and a field are resolved by the definitions in
question. -/
structure Resolves (store : Store H σ) (entries : List (Entry H)) (under : Entry H → Prop)
    [DecidablePred under] (moduleName name : String) : Prop where
  function (type : FuncType) : Consults entries (key moduleName name) under Definition.function?
    (·.type = type) .function ((ofEntries entries).function moduleName name type)
  memory (limits : Limits) : Consults entries (key moduleName name) under Definition.memory?
    (fun address => ∃ memory, store.memories[address]? = some memory ∧
      memory.satisfies limits = true) .memory
    ((ofEntries entries).memory store moduleName name limits)
  global (type : GlobalType) : Consults entries (key moduleName name) under Definition.global?
    (fun address => ∃ g, store.globals[address]? = some g ∧ g.type = type) .global
    ((ofEntries entries).global store moduleName name type)

/-- Whatever was defined one after another, an import is resolved by the latest definition of its
kind that has its key. If only definitions under its own names have that key, then these are the
ones that are consulted. Other names with the same key are those that part the key at another
point. -/
theorem resolves_latest {store : Store H σ} {entries : List (Entry H)}
    (hstored : ∀ e ∈ entries, e.definition.Stored store) (moduleName name : String) :
    Resolves store entries (Entry.HasKey (key moduleName name)) moduleName name ∧
      ((∀ e ∈ entries, e.HasKey (key moduleName name) → e.moduleName = moduleName ∧ e.name = name) →
        Resolves store entries (fun e => e.moduleName = moduleName ∧ e.name = name)
          moduleName name) ∧
      ∀ m n, key m n = key moduleName name ↔ (m = moduleName ∧ n = name) ∨
        ∃ middle, (moduleName = key m middle ∧ n = key middle name) ∨
          (m = key moduleName middle ∧ name = key middle n) := by
  have hkeyed : Resolves store entries (Entry.HasKey (key moduleName name)) moduleName name :=
    ⟨function_consults entries moduleName name, memory_consults hstored moduleName name,
      global_consults hstored moduleName name⟩
  refine ⟨hkeyed, fun honly => ?_, fun m n => key_eq_key_iff⟩
  have hsame (e : Entry H) (he : e ∈ entries) :
      e.HasKey (key moduleName name) ↔ e.moduleName = moduleName ∧ e.name = name := by
    refine ⟨honly e he, ?_⟩
    rintro ⟨rfl, rfl⟩
    rfl
  exact ⟨fun type => (hkeyed.function type).congr hsame,
    fun limits => (hkeyed.memory limits).congr hsame, fun type => (hkeyed.global type).congr hsame⟩

/-- A function, a memory, and then another function in place of the first one. -/
def replaced : List (Entry Unit) :=
  [⟨"e", "f", .function ⟨{ params := [.i32] }, ()⟩⟩, ⟨"e", "m", .memory 0⟩,
    ⟨"e", "f", .function ⟨{}, ()⟩⟩]

/-- The second function is found, and it does not have the type of the first one. There is no memory
under its names, and nothing under others. -/
theorem resolves_latest_replaced :
    (ofEntries replaced).function "e" "f" {} = .ok ⟨{}, ()⟩ ∧
      (∃ e, (ofEntries replaced).function "e" "f" { params := [.i32] } = .error e ∧
        e.isMismatch = true) ∧
      (ofEntries replaced).memory ({ host := (), memories := #[default] } : Store Unit Unit) "e" "f"
        {} = .error (.wrongKind "e.f" .memory) ∧
      (ofEntries replaced).function "d" "f" {} = .error (.notFound "d.f") := by
  have hstored : ∀ e ∈ replaced,
      e.definition.Stored ({ host := (), memories := #[default] } : Store Unit Unit) := by
    simp [replaced, Definition.Stored]
  have hfunction := (resolves_latest hstored "e" "f").2.1 (by simp [replaced]; decide)
  have hother := (resolves_latest hstored "d" "f").2.1 (by simp [replaced]; decide)
  exact ⟨(hfunction.function {}).suits rfl rfl,
    (hfunction.function { params := [.i32] }).unsuited rfl (by decide),
    (hfunction.memory {}).otherKind rfl ⟨_, List.mem_cons_self, rfl, rfl⟩,
    (hother.function {}).undefined (by simp [replaced])⟩

/-- A function is found under names that nothing was defined under. -/
theorem resolves_other_names :
    (∀ e ∈ [(⟨"a.b", "c", .function ⟨{}, ()⟩⟩ : Entry Unit)],
      ¬ (e.moduleName = "a" ∧ e.name = "b.c")) ∧
      (ofEntries [(⟨"a.b", "c", .function ⟨{}, ()⟩⟩ : Entry Unit)]).function "a" "b.c" {} =
        .ok ⟨{}, ()⟩ :=
  ⟨by simp, (function_consults _ "a" "b.c" {}).suits rfl rfl⟩

end IntWasm.Bindings
