import IntWasm.Proofs.Engine.Safety
import IntWasm.Proofs.Module.Constants

/-!
# How instantiating a loaded module fails

Validation has checked whatever a module decides alone: its bodies, the first values of its globals
and the offsets of its segments. Building an instance of it does all that again, with the values of
imported globals, and does not fail there. What is left are link errors. Main statement:
`instantiate_fails_linking`.
-/

namespace IntWasm

open Structured

variable {H σ : Type}

/-! ## Outcomes -/

section

variable {ε α : Type} {x : EStateM ε σ α} {s : σ} {success success' : α → σ → Prop}
  {failure failure' : ε → σ → Prop}

/-- What a computation leads to in two respects. -/
theorem Leads.and (hx : Leads x s success failure) (hx' : Leads x s success' failure') :
    Leads x s (fun a t => success a t ∧ success' a t) fun e t => failure e t ∧ failure' e t := by
  unfold Leads
  cases hresult : x s with
  | ok a t => exact ⟨hx.of_ok hresult, hx'.of_ok hresult⟩
  | error e t => exact ⟨hx.of_error hresult, hx'.of_error hresult⟩

/-- What moves a state leads there whether it succeeds or fails. -/
theorem Moves.leads {R : σ → σ → Prop} (hmoves : Moves R x) (s : σ) :
    Leads x s (fun _ t => R s t) fun _ t => R s t := by
  have hfinal := hmoves s
  unfold Leads
  cases hresult : x s with
  | ok a t =>
    rw [hresult] at hfinal
    exact hfinal
  | error e t =>
    rw [hresult] at hfinal
    exact hfinal

/-- A mapped computation fails as the computation does. -/
theorem except_map_eq_error {α β : Type} {f : α → β} {x : Except ε α} {e : ε} :
    f <$> x = .error e ↔ x = .error e := by
  cases x <;> simp [Functor.map, Except.map]

end

/-! ## What every embedder keeps -/

namespace Store

/-- A store extends itself. -/
theorem Extends.refl (s : Store H σ) : s.Extends s :=
  have hkeeps : s.Keeps 0 s := .refl s
  hkeeps.toExtends

/-- Extending is transitive. -/
theorem Extends.trans {s t u : Store H σ} (hst : s.Extends t) (htu : t.Extends u) : s.Extends u :=
  ⟨Nat.le_trans hst.memories_le htu.memories_le, fun hg => by
    obtain ⟨g', hg', hsame⟩ := hst.globals hg
    obtain ⟨g'', hg'', hsame'⟩ := htu.globals hg'
    exact ⟨g'', hg'', hsame'.trans hsame⟩⟩

end Store

/-- Closing an instance keeps all memories and globals, and so does all else. -/
theorem Store.lasting_extends : Store.Lasting 0 (Store.Extends (H := H) (σ := σ)) where
  keeps hkeeps := hkeeps.toExtends
  idle _ _ _ := ⟨Nat.le_refl _, fun hg => ⟨_, hg, rfl⟩⟩
  close s := by
    have hkeeps : s.Keeps 1 ((Errand.close 0).run s) := Errand.run_keeps (by simp) s
    exact hkeeps.toExtends
  trans := .trans

/-! ## Stages -/

/-- A link error. -/
def InstantiateError.IsLink (e : InstantiateError) : Prop := ∃ error, e = .link error

/-- The code of a module that was checked checks again. -/
theorem Module.Checked.compileFrom_ok {m : Module} (hchecked : m.Checked) (imported i : Nat)
    {pairs : List (UInt32 × FuncBody)}
    (hpairs : ((m.functions.getD []).zip (m.code.getD [])).drop i = pairs) :
    ∃ fns, m.compileFrom imported i pairs = .ok fns := by
  induction pairs generalizing i with
  | nil => exact ⟨[], rfl⟩
  | cons pair pairs ih =>
    obtain ⟨index, body⟩ := pair
    have hat : ((m.functions.getD []).zip (m.code.getD []))[i]? = some (index, body) := by
      have hhead := congrArg List.head? hpairs
      rwa [List.head?_drop] at hhead
    obtain ⟨hindex, hbody⟩ := List.getElem?_zip_eq_some.mp hat
    obtain ⟨type, checked, htype, hcheck⟩ := hchecked.bodies hindex hbody
    obtain ⟨fns, hfns⟩ := ih (i + 1) (by rw [← List.tail_drop, hpairs, List.tail_cons])
    simp only [compileFrom, compileFunction, htype, hcheck, except_bind_eq_ok, except_pure_eq_ok]
    exact ⟨_, _, rfl, fns, hfns, rfl⟩

/-- A checked module compiles. -/
theorem Module.Checked.compile_ok {m : Module} (hchecked : m.Checked) (hvalid : m.Valid) :
    ∃ fns, m.compile = .ok fns := by
  unfold compile
  simp only
  split
  · exact ⟨[], rfl⟩
  · rw [if_neg (not_not.mpr hvalid.length_eq)]
    exact hchecked.compileFrom_ok _ 0 rfl

namespace Link

variable {m : Module} {l : Linking H σ} {resolver : Option (Resolver H σ)}

/-- An import fails with an error that names it. -/
theorem importEntry_error (i : Import) (l : Linking H σ) :
    Leads (importEntry resolver i) l (fun _ _ => True) fun e _ =>
      ∃ cause, e = importError i cause := by
  have herror (cause : LinkError.Cause) :
      ∃ cause', importError i cause = importError i cause' := ⟨_, rfl⟩
  unfold importEntry
  cases resolver with
  | none => exact herror .noResolver
  | some r =>
    cases i.type with
    | function index =>
      simp only [Leads, importFunction_eq]
      cases l.inst.types[index.toNat]? with
      | none => exact herror _
      | some type =>
        simp only
        cases r.function l.store i.moduleName i.field type with
        | error fault => exact herror _
        | ok f => by_cases htype : f.type = type <;> simp [htype, herror]
    | memory limits =>
      -- A memory is refused for its limits or because an instance has it already.
      simp only [Leads, importMemory_eq]
      cases r.memory l.store i.moduleName i.field limits with
      | error fault => exact herror _
      | ok p =>
        cases hfits : (l.store.memories[p]?.getD default).satisfies limits <;>
        cases hattached : (l.store.memories[p]?.getD default).attached <;>
        simp [hfits, hattached, herror]
    | global type =>
      simp only [Leads, importGlobal_eq]
      cases r.global l.store i.moduleName i.field type with
      | error fault => exact herror _
      | ok p =>
        simp only
        cases hglobal : l.store.globals[p]? with
        | none => exact herror _
        | some g => by_cases htype : g.type = type <;> simp [htype, herror]

/-- An import fails with a link error. -/
theorem importEntry_fails (i : Import) (l : Linking H σ) :
    Leads (importEntry resolver i) l (fun _ _ => True) fun e _ => e.IsLink := by
  refine (importEntry_error i l).weaken (fun _ _ h => h) ?_
  rintro _ _ ⟨cause, rfl⟩
  exact ⟨_, rfl⟩

/-- Imports fail as linking does. -/
theorem importEntries_fails (i : Nat) (entries : List Import) (l : Linking H σ) :
    Leads (forEachFrom (fun _ i => importEntry resolver i) i entries) l (fun _ _ => True)
      fun e _ => e.IsLink := by
  induction entries generalizing i l with
  | nil => exact trivial
  | cons entry entries ih => exact (importEntry_fails entry l).bind fun _ l' _ => ih (i + 1) l'

/-- First values that constant expressions give are of the right types. -/
theorem defineGlobals_ok {values : List Value} (i : Nat) {entries : List GlobalDef}
    (hentries : ∀ g ∈ entries, ∃ v, ConstExpr.eval values g.init = .ok v ∧ v.type = g.type.type)
    (l : Linking H σ) :
    Leads (forEachFrom (defineGlobal values) i entries) l (fun _ _ => True) fun e _ =>
      e.IsLink := by
  induction entries generalizing i l with
  | nil => exact trivial
  | cons g entries ih =>
    obtain ⟨v, heval, htype⟩ := hentries g (by simp)
    have hdefine : defineGlobal values i g l = .ok () ⟨(l.store.addGlobal (.new g.type v)).2,
        { l.inst with globals := l.inst.globals.push l.store.globals.size }⟩ := by
      simp only [defineGlobal_eq, heval, if_pos htype]
    exact Leads.after hdefine (ih (i + 1) (fun g' hg' => hentries g' (by simp [hg'])) _)

/-- A memory that cannot be made fails as linking does. -/
theorem declareMemory_fails (allocator : Nat) (m : Module) (l : Linking H σ) :
    Leads (declareMemory allocator m) l (fun _ _ => True) fun e _ => e.IsLink := by
  unfold declareMemory
  split
  · exact trivial
  · unfold Leads allocateMemory
    simp only
    cases Store.newMemory _ allocator l.inst.config.maxMemoryPages l.store with
    | ok _ _ => exact trivial
    | error fault _ => exact ⟨_, rfl⟩

/-- A table never fails in another way than linking does. -/
theorem declareTable_fails (m : Module) (l : Linking H σ) :
    Leads (declareTable m) l (fun _ _ => True) fun e _ => e.IsLink := by
  unfold declareTable
  split <;> exact trivial

/-! ## Segments -/

/-- The first of several segments, whose offset is known. -/
theorem elementOffsets_cons {values : List Value} {s : ElementSegment} {start : Nat}
    (hstart : offset values s.offset = .ok start) (table : Option Table) (i : Nat)
    (segments : List ElementSegment) :
    elementOffsets values table i (s :: segments) =
      if (table.map (·.size)).all (· < start + s.functions.length) then
        .error (.link { cause := .elementSegment i })
      else (start :: ·) <$> elementOffsets values table (i + 1) segments := by
  simp only [elementOffsets, hstart, Except.mapError, bind, Except.bind]
  cases table with
  | none => rfl
  | some t =>
    by_cases hfits : t.size < start + s.functions.length <;> simp [hfits] <;> rfl

/-- The first segment has to fit the memory; the others follow. -/
theorem dataOffsets_cons {values : List Value} {s : DataSegment} {start : Nat}
    (hstart : offset values s.offset = .ok start) (size : Option Nat) (i : Nat)
    (segments : List DataSegment) :
    dataOffsets values size i (s :: segments) =
      if size.all (· < start + s.bytes.length) then .error (.link { cause := .dataSegment i })
      else (start :: ·) <$> dataOffsets values size (i + 1) segments := by
  simp only [dataOffsets, hstart, Except.mapError, bind, Except.bind]
  cases size with
  | none => rfl
  | some n => by_cases hfits : n < start + s.bytes.length <;> simp [hfits] <;> rfl

/-- Segments of the table whose offsets are known fail as linking does. -/
theorem elementOffsets_fails {values : List Value} {table : Option Table} {i : Nat}
    {segments : List ElementSegment} {e : InstantiateError}
    (hoffsets : ∀ s ∈ segments, ∃ start, offset values s.offset = .ok start)
    (herror : elementOffsets values table i segments = .error e) : e.IsLink := by
  induction segments generalizing i with
  | nil => cases herror
  | cons s segments ih =>
    obtain ⟨start, hstart⟩ := hoffsets s (by simp)
    rw [elementOffsets_cons hstart] at herror
    split at herror
    · exact ⟨_, (Except.error.inj herror).symm⟩
    · exact ih (fun s' hs' => hoffsets s' (by simp [hs'])) (except_map_eq_error.mp herror)

/-- Segments of the memory whose offsets are known fail as linking does. -/
theorem dataOffsets_fails {values : List Value} {size : Option Nat} {i : Nat}
    {segments : List DataSegment} {e : InstantiateError}
    (hoffsets : ∀ s ∈ segments, ∃ start, offset values s.offset = .ok start)
    (herror : dataOffsets values size i segments = .error e) : e.IsLink := by
  induction segments generalizing i with
  | nil => cases herror
  | cons s segments ih =>
    obtain ⟨start, hstart⟩ := hoffsets s (by simp)
    rw [dataOffsets_cons hstart] at herror
    split at herror
    · exact ⟨_, (Except.error.inj herror).symm⟩
    · exact ih (fun s' hs' => hoffsets s' (by simp [hs'])) (except_map_eq_error.mp herror)

/-- The offset of a segment that was checked. -/
theorem offset_ok {globals : List GlobalType} (hints : ∀ g ∈ globals, g.type.IsInt)
    {values : List Value} (hvalues : ConstExpr.Supply values globals) {expr : List UInt8}
    (hcheck : Module.checkConst globals .i32 expr = .ok ()) :
    ∃ start, offset values expr = .ok start := by
  obtain ⟨v, heval, htype⟩ := Module.eval_of_checkConst hints ⟨.i32, rfl⟩ hcheck hvalues
  exact ⟨v.bits.toUInt32.toNat, by simp only [offset, heval]; exact if_pos htype⟩

/-- With its globals supplied, a checked module's segments fail as linking does. -/
theorem placeSegments_fails (hplain : m.Plain) (hchecked : m.Checked)
    (hvalues : ConstExpr.Supply
      (l.inst.globals.toList.filterMap fun p => (l.store.globals[p]?).map (·.value))
      m.importedGlobals) :
    Leads (placeSegments m) l (fun _ _ => True) fun e _ => e.IsLink := by
  have hints := hplain.importedGlobals
  simp only [Leads, placeSegments_eq]
  cases helements : elementOffsets _ l.inst.table 0 (m.elements.getD []) with
  | error e =>
    exact elementOffsets_fails
      (fun s hs => offset_ok hints hvalues (hchecked.elements s hs)) helements
  | ok elementStarts =>
    simp only
    cases hdata : dataOffsets _ _ 0 (m.data.getD []) with
    | error e =>
      exact dataOffsets_fails (fun s hs => offset_ok hints hvalues (hchecked.data s hs)) hdata
    | ok dataStarts => exact trivial

end Link

/-! ## Values of globals -/

/-- Values that supply globals supply the first ones of them. -/
theorem ConstExpr.Supply.of_append {values : List Value} {globals more : List GlobalType}
    (hvalues : Supply values (globals ++ more)) : Supply values globals := by
  intro i g hg
  exact hvalues (by rw [List.getElem?_append_left (List.getElem?_eq_some_iff.1 hg).1, hg])

/-- The values of globals of given types in a store. -/
theorem ConstExpr.supply_of_globals {store : Store H σ} {places : List Nat}
    {globals : List GlobalType}
    (hall : List.Forall₂ (fun p type => ∃ g, store.globals[p]? = some g ∧ g.type = type) places
      globals) :
    Supply (places.filterMap fun p => (store.globals[p]?).map (·.value)) globals := by
  induction hall with
  | nil =>
    intro i g hg
    simp at hg
  | cons hfirst _ ih =>
    obtain ⟨g, hglobal, rfl⟩ := hfirst
    simp only [List.filterMap_cons, hglobal, Option.map_some]
    intro i h hh
    cases i with
    | zero =>
      obtain rfl := Option.some.inj hh
      exact ⟨g.value, rfl, rfl⟩
    | succ i => exact ih hh

/-! ## Building -/

/-- The start function of a module breaks an instantiation off: it has used up its steps, or the
stacks for it cannot be made. -/
structure InstantiateError.BreaksOff (m : Module) (config : Config)
    (e : InstantiateError) : Prop where
  start : m.start.isSome
  crash : e = .crashed .outOfFuel ∨ e = .crashed .stackSize ∧ config.stacksFit = false

namespace Link

variable {host : Host H σ} {invoker : Invoker H σ} {fuel : Nat} {m : Module} {l : Linking H σ}
  {resolver : Option (Resolver H σ)}

/-- Definitions of a checked module fail as linking does. -/
theorem bindDefinitions_fails (hvalid : m.Valid) (hchecked : m.Checked)
    (hgrounded : ∀ r, resolver = some r → r.Grounded l.store.memories.size)
    (hempty : l.inst.imports = #[] ∧ l.inst.globals = #[]) :
    Leads (bindDefinitions m resolver) l (fun _ _ => True) fun e _ => e.IsLink := by
  obtain ⟨functions, hcompile⟩ := hchecked.compile_ok hvalid
  have hbegun := Linking.provides_functions hempty hcompile
  unfold bindDefinitions
  rw [hcompile]
  refine Leads.after rfl (Leads.after rfl ?_)
  have himports := (hbegun.importEntries hgrounded 0 m.importList).and
    (importEntries_fails 0 m.importList _)
  refine (himports.weaken (fun _ _ h => h.1) fun _ _ h => h.2).bind fun _ l₁ hl₁ => ?_
  refine Leads.after rfl (defineGlobals_ok 0 (fun g hg => ?_) l₁)
  exact Module.eval_of_checkConst hvalid.plain.importedGlobals (hvalid.plain.globals g hg)
    (hchecked.globals g hg) (ConstExpr.supply_of_globals hl₁.globals)

/-- A start function stops with a trap, or it breaks off. -/
theorem runStart_fails (hvalid : m.Valid) (hpositive : l.inst.config.Positive)
    (hserves : l.inst.Serves m l.store) (hhost : ∀ c, Moves Store.Extends (host.call invoker c)) :
    Leads (runStart host invoker fuel m) l (fun _ _ => True)
      fun e _ => e.IsLink ∨ e.BreaksOff m l.inst.config := by
  unfold runStart
  cases hstart : m.start with
  | none => exact trivial
  | some function =>
    obtain ⟨type, htype, hparams⟩ := hvalid.start function hstart
    have hretains (c : HostCall H) : Moves (Retains m l.inst) (host.call invoker c) :=
      fun s hsupports => hsupports.mono (hhost c s)
    have hnone : ([] : List UInt64).length = type.params.length := by simp [hparams]
    have hsafe (slot : UInt64) := Instance.Implements.runsSafely hvalid hserves.implements hpositive
      hretains htype hnone hserves.supports slot
    have hproper := Instance.RunsSafely.call hsafe fuel
    unfold Leads start
    simp only
    generalize l.inst.call host invoker fuel function [] l.store = result at hproper
    obtain ⟨⟨outcome, slot⟩, store⟩ := result
    cases outcome with
    | ok words => exact trivial
    | error e =>
      cases e with
      | trapped e => exact .inl ⟨_, rfl⟩
      | refused refusal => exact hproper.elim
      | crashed crash =>
        refine .inr ⟨by simp [hstart], ?_⟩
        rcases hproper with rfl | ⟨rfl, hfit⟩
        · exact .inl rfl
        · exact .inr ⟨rfl, hfit⟩

/-- Building an instance of a module that was checked fails with a link error, or its start function
breaks off. -/
theorem build_fails {allocator : Nat} (hvalid : m.Valid) (hchecked : m.Checked)
    (hpositive : l.inst.config.Positive)
    (hhost : ∀ c, Moves Store.Extends (host.call invoker c))
    (hgrounded : ∀ r, resolver = some r → r.Grounded l.store.memories.size)
    (hempty : l.inst.imports = #[] ∧ l.inst.globals = #[]) :
    Leads (build host invoker fuel m resolver allocator) l (fun _ _ => True)
      fun e _ => e.IsLink ∨ e.BreaksOff m l.inst.config := by
  have hallows := allows_keepsSettings host invoker fuel resolver allocator
  -- Each stage has a lemma for what it provides, for how it fails and for what it keeps; they are
  -- joined once, and the configuration is carried from stage to stage.
  have hstage {x : Link H σ Unit} {l₀ : Linking H σ} {P : Linking H σ → Prop}
      (hprovides : Leads x l₀ (fun _ l' => P l') fun _ _ => True)
      (hfails : Leads x l₀ (fun _ _ => True) fun e _ => e.IsLink)
      (hmoves : Moves Linking.KeepsSettings x) (hconfig : l₀.inst.config = l.inst.config) :
      Leads x l₀ (fun _ l' => P l' ∧ l'.inst.config = l.inst.config)
        fun e _ => e.IsLink ∨ e.BreaksOff m l.inst.config :=
    ((hprovides.and hfails).and (hmoves.leads l₀)).weaken
      (fun _ _ h => ⟨h.1.1, h.2.config_eq.trans hconfig⟩) fun _ _ h => .inl h.1.2
  rw [build_eq]
  refine (hstage (bindDefinitions_provides hgrounded hempty)
    (bindDefinitions_fails hvalid hchecked hgrounded hempty) (bindDefinitions_moves hallows m)
    rfl).bind ?_
  rintro _ l₁ ⟨hl₁, hconfig₁⟩
  refine (hstage (hl₁.declareMemory allocator) (declareMemory_fails allocator m l₁)
    (declareMemory_moves hallows m) hconfig₁).bind ?_
  rintro _ l₂ ⟨hl₂, hconfig₂⟩
  refine (hstage (declareTable_leads m l₂) (declareTable_fails m l₂)
    (declareTable_moves hallows m) hconfig₂).bind ?_
  rintro _ _ ⟨⟨htabled, table, rfl⟩, hconfig₃⟩
  have hprovides := hl₂.withTable table
  have hplace : Leads (do
      placeSegments m
      modifyInstance ({ · with exports := m.exports.getD [] }) : Link H σ Unit)
      { l₂ with inst := { l₂.inst with table } } (fun _ _ => True) fun e _ => e.IsLink :=
    (placeSegments_fails hvalid.plain hchecked
      (ConstExpr.Supply.of_append (ConstExpr.supply_of_globals hprovides.globals))).bind
      fun _ _ _ => trivial
  have hplaced := hstage (hprovides.placeSegments hvalid htabled) hplace
    (Moves.bind hallows.trans (placeSegments_moves hallows m) fun _ =>
      modifyInstance_moves hallows (fun _ => rfl) (fun _ => rfl) (fun _ => rfl) (fun _ => rfl)
        fun _ => rfl)
    hconfig₃
  have hrun (l₃ : Linking H σ) (hl₃ : l₃.inst.Serves m l₃.store ∧ l₃.inst.config = l.inst.config) :
      Leads (runStart host invoker fuel m) l₃ (fun _ _ => True)
        fun e _ => e.IsLink ∨ e.BreaksOff m l.inst.config := by
    rw [← hl₃.2]
    exact runStart_fails hvalid (hl₃.2 ▸ hpositive) hl₃.1 hhost
  have hall := hplaced.bind fun _ l₃ hl₃ => hrun l₃ hl₃
  rwa [bind_assoc] at hall

end Link

/-- Instantiating a loaded module with an accepted configuration fails with a link error only,
whatever the resolver answers, as long as the memories that it answers with are there. Only the
start function may instead break off. -/
theorem instantiate_fails_linking {host : Host H σ} {fuel nesting : Nat} {m : Module}
    (hloaded : m.Loaded) {resolver : Option (Resolver H σ)} {config accepted : Config}
    (haccepted : config.check = .ok accepted) {s s' : Store H σ}
    (hgrounded : ∀ r, resolver = some r → r.Grounded s.memories.size)
    (hacts : host.Acts fuel fun _ => True) {e : InstantiateError}
    (herror : Engine.instantiate host fuel nesting m resolver config s = .error e s') :
    (∃ error, e = .link error) ∨ e.BreaksOff m accepted := by
  obtain ⟨bytes, ending, hload⟩ := hloaded
  have hhost := (hacts.moves (Store.lasting_extends.allowed host fuel) nesting).1
  have hsize : (Engine.placeAllocator accepted s).2.memories.size = s.memories.size := by
    unfold Engine.placeAllocator
    split <;> rfl
  have hbuild : Leads (Link.build host (Engine.invoke host fuel nesting) fuel m resolver
      (Engine.placeAllocator accepted s).1)
      ⟨(Engine.placeAllocator accepted s).2, { config := accepted }⟩ (fun _ _ => True)
      fun e _ => e.IsLink ∨ e.BreaksOff m accepted :=
    Link.build_fails (Module.valid_of_load hload) (Module.checked_of_load hload)
      (Config.positive_of_check haccepted) hhost (fun r hr => hsize ▸ hgrounded r hr) ⟨rfl, rfl⟩
  unfold Engine.instantiate at herror
  simp only [haccepted] at herror
  unfold Leads at hbuild
  cases hresult : Link.build host (Engine.invoke host fuel nesting) fuel m resolver
      (Engine.placeAllocator accepted s).1
      ⟨(Engine.placeAllocator accepted s).2, { config := accepted }⟩ with
  | ok _ l => simp [hresult] at herror
  | error e' l =>
    rw [hresult] at hbuild
    simp only [hresult] at herror
    have hsame : e' = e := by cases e' <;> exact (EStateM.Result.error.inj herror).1
    exact hsame ▸ hbuild

/-- A module that places a byte where an imported global says, in an empty memory. -/
def misplacing : List UInt8 :=
  [0, 0x61, 0x73, 0x6d, 1, 0, 0, 0, 2, 8, 1, 1, 0x65, 1, 0x67, 3, 0x7f, 0, 5, 3, 1, 0, 0,
    11, 7, 1, 0, 0x23, 0, 0x0b, 1, 0x2a]

/-- A module whose segment is placed outside its table by an imported global. -/
theorem instantiate_fails_linking_misplacing :
    ∃ (m : Module) (accepted : Config) (s s' : Store Unit Unit), m.Loaded ∧
      Config.check {} = .ok accepted ∧ growingHost.Acts 100 (fun _ => True) ∧
      Engine.instantiate growingHost 100 1 m
        (some { globals := [("e.g", 0)] : Bindings Unit }.resolver) {} s =
          .error (.link { cause := .dataSegment 0 }) s' ∧
      ((∃ error, InstantiateError.link { cause := .dataSegment 0 } = .link error) ∨
        (InstantiateError.link { cause := .dataSegment 0 }).BreaksOff m accepted) := by
  let b : Bindings Unit := { globals := [("e.g", 0)] }
  let s : Store Unit Unit := { globals := #[⟨⟨.i32, false⟩, 5⟩], host := () }
  have hruns : ((Module.load misplacing .eof).toOption.any fun m =>
      (failed (Engine.instantiate growingHost 100 1 m (some b.resolver) {} s)).any fun refused =>
        refused.1 == .link { cause := .dataSegment 0 }) = true := by decide +kernel
  simp only [Option.any_eq_true, failed_eq_some, beq_iff_eq, except_toOption_eq_some] at hruns
  obtain ⟨m, hload, ⟨_, s'⟩, hresult, rfl⟩ := hruns
  have hgrounded : ∀ r : Resolver Unit Unit, some b.resolver = some r →
      r.Grounded s.memories.size := by
    rintro _ ⟨⟩
    exact Bindings.resolver_grounded (by simp [b])
  cases haccepted : Config.check {} with
  | error fault => cases haccepted
  | ok accepted =>
    exact ⟨m, accepted, s, s', ⟨_, _, hload⟩, rfl, growingHost_acts 100 trivial, hresult,
      instantiate_fails_linking ⟨_, _, hload⟩ haccepted hgrounded
      (growingHost_acts 100 trivial) hresult⟩

end IntWasm
