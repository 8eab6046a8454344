import IntWasm.Proofs.Engine.Owners
import IntWasm.Proofs.Trace.Telling

/-!
# Instances whose traces can be read

Instances of loaded modules can be read back: their types are types of the format, their functions
have checked bodies, and their names have sizes of 32 bits, which is what the sections of a binary
can hold. Until the start function runs, building an instance leaves all traces and all instances as
they are. Main statement: `Link.assemble_readable`.
-/

namespace IntWasm

variable {H σ : Type}

open Reader

/-! ## Names of modules -/

/-- A name of a module has a size of 32 bits. -/
def NameSubsection.Short : NameSubsection → Prop
  | module name => (Text.utf8 name).length < 2 ^ 32
  | functions _ | locals _ => True

/-- Reading within a payload gives what the reader gives. -/
theorem Reader.Gives.within {ε α : Type} {r : Reader ε α} {P : α → Prop} (hr : r.Gives P)
    (n : Nat) : (within n r).Gives P := by
  intro c a c' hok
  unfold Reader.within at hok
  simp only at hok
  split at hok
  · rename_i hresult
    obtain ⟨rfl, -⟩ := EStateM.Result.ok.inj hok
    exact hr _ _ _ hresult
  · cases hok

/-- A subsection that was read has brief names. -/
theorem NameSubsection.gives_read {kind : UInt8} {r : Reader Fault NameSubsection}
    (hread : read? kind = some r) : r.Gives Short := by
  unfold read? at hread
  split at hread
  · obtain rfl := Option.some.inj hread
    exact gives_utf8.bind fun name hname => gives_pure hname
  · obtain rfl := Option.some.inj hread
    exact (gives_true _).bind fun names _ => gives_pure trivial
  · obtain rfl := Option.some.inj hread
    exact (gives_true _).bind fun count _ => (gives_true _).bind fun functions _ =>
      gives_pure trivial
  · cases hread

/-- So has each that was kept. -/
theorem NameSection.gives_readSubsection (id : UInt32) :
    (readSubsection id).Gives fun s => ∀ entry ∈ s, entry.Short := by
  refine (gives_true _).bind fun size _ => ?_
  split
  · rename_i contents hcontents
    refine (((NameSubsection.gives_read hcontents).lift _).within _).bind fun s hs => gives_pure ?_
    rintro _ ⟨⟩
    exact hs
  · exact (gives_true _).bind fun _ _ => gives_pure nofun

/-- So have all of them. -/
theorem NameSection.gives_readFrom (fuel : Nat) :
    (readFrom fuel).Gives fun entries => ∀ entry ∈ entries, entry.Short := by
  induction fuel with
  | zero => exact gives_pure nofun
  | succ fuel ih =>
    intro c entries c' hok
    unfold readFrom at hok
    split at hok
    · obtain ⟨rfl, -⟩ := EStateM.Result.ok.inj hok
      exact nofun
    · cases hok
    · split at hok
      · cases hok
      · rename_i s t hsubsection
        split at hok
        · cases hok
        · rename_i more t' hmore
          obtain ⟨rfl, -⟩ := EStateM.Result.ok.inj hok
          intro entry hentry
          rcases List.mem_append.mp hentry with hentry | hentry
          · exact gives_readSubsection _ _ _ _ hsubsection entry (Option.mem_toList.mp hentry)
          · exact ih _ _ _ hmore entry hentry

namespace Module

/-- The name that a module gives itself has a size of 32 bits. -/
theorem length_ownName_lt (m : Module) : (Text.utf8 m.ownName).length < 2 ^ 32 := by
  have hempty : (Text.utf8 "").length < 2 ^ 32 := by decide
  unfold ownName
  cases hnames : m.names with
  | error e => exact hempty
  | ok names =>
    have hshort : ∀ entry ∈ names.entries, entry.Short := by
      unfold Module.names at hnames
      split at hnames
      · cases hnames
      · split at hnames
        · rename_i hread
          obtain rfl := Except.ok.inj hnames
          unfold NameSection.read at hread
          split at hread
          · cases hread
          · rename_i hfrom
            obtain ⟨rfl, -⟩ := EStateM.Result.ok.inj hread
            exact NameSection.gives_readFrom _ _ _ _ hfrom
        · cases hnames
    simp only
    generalize hfound : names.entries.findSome? _ = found
    cases found with
    | none => exact hempty
    | some name =>
      obtain ⟨entry, hentry, hname⟩ := List.exists_of_findSome?_eq_some hfound
      have hname' := hshort entry hentry
      split at hname
      · obtain rfl := Option.some.inj hname
        exact hname'
      · cases hname

end Module

/-! ## Functions -/

/-- A plain function type can be written. -/
theorem FuncType.Plain.inFormat {f : FuncType} (hf : f.Plain) : f.InFormat := by
  have hresults := hf.results_le
  exact ⟨⟨⟨hf.params_lt, hf.params⟩, by omega, hf.results⟩, hf.results_le⟩

/-- The functions of a valid module can be read back. -/
theorem Module.Valid.legible {m : Module} (hvalid : m.Valid) {fns : List Function}
    (hok : m.compile = .ok fns) : ∀ fn ∈ fns, fn.Legible := by
  intro fn hfn
  obtain ⟨i, hi, rfl⟩ := List.mem_iff_getElem.mp hfn
  obtain ⟨pair, -, j, hcompiled⟩ :=
    forall₂_getElem? (compile_eq_ok hok hvalid.length_eq) (List.getElem?_eq_getElem hi)
  obtain ⟨htype, -, hcheck⟩ := compileFunction_eq_ok hcompiled
  refine ⟨(hvalid.plain.type? htype).inFormat, fun hat => ?_⟩
  exact Body.legible_of_check hcheck _ (Array.mem_of_getElem? hat)

/-! ## Building -/

/-- An instance that is being built can be read back, and nothing was told so far. -/
structure Linking.Readable (s : Store H σ) (config : Config) (l : Linking H σ) : Prop where
  traces : l.store.traces = s.traces
  instances : l.store.instances = s.instances
  config : l.inst.config = config
  types : ∀ {i : Nat} {f}, l.inst.types[i]? = some f → f.InFormat
  legible : l.inst.Legible

namespace Linking.Readable

variable {s : Store H σ} {config : Config} {l : Linking H σ}

/-- Nothing about the code of the instance has changed. -/
theorem of_same (hreadable : l.Readable s config) {store : Store H σ} {inst : Instance H}
    (htraces : store.traces = l.store.traces) (hinstances : store.instances = l.store.instances)
    (hconfig : inst.config = l.inst.config) (hname : inst.name = l.inst.name)
    (htypes : inst.types = l.inst.types) (himports : inst.imports = l.inst.imports)
    (hfunctions : inst.functions = l.inst.functions) : Linking.Readable s config ⟨store, inst⟩ where
  traces := htraces.trans hreadable.traces
  instances := hinstances.trans hreadable.instances
  config := hconfig.trans hreadable.config
  types hat := hreadable.types (htypes ▸ hat)
  legible := ⟨hname ▸ hreadable.legible.name, fun hat => hreadable.legible.imports (himports ▸ hat),
    fun hat => hreadable.legible.functions (hfunctions ▸ hat)⟩

/-- Imports keep the instance readable. -/
theorem importEntry (hreadable : l.Readable s config) (resolver : Option (Resolver H σ))
    {i : Import} (hi : i.Plain) :
    Leads (Link.importEntry resolver i) l (fun _ l' => l'.Readable s config)
      fun _ l' => l'.Readable s config := by
  refine (Link.importEntry_leads resolver i l).weaken (fun _ l' hbinds => ?_) fun _ l' hl' =>
    hl' ▸ hreadable
  cases hbinds with
  | function _ hfound hmodule =>
    refine { hreadable with
      legible := { hreadable.legible with imports := fun {j g} hat => ?_ } }
    rw [Array.getElem?_push] at hat
    split at hat
    · obtain rfl := Option.some.inj hat
      exact ⟨hmodule ▸ hi.moduleName_lt, hreadable.types hfound⟩
    · exact hreadable.legible.imports hat
  | memory => exact hreadable.of_same rfl rfl rfl rfl rfl rfl rfl
  | global => exact hreadable.of_same rfl rfl rfl rfl rfl rfl rfl

/-- What every entry of a list keeps to, all of them do. -/
theorem forEach {α : Type} {step : Nat → α → Link H σ Unit} {entries : List α}
    (hstep : ∀ a ∈ entries, ∀ k l, Linking.Readable s config l →
      Leads (step k a) l (fun _ l' => l'.Readable s config) fun _ l' => l'.Readable s config)
    (hreadable : l.Readable s config) (k : Nat) :
    Leads (Link.forEachFrom step k entries) l (fun _ l' => l'.Readable s config)
      fun _ l' => l'.Readable s config := by
  induction entries generalizing l k with
  | nil => exact hreadable
  | cons a entries ih =>
    refine (hstep a (by simp) k l hreadable).bind fun _ l' hl' => ?_
    exact ih (fun b hb => hstep b (by simp [hb])) hl' (k + 1)

/-- Globals keep the instance readable. -/
theorem defineGlobal (hreadable : l.Readable s config) (imported : List Value) (k : Nat)
    (g : GlobalDef) :
    Leads (Link.defineGlobal imported k g) l (fun _ l' => l'.Readable s config)
      fun _ l' => l'.Readable s config := by
  refine (Link.defineGlobal_leads imported k g l).weaken ?_ fun _ l' hl' => hl' ▸ hreadable
  rintro _ _ ⟨v, -, rfl⟩
  exact hreadable.of_same rfl rfl rfl rfl rfl rfl rfl

/-- Binding imports and globals keeps the instance readable. -/
theorem bindDefinitions {m : Module} (hvalid : m.Valid) (resolver : Option (Resolver H σ))
    (hreadable : l.Readable s config) (hempty : l.inst.imports = #[]) :
    Leads (Link.bindDefinitions m resolver) l (fun _ l' => l'.Readable s config)
      fun _ l' => l'.Readable s config := by
  unfold Link.bindDefinitions
  cases hcompile : m.compile with
  | error e => exact hreadable
  | ok functions =>
    refine Leads.after rfl (Leads.after rfl ?_)
    have hbegun : Linking.Readable s config ⟨l.store, { l.inst with
        name := m.ownName, types := (m.types.getD []).toArray, functions :=
            functions.toArray }⟩ := by
      refine ⟨hreadable.traces, hreadable.instances, hreadable.config, fun hat => ?_,
        m.length_ownName_lt, fun hat => ?_, fun hat => ?_⟩
      · rw [List.getElem?_toArray] at hat
        exact (hvalid.plain.types _ (List.mem_of_getElem? hat)).inFormat
      · simp [hempty] at hat
      · rw [List.getElem?_toArray] at hat
        exact hvalid.legible hcompile _ (List.mem_of_getElem? hat)
    refine (forEach (fun i hi k l' hl' => hl'.importEntry resolver (hvalid.plain.imports i hi))
      hbegun 0).bind fun _ l₁ hl₁ => ?_
    exact Leads.after rfl (forEach (fun g _ k l' hl' => hl'.defineGlobal _ k g) hl₁ 0)

/-- Declaring a memory keeps the instance readable. -/
theorem declareMemory (hreadable : l.Readable s config) (allocator : Nat) (m : Module) :
    Leads (Link.declareMemory allocator m) l (fun _ l' => l'.Readable s config)
      fun _ l' => l'.Readable s config := by
  unfold Link.declareMemory
  split
  · exact hreadable
  · rename_i limits _ _
    unfold Leads Link.allocateMemory Store.newMemory
    simp only
    cases Memory.new limits allocator l.inst.config.maxMemoryPages
        (l.store.allocators[allocator]?.getD {}) with
    | ok memory a => exact hreadable.of_same rfl rfl rfl rfl rfl rfl rfl
    | error e a => exact hreadable.of_same rfl rfl rfl rfl rfl rfl rfl

/-- Placing segments keeps the instance readable. -/
theorem placeSegments (hreadable : l.Readable s config) (m : Module) :
    Leads (Link.placeSegments m) l (fun _ l' => l'.Readable s config)
      fun _ l' => l'.Readable s config := by
  refine (Link.placeSegments_leads m l).weaken ?_ fun _ l' hl' => hl' ▸ hreadable
  rintro _ _ ⟨place, -, fill, -, rfl⟩
  cases l.inst.memory with
  | none => exact hreadable.of_same rfl rfl rfl rfl rfl rfl rfl
  | some p => exact hreadable.of_same rfl rfl rfl rfl rfl rfl rfl

end Linking.Readable

/-- A valid module is put together without telling anything, wherever that stops, and the instance
can be read back. -/
theorem Link.assemble_readable {m : Module} (hvalid : m.Valid) (resolver : Option (Resolver H σ))
    (allocator : Nat) (s : Store H σ) (config : Config) :
    Leads (assemble m resolver allocator) ⟨s, { config }⟩ (fun _ l => l.Readable s config)
      fun _ l => l.Readable s config := by
  have hempty : (Text.utf8 "").length < 2 ^ 32 := by decide
  have hnew : Linking.Readable s config ⟨s, { config }⟩ :=
    ⟨rfl, rfl, rfl, fun hat => by
      simp at hat, hempty, fun hat => by simp at hat, fun hat => by simp at hat⟩
  refine (hnew.bindDefinitions hvalid resolver rfl).bind fun _ l hl => ?_
  refine (hl.declareMemory allocator m).bind fun _ l hl => ?_
  have htable : Leads (declareTable m) l (fun _ l' => l'.Readable s config)
      fun _ l' => l'.Readable s config := by
    unfold declareTable
    split
    · exact hl
    · exact hl.of_same rfl rfl rfl rfl rfl rfl rfl
  refine htable.bind fun _ l hl => ?_
  exact (hl.placeSegments m).bind fun _ l hl => hl.of_same rfl rfl rfl rfl rfl rfl rfl

end IntWasm
