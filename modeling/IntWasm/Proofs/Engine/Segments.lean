import IntWasm.Proofs.Engine.Atomicity
import IntWasm.Proofs.Engine.Failures
import IntWasm.Proofs.Memory.Contract
import IntWasm.Proofs.Module.Evaluation

/-!
# What segments initialise

A segment is a run of functions or of bytes that begins where a constant expression says. All runs
have to fit before any of them is placed; then they are placed one after the other, so that the last
one that covers a slot or a byte decides what is there. Main statement: `segments_initialise`.
-/

namespace IntWasm

open Structured

variable {H σ : Type}

/-! ## Runs of entries -/

/-- Runs of entries lie within something of a given size, if it is there at all. -/
def Fit {α : Type} (runs : List (Nat × List α)) (size : Option Nat) : Prop :=
  ∀ run ∈ runs, ∃ n, size = some n ∧ run.1 + run.2.length ≤ n

/-- The entry at an index in the last of the runs that cover it. -/
def lastPlaced {α : Type} (runs : List (Nat × List α)) (i : Nat) : Option α :=
  runs.reverse.findSome? fun run => placed run.1 run.2 i

/-- Runs fit if the first one lies inside and the others fit. -/
theorem fit_cons {α : Type} {run : Nat × List α} {runs : List (Nat × List α)} {size : Option Nat} :
    Fit (run :: runs) size ↔ (∃ n, size = some n ∧ run.1 + run.2.length ≤ n) ∧ Fit runs size :=
  List.forall_mem_cons

/-- A later run covers an earlier one. -/
theorem lastPlaced_cons {α : Type} (run : Nat × List α) (runs : List (Nat × List α)) (i : Nat) :
    lastPlaced (run :: runs) i = (lastPlaced runs i).or (placed run.1 run.2 i) := by
  simp [lastPlaced, List.findSome?_append]

/-- Placing runs keeps the size. -/
theorem size_placeRuns (runs : List (Nat × List UInt8)) (bytes : ByteArray) :
    (runs.foldl (fun bytes run => setBytes bytes run.1 run.2) bytes).size = bytes.size := by
  induction runs generalizing bytes with
  | nil => rfl
  | cons run runs ih => rw [List.foldl_cons, ih, size_setBytes]

/-- Placing runs of bytes changes the bytes that they cover. -/
theorem byteAt_placeRuns {runs : List (Nat × List UInt8)} {bytes : ByteArray}
    (hfit : Fit runs (some bytes.size)) (i : Nat) :
    byteAt (runs.foldl (fun bytes run => setBytes bytes run.1 run.2) bytes) i =
      (lastPlaced runs i).getD (byteAt bytes i) := by
  induction runs generalizing bytes with
  | nil => rfl
  | cons run runs ih =>
    obtain ⟨⟨_, ⟨⟩, hfirst⟩, hrest⟩ := fit_cons.1 hfit
    rw [List.foldl_cons, ih (by rwa [size_setBytes]), byteAt_setBytes hfirst, lastPlaced_cons]
    cases lastPlaced runs i <;> rfl

namespace Table

/-- A new table has no functions in its slots. -/
theorem lookup_new {min max slot : UInt32} (hinside : slot < min) :
    (new min max).lookup slot = .error .uninitializedElement := by
  have hunder : ¬ (new min max).min ≤ slot := UInt32.not_le.2 hinside
  rw [lookup, if_neg hunder]
  simp [new]

/-- Setting a slot sets it and no other. -/
theorem lookup_set? {t t' : Table} {i function : UInt32} (hset : t.set? i function = some t')
    (slot : UInt32) : t'.lookup slot = if slot = i then .ok function else t.lookup slot := by
  unfold set? at hset
  split at hset
  · rename_i hinside
    obtain rfl := Option.some.inj hset
    simp only [lookup, Std.TreeMap.getElem?_insert]
    by_cases hslot : slot = i
    · subst hslot
      rw [if_neg (UInt32.not_le.2 hinside), if_pos rfl]
      simp
    · have hother : compare i slot ≠ .eq :=
        fun heq => hslot (Std.LawfulEqOrd.eq_of_compare heq).symm
      simp only [if_neg hother, if_neg hslot]
  · cases hset

/-- Filling a table changes the slots that the functions lie in. -/
theorem lookup_fillTable {t : Table} {start : Nat} {functions : List UInt32}
    (hfits : start + functions.length ≤ t.size) (slot : UInt32) :
    (Link.fillTable t start functions).size = t.size ∧
      (Link.fillTable t start functions).lookup slot =
        ((placed start functions slot.toNat).map .ok).getD (t.lookup slot) := by
  induction functions generalizing t start with
  | nil => simp [Link.fillTable, placed_nil]
  | cons f functions ih =>
    rw [List.length_cons] at hfits
    have hlt : start < 2 ^ 32 := by
      have := t.min.toNat_lt
      unfold size at hfits
      omega
    have hstart : (UInt32.ofNat start).toNat = start := UInt32.toNat_ofNat_of_lt' hlt
    have hinside : UInt32.ofNat start < t.min := by
      rw [UInt32.lt_iff_toNat_lt, hstart]
      unfold size at hfits
      omega
    obtain ⟨t', hset, hsize⟩ : ∃ t', t.set? (UInt32.ofNat start) f = some t' ∧ t'.size = t.size :=
      ⟨_, if_pos hinside, rfl⟩
    obtain ⟨hsize', hlookup⟩ := ih (show start + 1 + functions.length ≤ t'.size by omega)
    rw [Link.fillTable, hset, Option.getD_some]
    refine ⟨hsize'.trans hsize, ?_⟩
    rw [hlookup, lookup_set? hset, placed_cons]
    by_cases hslot : slot = UInt32.ofNat start
    · subst hslot
      simp [hstart, placed]
    · rw [if_neg hslot, if_neg fun heq => hslot (UInt32.toNat_inj.1 (heq.trans hstart.symm))]

/-- Placing runs of functions changes the slots that they cover. -/
theorem lookup_placeRuns {runs : List (Nat × List UInt32)} {t : Table}
    (hfit : Fit runs (some t.size)) (slot : UInt32) :
    (runs.foldl (fun t run => Link.fillTable t run.1 run.2) t).size = t.size ∧
      (runs.foldl (fun t run => Link.fillTable t run.1 run.2) t).lookup slot =
        ((lastPlaced runs slot.toNat).map .ok).getD (t.lookup slot) := by
  induction runs generalizing t with
  | nil => exact ⟨rfl, rfl⟩
  | cons run runs ih =>
    obtain ⟨⟨_, ⟨⟩, hfirst⟩, hrest⟩ := fit_cons.1 hfit
    obtain ⟨hsize, hlookup⟩ := lookup_fillTable hfirst slot
    obtain ⟨hsize', hlookup'⟩ := ih (hsize.symm ▸ hrest)
    rw [List.foldl_cons, lastPlaced_cons]
    refine ⟨hsize'.trans hsize, ?_⟩
    rw [hlookup', hlookup]
    cases lastPlaced runs slot.toNat <;> rfl

end Table

/-! ## Where segments begin -/

/-- The unsigned number of 32 bits that an expression stands for; zero, if it has no value. -/
def ConstExpr.start (globals : List Value) (expr : List UInt8) : Nat :=
  match eval globals expr with
  | .ok v => v.bits.toUInt32.toNat
  | .error _ => 0

namespace Module

/-- The runs of functions that the element segments of a module place. -/
def elementRuns (m : Module) (globals : List Value) : List (Nat × List UInt32) :=
  (m.elements.getD []).map fun s => (ConstExpr.start globals s.offset, s.functions)

/-- The runs of bytes that the data segments of a module place. -/
def dataRuns (m : Module) (globals : List Value) : List (Nat × List UInt8) :=
  (m.data.getD []).map fun s => (ConstExpr.start globals s.offset, s.bytes)

end Module

/-- A checked expression has the same value if there are more globals. -/
theorem ConstExpr.eval_append {types : List GlobalType} (hints : ∀ g ∈ types, g.type.IsInt)
    {expected : ValueType} (hexpected : expected.IsInt) {expr : List UInt8}
    (hcheck : Module.checkConst types expected expr = .ok ()) {values : List Value}
    (hvalues : Supply values types) (more : List Value) :
    ∃ v, eval values expr = .ok v ∧ eval (values ++ more) expr = .ok v ∧ v.type = expected := by
  obtain ⟨i, head, hspells, rfl, hsource⟩ := (Module.checkConst_iff hints hexpected).mp hcheck
  have heval {values : List Value} {v : Value} (hvalue : i.value? values = some v) :
      eval values (head ++ [closingByte]) = .ok v := eval_spelled hspells hvalue
  cases i <;> simp only [Instr.source?, reduceCtorEq, Option.some.injEq,
    GlobalType.mk.injEq] at hsource
  case const32 => exact ⟨_, heval rfl, heval rfl, hsource.1⟩
  case const64 => exact ⟨_, heval rfl, heval rfl, hsource.1⟩
  case globalGet index =>
    obtain ⟨v, hv, htype⟩ := hvalues hsource
    have hmore : (values ++ more)[index.toNat]? = some v := by
      rw [List.getElem?_append_left (List.getElem?_eq_some_iff.1 hv).1, hv]
    exact ⟨v, heval hv, heval hmore, htype⟩

namespace Link

/-- An offset is the value of its expression. -/
theorem offset_of_eval {values : List Value} {expr : List UInt8} {v : Value}
    (heval : ConstExpr.eval values expr = .ok v) (htype : v.type = .i32) :
    offset values expr = .ok v.bits.toUInt32.toNat := by
  simp only [offset, heval]
  exact if_pos htype

/-- Segments whose offsets are looked at one after the other are accepted if their runs fit. -/
theorem offsets_eq_ok_iff {S α : Type} (known : S → Prop) {run : S → Nat × List α}
    {fault : Nat → InstantiateError} {size : Option Nat}
    {offsets : Nat → List S → Except InstantiateError (List Nat)}
    (hnil : ∀ i, offsets i [] = .ok [])
    (hcons : ∀ i s segments, known s →
      offsets i (s :: segments) = if size.all (· < (run s).1 + (run s).2.length)
        then .error (fault i) else ((run s).1 :: ·) <$> offsets (i + 1) segments)
    {segments : List S} (hknown : ∀ s ∈ segments, known s) {i : Nat} {starts : List Nat} :
    offsets i segments = .ok starts ↔
      Fit (segments.map run) size ∧ starts = segments.map fun s => (run s).1 := by
  induction segments generalizing i starts with
  | nil => simp [hnil, Fit, eq_comm]
  | cons s segments ih =>
    have hfirst : size.all (· < (run s).1 + (run s).2.length) = false ↔
        ∃ n, size = some n ∧ (run s).1 + (run s).2.length ≤ n := by
      cases size <;> simp
    have hrest {starts : List Nat} : offsets (i + 1) segments = .ok starts ↔
        Fit (segments.map run) size ∧ starts = segments.map fun s => (run s).1 :=
      ih fun s' hs' => hknown s' (by simp [hs'])
    rw [hcons i s segments (hknown s (by simp)), List.map_cons, List.map_cons, fit_cons, ← hfirst]
    cases size.all (· < (run s).1 + (run s).2.length) with
    | true => simp
    | false =>
      cases hoffsets : offsets (i + 1) segments with
      | error e =>
        have hunfit : ¬ Fit (segments.map run) size := fun hfit => by
          rw [hrest.2 ⟨hfit, rfl⟩] at hoffsets
          cases hoffsets
        simp [Functor.map, Except.map, hunfit]
      | ok starts' =>
        obtain ⟨hfit, rfl⟩ := hrest.1 hoffsets
        simp [Functor.map, Except.map, hfit, eq_comm]

variable {m : Module} {values : List Value}

/-- The offset that an expression of a checked module gives does not depend on globals of its
own. -/
theorem offset_append (hvalid : m.Valid) (hvalues : ConstExpr.Supply values m.importedGlobals)
    (more : List Value) {expr : List UInt8}
    (hcheck : Module.checkConst m.importedGlobals .i32 expr = .ok ()) :
    offset (values ++ more) expr = .ok (ConstExpr.start values expr) := by
  obtain ⟨v, heval, hmore, htype⟩ :=
    ConstExpr.eval_append hvalid.plain.importedGlobals ⟨.i32, rfl⟩ hcheck hvalues more
  rw [offset_of_eval hmore htype, ConstExpr.start, heval]

/-- The table's segments are placed exactly if all of them fit, each where its expression says. -/
theorem elementOffsets_eq_ok_iff (hvalid : m.Valid) (hchecked : m.Checked)
    (hvalues : ConstExpr.Supply values m.importedGlobals) (more : List Value) (table : Option Table)
    {starts : List Nat} :
    elementOffsets (values ++ more) table 0 (m.elements.getD []) = .ok starts ↔
      Fit (m.elementRuns values) (table.map (·.size)) ∧
        starts = (m.elements.getD []).map fun s => ConstExpr.start values s.offset :=
  offsets_eq_ok_iff (· ∈ m.elements.getD []) (fun _ => rfl)
    (fun i s segments hs =>
      elementOffsets_cons (offset_append hvalid hvalues more (hchecked.elements s hs))
        table i segments)
    fun _ hs => hs

/-- The memory's segments are placed exactly if all of them fit, each where its expression says. -/
theorem dataOffsets_eq_ok_iff (hvalid : m.Valid) (hchecked : m.Checked)
    (hvalues : ConstExpr.Supply values m.importedGlobals) (more : List Value) (size : Option Nat)
    {starts : List Nat} :
    dataOffsets (values ++ more) size 0 (m.data.getD []) = .ok starts ↔
      Fit (m.dataRuns values) size ∧
        starts = (m.data.getD []).map fun s => ConstExpr.start values s.offset :=
  offsets_eq_ok_iff (· ∈ m.data.getD []) (fun _ => rfl)
    (fun i s segments hs =>
      dataOffsets_cons (offset_append hvalid hvalues more (hchecked.data s hs)) size i segments)
    fun _ hs => hs

end Link

/-! ## Placing -/

/-- The bytes of the memory at a place, if there is one. -/
def Store.bytesAt (s : Store H σ) (place : Option Nat) : Option ByteArray :=
  place.bind fun p => (s.memories[p]?).map (·.bytes)

/-- The bytes at a place are those of the memory there. -/
theorem Store.bytesAt_eq_some {s : Store H σ} {place : Option Nat} {bytes : ByteArray} :
    s.bytesAt place = some bytes ↔
      ∃ p memory, place = some p ∧ s.memories[p]? = some memory ∧ memory.bytes = bytes := by
  simp [bytesAt, Option.bind_eq_some_iff]

/-- A change of the bytes at a place is seen there. -/
theorem Store.bytesAt_modifyMemory (s : Store H σ) (p : Nat) (f : ByteArray → ByteArray) :
    (s.modifyMemory p fun m => { m with bytes := f m.bytes }).bytesAt (some p) =
      (s.bytesAt (some p)).map f := by
  simp only [bytesAt, Option.bind_some, modifyMemory, Array.getElem?_modify, if_true,
    Option.map_map]
  rfl

/-- Segments are placed if they fit. -/
theorem Link.placeSegments_places {m : Module} (hvalid : m.Valid) (hchecked : m.Checked)
    {l : Linking H σ} {values more : List Value}
    (hsupply : ConstExpr.Supply values m.importedGlobals)
    (hvalues : (l.inst.globals.toList.filterMap fun p => (l.store.globals[p]?).map (·.value)) =
      values ++ more) :
    Leads (placeSegments m) l
      (fun _ l' => (Fit (m.elementRuns values) (l.inst.table.map (·.size)) ∧
          Fit (m.dataRuns values) ((l.store.bytesAt l.inst.memory).map (·.size))) ∧
        l'.inst.memory = l.inst.memory ∧
        l'.inst.table = l.inst.table.map
          ((m.elementRuns values).foldl fun t run => fillTable t run.1 run.2) ∧
        l'.store.bytesAt l'.inst.memory = (l.store.bytesAt l.inst.memory).map
          ((m.dataRuns values).foldl fun bytes run => setBytes bytes run.1 run.2))
      fun _ _ => ¬ (Fit (m.elementRuns values) (l.inst.table.map (·.size)) ∧
        Fit (m.dataRuns values) ((l.store.bytesAt l.inst.memory).map (·.size))) := by
  have hsize : (do
      let memory ← l.store.memories[← l.inst.memory]?
      return memory.bytes.size) = (l.store.bytesAt l.inst.memory).map (·.size) := by
    unfold Store.bytesAt
    cases l.inst.memory with
    | none => rfl
    | some p => cases h : l.store.memories[p]? <;> simp [h]
  have helements := @elementOffsets_eq_ok_iff _ _ hvalid hchecked hsupply more l.inst.table
  have hdata := @dataOffsets_eq_ok_iff _ _ hvalid hchecked hsupply more
    ((l.store.bytesAt l.inst.memory).map (·.size))
  simp only [Leads, placeSegments_eq, hvalues, hsize]
  -- All offsets are computed before anything is written, first those of the table: so either
  -- everything fits or nothing was placed.
  cases helementStarts : elementOffsets (values ++ more) l.inst.table 0 (m.elements.getD []) with
  | error e =>
    rintro ⟨hfit, -⟩
    rw [helements.2 ⟨hfit, rfl⟩] at helementStarts
    cases helementStarts
  | ok elementStarts =>
    obtain ⟨hfit, rfl⟩ := helements.1 helementStarts
    simp only
    cases hdataStarts :
        dataOffsets (values ++ more) ((l.store.bytesAt l.inst.memory).map (·.size)) 0
        (m.data.getD []) with
    | error e =>
      rintro ⟨-, hfit'⟩
      rw [hdata.2 ⟨hfit', rfl⟩] at hdataStarts
      cases hdataStarts
    | ok dataStarts =>
      obtain ⟨hfit', rfl⟩ := hdata.1 hdataStarts
      refine ⟨⟨hfit, hfit'⟩, rfl, ?_, ?_⟩
      · simp only [Module.elementRuns, List.foldl_map, ← List.map_prod_left_eq_zip]
      · cases l.inst.memory with
        | none => rfl
        | some p =>
          rw [← Store.bytesAt_modifyMemory]
          simp only [Module.dataRuns, List.foldl_map, ← List.map_prod_left_eq_zip]

/-! ## Until segments are placed -/

namespace Link

section

variable {m : Module} {resolver : Option (Resolver H σ)}

/-- Links the imports of a module: its first stage but for the globals of its own. -/
def linkImports (m : Module) (resolver : Option (Resolver H σ)) : Link H σ Unit := do
  let functions ← lift m.compile
  modifyInstance fun inst =>
    { inst with
      name := m.ownName
      types := (m.types.getD []).toArray
      functions := functions.toArray }
  forEachFrom (fun _ i => importEntry resolver i) 0 m.importList

/-- Definitions are bound after the imports, with the imports' values. -/
theorem bindDefinitions_eq (m : Module) (resolver : Option (Resolver H σ)) :
    bindDefinitions m resolver = (do
      linkImports m resolver
      let imported ← globalValues
      forEachFrom (defineGlobal imported) 0 (m.globals.getD [])) := by
  simp only [bindDefinitions, linkImports, bind_assoc]

/-- Linking imports gives an instance no table. -/
theorem importEntries_keeps (k : Nat) (entries : List Import) (l : Linking H σ) :
    Leads (forEachFrom (fun _ i => importEntry resolver i) k entries) l
      (fun _ l' => l'.inst.table = l.inst.table ∧ l'.inst.config = l.inst.config)
        fun _ _ => True := by
  have hentry (i : Import) (l : Linking H σ) : Leads (importEntry resolver i) l
      (fun _ l' => l'.inst.table = l.inst.table ∧ l'.inst.config = l.inst.config)
      fun _ _ => True := by
    refine (importEntry_leads resolver i l).weaken (fun _ l' hbinds => ?_) fun _ _ _ => trivial
    cases hbinds <;> exact ⟨rfl, rfl⟩
  induction entries generalizing k l with
  | nil => exact ⟨rfl, rfl⟩
  | cons i entries ih =>
    refine (hentry i l).bind fun _ l' hl' => (ih (k + 1) l').weaken ?_ fun _ _ _ => trivial
    exact fun _ l'' hl'' => ⟨hl''.1.trans hl'.1, hl''.2.trans hl'.2⟩

end

end Link

/-- What there is when the imports of a module were linked: a value for each imported global, the
bytes of all memories as they were, and no table yet. -/
structure Linking.Linked (m : Module) (c : Config) (s : Store H σ) (l : Linking H σ) : Prop where
  config_eq : l.inst.config = c
  table_eq : l.inst.table = none
  globals : List.Forall₂ (fun p type => ∃ g, s.globals[p]? = some g ∧ g.type = type)
    l.inst.globals.toList m.importedGlobals
  globals_eq : l.store.globals = s.globals
  allocators_eq : l.store.allocators = s.allocators
  bytes_eq : ∀ place, l.store.bytesAt place = s.bytesAt place

/-- Binding imports leaves all bytes as they are. -/
theorem Linking.Imports.bytes_eq {m : Module} {resolver : Option (Resolver H σ)} {s : Store H σ}
    {l : Linking H σ} (himports : l.Imports m resolver s) (place : Option Nat) :
    l.store.bytesAt place = s.bytesAt place := by
  cases himports with
  | nothing => rfl
  | memory =>
    unfold Store.bytesAt Store.modifyMemory
    refine congrArg place.bind (funext fun p => ?_)
    rw [Array.getElem?_modify]
    split
    · rw [Option.map_map]
      rfl
    · rfl

/-- Imports that are bound are those that the module declares, in order. -/
theorem Link.linkImports_leads {m : Module} (hvalid : m.Valid) {resolver : Option (Resolver H σ)}
    {s : Store H σ} (hgrounded : ∀ r, resolver = some r → r.Grounded s.memories.size) (c : Config) :
    Leads (linkImports m resolver) ⟨s, { config := c }⟩ (fun _ l => l.Linked m c s)
      fun _ _ => True := by
  have hlinked {l : Linking H σ} (hprovides : l.Provides m s.memories.size [] [] 0)
      (himports : l.Imports m resolver s) (hnone : l.inst.memory = none)
      (htable : l.inst.table = none) (hconfig : l.inst.config = c) :
      Leads (forEachFrom (fun _ i => importEntry resolver i) 0 m.importList) l
        (fun _ l' => l'.Linked m c s) fun _ _ => True := by
    have hroom : l.Room ((m.importList.filterMap Module.memoryImport?).length + 0) := by
      rw [Linking.Room, hnone, Option.toList, List.length_nil, Nat.zero_add]
      exact Nat.le_trans (Nat.le_add_right _ _) hvalid.memoryCount_le
    have himported := himports.forEach (fun _ hi => hi) 0 hroom
    refine (((hprovides.importEntries hgrounded 0 m.importList).and himported).and
      (importEntries_keeps 0 m.importList l)).weaken ?_ fun _ _ _ => trivial
    rintro _ l' ⟨⟨hprovides', himports', -⟩, htable', hconfig'⟩
    have hglobals : l'.store.globals = s.globals := by cases himports' <;> rfl
    refine ⟨hconfig'.trans hconfig, htable'.trans htable, ?_, hglobals, ?_, himports'.bytes_eq⟩
    · exact hglobals ▸ hprovides'.globals
    · cases himports' <;> rfl
  unfold linkImports
  cases hcompile : m.compile with
  | error e => exact trivial
  | ok functions =>
    have hbegun := Linking.provides_functions (l := ⟨s, { config := c }⟩) ⟨rfl, rfl⟩ hcompile
    exact Leads.after rfl (Leads.after rfl (hlinked hbegun (.nothing rfl rfl) rfl rfl rfl))

/-- The table that a module declares, without any function. Without a maximum it is bounded by its
indices only. -/
def Module.emptyTable (m : Module) : Option Table :=
  (m.tables.getD []).head?.map fun t => .new t.limits.min (t.limits.max?.getD 0xffffffff)

namespace Link

/-- The globals of a module's own come behind all that there are. -/
theorem defineGlobals_adds {values : List Value} (k : Nat) {entries : List GlobalDef}
    (hentries : ∀ g ∈ entries, ∃ v, ConstExpr.eval values g.init = .ok v ∧ v.type = g.type.type)
    (l : Linking H σ) :
    Leads (forEachFrom (defineGlobal values) k entries) l
      (fun _ l' => ∃ globals places,
        l' = ⟨{ l.store with globals := l.store.globals ++ globals },
          { l.inst with globals := l.inst.globals ++ places }⟩)
      fun _ _ => False := by
  induction entries generalizing k l with
  | nil => exact ⟨#[], #[], by rw [Array.append_empty, Array.append_empty]⟩
  | cons g entries ih =>
    obtain ⟨v, heval, htype⟩ := hentries g (by simp)
    have hdefine : defineGlobal values k g l = .ok () ⟨(l.store.addGlobal (.new g.type v)).2,
        { l.inst with globals := l.inst.globals.push l.store.globals.size }⟩ := by
      simp only [defineGlobal_eq, heval, if_pos htype]
    refine Leads.after hdefine ((ih (k + 1) (fun g' hg' => hentries g' (by simp [hg'])) _).weaken ?_
      fun _ _ h => h)
    rintro _ _ ⟨globals, places, rfl⟩
    refine ⟨#[.new g.type v] ++ globals, #[l.store.globals.size] ++ places, ?_⟩
    simp only [Store.addGlobal, ← Array.append_assoc, Array.append_singleton]

/-- The memory that a module declares is zero. -/
theorem declareMemory_makes {m : Module} {allocator : Nat} {l : Linking H σ}
    (hmemory : ∀ limits ∈ m.memories.getD [], ∃ memory a,
      Memory.new limits allocator l.inst.config.maxMemoryPages
        (l.store.allocators[allocator]?.getD {}) = .ok memory a) :
    Leads (declareMemory allocator m) l
      (fun _ l' => l'.inst.table = l.inst.table ∧ l'.inst.globals = l.inst.globals ∧
        l'.store.globals = l.store.globals ∧
        match m.memories.getD [] with
        | [] => l'.inst.memory = l.inst.memory ∧ l'.store.memories = l.store.memories
        | limits :: _ =>
          l'.store.bytesAt l'.inst.memory = some (appendZeroPages .empty limits.min.toNat))
      fun _ _ => False := by
  unfold declareMemory
  cases hmemories : m.memories.getD [] with
  | nil => exact ⟨rfl, rfl, rfl, rfl, rfl⟩
  | cons limits rest =>
    obtain ⟨memory, a, hnew⟩ := hmemory limits (by simp [hmemories])
    simp [Leads, allocateMemory, Store.newMemory, hnew, Store.bytesAt, Store.addMemory,
      Memory.bytes_of_new hnew]

/-- A table is declared as the module says, or none. -/
theorem declareTable_eq (m : Module) {l : Linking H σ} (hnone : l.inst.table = none) :
    declareTable m l = .ok () { l with inst := { l.inst with table := m.emptyTable } } := by
  unfold declareTable Module.emptyTable
  cases m.tables.getD [] with
  | nil => exact congrArg (EStateM.Result.ok ()) (by rw [List.head?_nil, Option.map_none, ← hnone])
  | cons t rest => rfl

/-- Globals that are added do not change the values that there are. -/
theorem values_append {globals more : Array Global} {places : List Nat} {types : List GlobalType}
    (hall : List.Forall₂ (fun p type => ∃ g, globals[p]? = some g ∧ g.type = type) places types) :
    (places.filterMap fun p => ((globals ++ more)[p]?).map (·.value)) =
      places.filterMap fun p => (globals[p]?).map (·.value) := by
  induction hall with
  | nil => rfl
  | cons hfirst _ ih =>
    obtain ⟨g, hg, -⟩ := hfirst
    have hinside := (Array.getElem?_eq_some_iff.1 hg).1
    rw [List.filterMap_cons, List.filterMap_cons, Array.getElem?_append_left hinside, hg, ih]

end Link

/-! ## What an instance begins with -/

/-- The imports of a module resolve, which gives an instance without globals and a memory of its
own, and the memory that it declares can be allocated. -/
structure Module.Ready (m : Module) (resolver : Option (Resolver H σ)) (c : Config) (s : Store H σ)
    (l : Linking H σ) : Prop where
  imports : Link.linkImports m resolver ⟨(Engine.placeAllocator c s).2, { config := c }⟩ = .ok () l
  memory : ∀ limits ∈ m.memories.getD [], ∃ memory a,
    Memory.new limits (Engine.placeAllocator c s).1 c.maxMemoryPages
      ((Engine.placeAllocator c s).2.allocators[(Engine.placeAllocator c s).1]?.getD {}) =
      .ok memory a

/-- The values that the imported globals have in a store. -/
def Linking.importedValues (l : Linking H σ) (s : Store H σ) : List Value :=
  l.inst.globals.toList.filterMap fun p => (s.globals[p]?).map (·.value)

namespace Module

/-- The number of slots of the table that a module declares. -/
def slots (m : Module) : Option Nat := (m.tables.getD []).head?.map (·.limits.min.toNat)

/-- The size in bytes of the memory of a module before any segment is placed, and its bytes: zeros,
or what the imported memory holds in a store. -/
def bytesBefore (m : Module) (l : Linking H σ) (s : Store H σ) : Option (Nat × (Nat → UInt8)) :=
  match m.memories.getD [] with
  | [] => (s.bytesAt l.inst.memory).map fun bytes => (bytes.size, byteAt bytes)
  | limits :: _ => some (limits.min.toNat * pageSize, fun _ => 0)

end Module

/-- The slots of the table of an instance and the bytes of its memory are those that runs of
functions and of bytes say; all others are empty or what they were before. -/
structure Instance.Initialised (inst : Instance H) (s : Store H σ) (slots : Option Nat)
    (functions : List (Nat × List UInt32)) (before : Option (Nat × (Nat → UInt8)))
    (bytes : List (Nat × List UInt8)) : Prop where
  table : ∀ {n : Nat}, slots = some n → ∃ table, inst.table = some table ∧ table.size = n ∧
    ∀ slot : UInt32, slot.toNat < n → table.lookup slot =
      match lastPlaced functions slot.toNat with
      | some function => .ok function
      | none => .error .uninitializedElement
  memory : ∀ {n : Nat} {old : Nat → UInt8}, before = some (n, old) → ∃ p memory,
    inst.memory = some p ∧ s.memories[p]? = some memory ∧ memory.bytes.size = n ∧
      ∀ i < n, byteAt memory.bytes i = (lastPlaced bytes i).getD (old i)

section

variable {m : Module} {resolver : Option (Resolver H σ)} {c : Config} {s : Store H σ}
  {l : Linking H σ}

/-- Ready instances have the module's imports linked. -/
theorem Module.Ready.linked (hready : m.Ready resolver c s l) (hvalid : m.Valid)
    (hgrounded : ∀ r, resolver = some r → r.Grounded s.memories.size) :
    l.Linked m c (Engine.placeAllocator c s).2 := by
  have hleads := Link.linkImports_leads hvalid ((Engine.placeAllocator_same c s).1 ▸ hgrounded) c
  rwa [Leads, hready.imports] at hleads

/-- The values of imported globals supply what constant expressions read. -/
theorem Linking.Linked.supply (hlinked : l.Linked m c (Engine.placeAllocator c s).2) :
    ConstExpr.Supply (l.importedValues s) m.importedGlobals := by
  have hglobals := hlinked.globals
  rw [(Engine.placeAllocator_same c s).2.1] at hglobals
  intro i g hg
  exact ConstExpr.supply_of_globals hglobals hg

/-- What there is before segments are placed: an empty table, the values of the imported globals
before those of the module's own, and a memory that nothing was written to. -/
structure Linking.Prepared (m : Module) (l' l : Linking H σ) (s : Store H σ) : Prop where
  table_eq : l'.inst.table = m.emptyTable
  values : ∃ more,
    (l'.inst.globals.toList.filterMap fun p => (l'.store.globals[p]?).map (·.value)) =
    l.importedValues s ++ more
  bytes : m.bytesBefore l s =
    (l'.store.bytesAt l'.inst.memory).map fun bytes => (bytes.size, byteAt bytes)
  memory_eq : m.memories.getD [] = [] → l'.inst.memory = l.inst.memory

/-- A module that is ready gets as far as its segments. -/
theorem Link.prepare_leads (hvalid : m.Valid) (hchecked : m.Checked)
    (hready : m.Ready resolver c s l)
    (hgrounded : ∀ r, resolver = some r → r.Grounded s.memories.size) :
    Leads (do
        bindDefinitions m resolver
        declareMemory (Engine.placeAllocator c s).1 m
        declareTable m) ⟨(Engine.placeAllocator c s).2, { config := c }⟩
      (fun _ l' => l'.Prepared m l s) fun _ _ => False := by
  obtain ⟨hmemories, hglobals, -⟩ := Engine.placeAllocator_same c s
  have hlinked := hready.linked hvalid hgrounded
  have hglobal := hlinked.globals
  rw [hglobals] at hglobal
  have hvalues : globalValues l = .ok (l.importedValues s) l := by
    simp only [globalValues, bind, EStateM.bind, estate_get, pure, EStateM.pure, hlinked.globals_eq,
      hglobals]
    rfl
  rw [bindDefinitions_eq]
  simp only [bind_assoc]
  -- The stages one after another: the imports, the globals, the memory and the table. None fails,
  -- by readiness and by the checks of the module.
  refine Leads.after hready.imports (Leads.after hvalues ?_)
  refine (defineGlobals_adds 0 (fun g hg => Module.eval_of_checkConst hvalid.plain.importedGlobals
    (hvalid.plain.globals g hg) (hchecked.globals g hg) hlinked.supply) l).bind ?_
  rintro _ _ ⟨globals, places, rfl⟩
  refine (declareMemory_makes ?_).bind ?_
  · simp only [hlinked.config_eq, hlinked.allocators_eq]
    exact hready.memory
  rintro _ l' ⟨htable, hplaces, hglobals', hmemory⟩
  rw [Leads, declareTable_eq m (htable.trans hlinked.table_eq)]
  refine ⟨rfl, ⟨places.toList.filterMap fun p => ((s.globals ++ globals)[p]?).map (·.value), ?_⟩,
    ?_, ?_⟩
  · rw [hplaces, hglobals', hlinked.globals_eq, hglobals, Array.toList_append,
      List.filterMap_append, values_append hglobal]
    rfl
  · simp only [Module.bytesBefore]
    cases hdeclared : m.memories.getD [] with
    | nil =>
      rw [hdeclared] at hmemory
      have hsame := hlinked.bytes_eq l.inst.memory
      simp only [Store.bytesAt, hmemories] at hsame ⊢
      rw [hmemory.1, hmemory.2, hsame]
    | cons limits rest =>
      rw [hdeclared] at hmemory
      have hzero : byteAt (appendZeroPages .empty limits.min.toNat) = fun _ => 0 := by
        funext i
        rw [byteAt_appendZeroPages, byteAt_of_size_le (Nat.zero_le i)]
      simp only [hmemory, Option.map_some, hzero, size_appendZeroPages, ByteArray.size_empty,
        Nat.zero_add]
  · intro hnone
    rw [hnone] at hmemory
    exact hmemory.1

/-- An instance is initialised if runs that fit were placed into an empty table and a memory. -/
theorem Instance.initialised_of_placed (inst : Instance H) {table : Option Table}
    {before : Option ByteArray} {functions : List (Nat × List UInt32)}
    {bytes : List (Nat × List UInt8)}
    (hempty : ∀ t, table = some t → ∀ slot < t.min, t.lookup slot = .error .uninitializedElement)
    (hfits : Fit functions (table.map (·.size)) ∧ Fit bytes (before.map (·.size)))
    (htable : inst.table = table.map (functions.foldl fun t run => Link.fillTable t run.1 run.2))
    (hmemory : s.bytesAt inst.memory =
      before.map (bytes.foldl fun bytes run => setBytes bytes run.1 run.2)) :
    inst.Initialised s (table.map (·.size)) functions
      (before.map fun bytes => (bytes.size, byteAt bytes)) bytes where
  table {n} hn := by
    obtain ⟨t, rfl, rfl⟩ := Option.map_eq_some_iff.1 hn
    refine ⟨_, htable, (Table.lookup_placeRuns hfits.1 0).1, fun slot hslot => ?_⟩
    rw [(Table.lookup_placeRuns hfits.1 slot).2, hempty t rfl slot (UInt32.lt_iff_toNat_lt.2 hslot)]
    cases lastPlaced functions slot.toNat <;> rfl
  memory {n old} hn := by
    obtain ⟨old, rfl, hpair⟩ := Option.map_eq_some_iff.1 hn
    cases hpair
    obtain ⟨p, memory, hplace, hat, hbytes⟩ := Store.bytesAt_eq_some.1 hmemory
    refine ⟨p, memory, hplace, hat, hbytes ▸ size_placeRuns _ _, fun i _ => ?_⟩
    rw [hbytes]
    exact byteAt_placeRuns hfits.2 i

/-- The segments of a module that is ready initialise its instance if they fit, and else there is
none. -/
theorem Link.build_initialises (host : Host H σ) (invoker : Invoker H σ) (fuel : Nat)
    (hvalid : m.Valid) (hchecked : m.Checked) (hstart : m.start = none)
    (hready : m.Ready resolver c s l)
    (hgrounded : ∀ r, resolver = some r → r.Grounded s.memories.size) :
    let values := l.importedValues s
    let fits := Fit (m.elementRuns values) m.slots ∧
      Fit (m.dataRuns values) ((m.bytesBefore l s).map (·.1))
    Leads (build host invoker fuel m resolver (Engine.placeAllocator c s).1)
      ⟨(Engine.placeAllocator c s).2, { config := c }⟩
      (fun _ l' => fits ∧ (m.memories.getD [] = [] → l'.inst.memory = l.inst.memory) ∧
        l'.inst.Initialised l'.store m.slots (m.elementRuns values) (m.bytesBefore l s)
          (m.dataRuns values))
      fun _ _ => ¬ fits := by
  intro values fits
  -- The first three stages go together, as they only prepare what the segments are written to.
  have hbuild : build host invoker fuel m resolver (Engine.placeAllocator c s).1 = (do
      (do
        bindDefinitions m resolver
        declareMemory (Engine.placeAllocator c s).1 m
        declareTable m)
      placeSegments m
      modifyInstance ({ · with exports := m.exports.getD [] })
      runStart host invoker fuel m) := by
    rw [build_eq]
    simp only [bind_assoc]
  rw [hbuild]
  refine ((prepare_leads hvalid hchecked hready hgrounded).weaken (fun _ _ h => h)
    fun _ _ h => h.elim).bind fun _ l₁ hl₁ => ?_
  obtain ⟨more, hvalues⟩ := hl₁.values
  have hslots : m.slots = l₁.inst.table.map (·.size) := by
    rw [hl₁.table_eq, Module.slots, Module.emptyTable, Option.map_map]
    rfl
  have hsizes : (m.bytesBefore l s).map (·.1) =
      (l₁.store.bytesAt l₁.inst.memory).map (·.size) := by
    rw [hl₁.bytes, Option.map_map]
    rfl
  have hempty (t : Table) (ht : l₁.inst.table = some t) (slot : UInt32) (hslot : slot < t.min) :
      t.lookup slot = .error .uninitializedElement := by
    obtain ⟨declared, -, rfl⟩ := Option.map_eq_some_iff.1 (hl₁.table_eq.symm.trans ht)
    exact Table.lookup_new hslot
  simp only [fits, hslots, hsizes]
  refine (placeSegments_places hvalid hchecked (hready.linked hvalid hgrounded).supply hvalues).bind
    ?_
  rintro _ l₂ ⟨hfits, hmemory, htable, hbytes⟩
  have hdone := l₂.inst.initialised_of_placed hempty hfits htable hbytes
  rw [← hl₁.bytes] at hdone
  unfold runStart
  rw [hstart]
  exact ⟨hfits, fun hnone => hmemory.trans (hl₁.memory_eq hnone), hdone.table, hdone.memory⟩

end

/-- Instantiating a module adds the instance that was built, if it was. -/
theorem Engine.instantiate_leads {host : Host H σ} {fuel nesting : Nat} {m : Module}
    {resolver : Option (Resolver H σ)} {config accepted : Config} {s : Store H σ}
    (haccepted : config.check = .ok accepted) {P : Linking H σ → Prop} {Q : Prop}
    (hbuild : Leads (Link.build host (invoke host fuel nesting) fuel m resolver
      (placeAllocator accepted s).1) ⟨(placeAllocator accepted s).2, { config := accepted }⟩
      (fun _ l => P l) fun _ _ => Q) :
    Leads (instantiate host fuel nesting m resolver config) s
      (fun p s' => ∃ l, P l ∧ s'.instances[p]? = some l.inst ∧ s'.memories = l.store.memories)
      fun _ _ => Q := by
  unfold Leads at hbuild
  unfold Leads instantiate
  simp only [haccepted]
  cases hresult : Link.build host (invoke host fuel nesting) fuel m resolver
      (placeAllocator accepted s).1 ⟨(placeAllocator accepted s).2, { config := accepted }⟩ with
  | ok _ l =>
    rw [hresult] at hbuild
    exact ⟨l, hbuild, by simp [Store.addInstance], by simp [Store.addInstance]⟩
  | error e l =>
    rw [hresult] at hbuild
    cases e <;> exact hbuild

/-- Instantiating a loaded module without a start function, whose imports resolve and whose memory
can be allocated, succeeds exactly if every segment ends inside the table or the memory that it is
placed into. A segment begins at the unsigned value of its offset, which it always has. Then each
slot holds the function of the last element segment that covers it, or nothing, and each byte is
that of the last data segment that covers it, or what it was before. -/
theorem segments_initialise (host : Host H σ) (fuel nesting : Nat) {m : Module} (hloaded : m.Loaded)
    (hstart : m.start = none) {resolver : Option (Resolver H σ)} {config accepted : Config}
    (haccepted : config.check = .ok accepted) {s : Store H σ} {l : Linking H σ}
    (hgrounded : ∀ r, resolver = some r → r.Grounded s.memories.size)
    (hready : m.Ready resolver accepted s l) :
    let values := l.importedValues s
    (∀ expr ∈ (m.elements.getD []).map (·.offset) ++ (m.data.getD []).map (·.offset),
      ∃ v, ConstExpr.eval values expr = .ok v ∧ v.type = .i32) ∧
    ((∃ p s', Engine.instantiate host fuel nesting m resolver config s = .ok p s') ↔
      Fit (m.elementRuns values) m.slots ∧
      Fit (m.dataRuns values) ((m.bytesBefore l s).map (·.1))) ∧
    ∀ p s', Engine.instantiate host fuel nesting m resolver config s = .ok p s' →
      ∃ inst, s'.instances[p]? = some inst ∧
        (m.memories.getD [] = [] → inst.memory = l.inst.memory) ∧
        inst.Initialised s' m.slots (m.elementRuns values) (m.bytesBefore l s)
        (m.dataRuns values) := by
  obtain ⟨bytes, ending, hload⟩ := hloaded
  have hvalid := Module.valid_of_load hload
  have hchecked := Module.checked_of_load hload
  have hsupply : ConstExpr.Supply (l.importedValues s) m.importedGlobals :=
    (hready.linked hvalid hgrounded).supply
  have hoffset {expr : List UInt8}
      (hcheck : Module.checkConst m.importedGlobals .i32 expr = .ok ()) :=
    Module.eval_of_checkConst hvalid.plain.importedGlobals ⟨.i32, rfl⟩ hcheck hsupply
  have hbuild := Link.build_initialises host (Engine.invoke host fuel nesting) fuel hvalid hchecked
    hstart hready hgrounded
  refine ⟨fun expr hexpr => ?_, ?_⟩
  · simp only [List.mem_append, List.mem_map] at hexpr
    obtain ⟨segment, hsegment, rfl⟩ | ⟨segment, hsegment, rfl⟩ := hexpr
    · exact hoffset (hchecked.elements segment hsegment)
    · exact hoffset (hchecked.data segment hsegment)
  · have hresult := Engine.instantiate_leads haccepted hbuild
    unfold Leads at hresult
    cases hinstance : Engine.instantiate host fuel nesting m resolver config s with
    | ok p s' =>
      rw [hinstance] at hresult
      obtain ⟨l', ⟨hfits, hmemory, hdone⟩, hat, hmemories⟩ := hresult
      refine ⟨⟨fun _ => hfits, fun _ => ⟨p, s', rfl⟩⟩, ?_⟩
      rintro _ _ ⟨⟩
      exact ⟨l'.inst, hat, hmemory, hdone.table, hmemories ▸ hdone.memory⟩
    | error e s' =>
      rw [hinstance] at hresult
      exact ⟨⟨nofun, fun hfits => (hresult hfits).elim⟩, nofun⟩

/-- A module whose segments overlap: functions in two of three slots, four bytes, and nothing at the
end of its memory. -/
def overlapping : List UInt8 :=
  [0, 0x61, 0x73, 0x6d, 1, 0, 0, 0, 1, 4, 1, 0x60, 0, 0, 2, 8, 1, 1, 0x65, 1, 0x67, 3, 0x7f, 0,
    3, 3, 2, 0, 0, 4, 4, 1, 0x70, 0, 3, 5, 3, 1, 0, 1,
    9, 14, 2, 0, 0x41, 0, 0x0b, 2, 0, 0, 0, 0x23, 0, 0x0b, 1, 1,
    10, 7, 2, 2, 0, 0x0b, 2, 0, 0x0b,
    11, 22, 3, 0, 0x41, 3, 0x0b, 3, 1, 2, 3, 0, 0x41, 4, 0x0b, 1, 0x2a, 0, 0x41, 0x80,
    0x80, 4, 0x0b, 0]

/-- Bindings of the first global of a store. -/
def firstGlobal : Bindings Unit := { globals := [("e.g", 0)] }

/-- A store with a global that holds one. -/
def holdingOne : Store Unit Unit := { globals := #[⟨⟨.i32, false⟩, 1⟩], host := () }

/-- The module is ready in that store, and its second element segment begins where the global
says. -/
theorem exists_overlapping :
    ∃ (m : Module) (accepted : Config) (l : Linking Unit Unit),
      Module.load overlapping .eof = .ok m ∧ Config.check {} = .ok accepted ∧
      m.Ready (some firstGlobal.resolver) accepted holdingOne l ∧ m.start = none ∧
      m.slots = some 3 ∧
      m.memories = some [{ min := 1 }] ∧
      m.elementRuns (l.importedValues holdingOne) = [(0, [0, 0]), (1, [1])] ∧
      m.dataRuns (l.importedValues holdingOne) = [(3, [1, 2, 3]), (4, [0x2a]), (65536, [])] := by
  have hruns : ((Module.load overlapping .eof).toOption.any fun m =>
      (Config.check {}).toOption.any fun c =>
        (succeeded (Link.linkImports m (some firstGlobal.resolver)
          ⟨(Engine.placeAllocator c holdingOne).2, { config := c }⟩)).any fun linked =>
          m.start == none && m.slots == some 3 && m.memories == some [{ min := 1 }] &&
          m.elementRuns (linked.2.importedValues holdingOne) == [(0, [0, 0]), (1, [1])] &&
          m.dataRuns (linked.2.importedValues holdingOne) ==
            [(3, [1, 2, 3]), (4, [0x2a]), (65536, [])] &&
          (succeeded (Memory.new { min := 1 } (Engine.placeAllocator c holdingOne).1
            c.maxMemoryPages ((Engine.placeAllocator c holdingOne).2.allocators[
              (Engine.placeAllocator c holdingOne).1]?.getD {}))).isSome) = true := by
              decide +kernel
  obtain ⟨m, hload, hruns⟩ := (Option.any_eq_true _ _).mp hruns
  obtain ⟨c, hcheck, hruns⟩ := (Option.any_eq_true _ _).mp hruns
  obtain ⟨⟨_, l⟩, hlink, hruns⟩ := (Option.any_eq_true _ _).mp hruns
  simp only [Bool.and_eq_true, beq_iff_eq, Option.isSome_iff_exists, succeeded_eq_some,
    Prod.exists] at hruns
  obtain ⟨⟨⟨⟨⟨hstart, hslots⟩, hmemories⟩, helements⟩, hdata⟩, hmemory⟩ := hruns
  refine ⟨m, c, l, except_toOption_eq_some.mp hload, except_toOption_eq_some.mp hcheck,
    ⟨succeeded_eq_some.mp hlink, fun limits hlimits => ?_⟩, hstart, hslots, hmemories,
    helements, hdata⟩
  rw [hmemories, Option.getD_some, List.mem_singleton] at hlimits
  exact hlimits ▸ hmemory

/-- Segments that overlap, at an offset that an imported global gives. -/
theorem segments_initialise_overlapping :
    ∃ (m : Module) (accepted : Config) (l : Linking Unit Unit), m.Loaded ∧ m.start = none ∧
      Config.check {} = .ok accepted ∧
      (∀ r : Resolver Unit Unit, some firstGlobal.resolver = some r →
        r.Grounded holdingOne.memories.size) ∧
      m.Ready (some firstGlobal.resolver) accepted holdingOne l ∧
      ∃ p s' inst table bytes, Engine.instantiate growingHost 100 1 m (some firstGlobal.resolver) {}
          holdingOne = .ok p s' ∧
        s'.instances[p]? = some inst ∧ inst.table = some table ∧
        s'.bytesAt inst.memory = some bytes ∧
        [0, 1, 2].map table.lookup = [.ok 0, .ok 1, .error .uninitializedElement] ∧
        [2, 3, 4, 5, 6].map (byteAt bytes) = [0, 1, 0x2a, 3, 0] := by
  obtain ⟨m, accepted, l, hload, haccepted, hready, hstart, hslots, hmemories, helements, hdata⟩ :=
    exists_overlapping
  have hgrounded : ∀ r : Resolver Unit Unit, some firstGlobal.resolver = some r →
      r.Grounded holdingOne.memories.size := by
    rintro _ ⟨⟩
    exact Bindings.resolver_grounded nofun
  have hbefore : m.bytesBefore l holdingOne = some (65536, fun _ => 0) := by
    rw [Module.bytesBefore, hmemories]
    rfl
  have hall := segments_initialise growingHost 100 1 ⟨_, _, hload⟩ hstart haccepted hgrounded hready
  simp only [helements, hdata, hslots, hbefore] at hall
  obtain ⟨-, hfits, hdone⟩ := hall
  obtain ⟨p, s', hinstance⟩ := hfits.2 ⟨by simp [Fit], by simp [Fit]⟩
  obtain ⟨inst, hat, -, htable, hmemory⟩ := hdone p s' hinstance
  obtain ⟨table, htable, -, hlookup⟩ := htable rfl
  obtain ⟨q, found, hplace, hfound, -, hbytes⟩ := hmemory rfl
  have hbytesAt : s'.bytesAt inst.memory = some found.bytes :=
    Store.bytesAt_eq_some.2 ⟨q, found, hplace, hfound, rfl⟩
  refine ⟨m, accepted, l, ⟨_, _, hload⟩, hstart, haccepted, hgrounded, hready, p, s', inst, table,
    found.bytes, hinstance, hat, htable, hbytesAt, ?_, ?_⟩
  · simp only [List.map_cons, List.map_nil, hlookup 0 (by decide), hlookup 1 (by decide),
      hlookup 2 (by decide)]
    rfl
  · simp only [List.map_cons, List.map_nil, hbytes 2 (by decide), hbytes 3 (by decide),
      hbytes 4 (by decide), hbytes 5 (by decide), hbytes 6 (by decide)]
    rfl

end IntWasm
