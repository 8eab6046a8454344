import IntWasm.Host.Bindings
import IntWasm.Proofs.Config
import IntWasm.Proofs.Engine.Alike
import IntWasm.Proofs.Engine.Linking

/-!
# Instantiating with other settings

A module that is instantiated with two configurations that differ in the trace and in the limits of
the stacks only is linked to the same definitions and becomes the same instance, but for its
configuration. Main statement: `Engine.instantiate_alike`.
-/

namespace IntWasm

variable {H σ : Type}

/-- A resolver that finds the same in stores with instances that differ in their settings only. -/
structure Resolver.Blind (l : Leeway) (r : Resolver H σ) : Prop where
  function_eq : ∀ {s t : Store H σ}, s.Alike l t → r.function s = r.function t
  memory_eq : ∀ {s t : Store H σ}, s.Alike l t → r.memory s = r.memory t
  global_eq : ∀ {s t : Store H σ}, s.Alike l t → r.global s = r.global t

/-- The resolver of bindings does not look at the store. -/
theorem Bindings.resolver_blind (b : Bindings H) (l : Leeway) :
    (b.resolver : Resolver H σ).Blind l where
  function_eq _ := rfl
  memory_eq hst := by
    funext moduleName name limits
    simp only [resolver, memory, hst.memories_eq]
  global_eq hst := by
    funext moduleName name type
    simp only [resolver, global, hst.globals_eq]

/-- Two instances that differ in their settings only are being built in stores like this. -/
structure Linking.Alike (l : Leeway) (a b : Linking H σ) : Prop where
  store : a.store.Alike l b.store
  inst : a.inst.Alike l b.inst

/-- Two instances under construction differ in their settings only. -/
theorem Linking.Alike.cases {l : Leeway} {a b : Linking H σ} (hab : a.Alike l b) :
    ∃ s inst t config, a = ⟨s, inst⟩ ∧ b = ⟨t, { inst with config }⟩ ∧ s.Alike l t ∧
      inst.config.Alike l config := by
  obtain ⟨t, inst'⟩ := b
  refine ⟨a.store, a.inst, t, inst'.config, rfl, ?_, hab.store, hab.inst.config⟩
  rw [← hab.inst.eq]

/-- An error of the first instantiation that the second one may go past, because its stacks are
larger. -/
def Leeway.ExcusesStart (l : Leeway) (e : InstantiateError) : Prop :=
  l.larger ∧ ∃ trap, e = .link { cause := .start trap }

/-- Two steps of building an instance do the same, unless the first one is excused. -/
abbrev Link.Alike (l : Leeway) (x y : Link H σ Unit) : Prop :=
  TogetherUnless l.ExcusesStart (Linking.Alike l) Eq x y

namespace Link

variable {l : Leeway} {resolver : Option (Resolver H σ)}

/-- A function is imported into both, or refused for both. -/
theorem importFunction_alike {r : Resolver H σ} (hblind : r.Blind l) (i : Import) (index : UInt32) :
    Link.Alike l (importFunction r i index) (importFunction r i index) := by
  intro a b hab
  obtain ⟨s, inst, t, config, rfl, rfl, hst, hconfig⟩ := hab.cases
  rw [importFunction_eq, importFunction_eq]
  simp only [hblind.function_eq hst]
  cases inst.types[index.toNat]? with
  | none => exact .error _ hab
  | some type =>
    simp only
    cases r.function t i.moduleName i.field type with
    | error fault => exact .error _ hab
    | ok f =>
      simp only
      split
      · exact .ok rfl ⟨hst, rfl, hconfig⟩
      · exact .error _ hab

/-- A memory is imported into both, or refused for both. -/
theorem importMemory_alike {r : Resolver H σ} (hblind : r.Blind l) (i : Import) (limits : Limits) :
    Link.Alike l (importMemory r i limits) (importMemory r i limits) := by
  intro a b hab
  obtain ⟨s, inst, t, config, rfl, rfl, hst, hconfig⟩ := hab.cases
  rw [importMemory_eq, importMemory_eq]
  simp only [hblind.memory_eq hst, hst.memories_eq]
  cases r.memory t i.moduleName i.field limits with
  | error fault => exact .error _ hab
  | ok address =>
    simp only
    split
    · split
      · exact .error _ hab
      · exact .ok rfl ⟨{ hst with
          memories_eq := by simp only [Store.modifyMemory, hst.memories_eq] }, rfl, hconfig⟩
    · exact .error _ hab

/-- A global is imported into both, or refused for both. -/
theorem importGlobal_alike {r : Resolver H σ} (hblind : r.Blind l) (i : Import)
    (type : GlobalType) : Link.Alike l (importGlobal r i type) (importGlobal r i type) := by
  intro a b hab
  obtain ⟨s, inst, t, config, rfl, rfl, hst, hconfig⟩ := hab.cases
  rw [importGlobal_eq, importGlobal_eq]
  simp only [hblind.global_eq hst, hst.globals_eq]
  cases r.global t i.moduleName i.field type with
  | error fault => exact .error _ hab
  | ok address =>
    simp only
    cases t.globals[address]? with
    | none => exact .error _ hab
    | some g =>
      simp only
      split
      · exact .ok rfl ⟨hst, rfl, hconfig⟩
      · exact .error _ hab

/-- An import of whatever kind is bound in both, or refused for both. -/
theorem importEntry_alike (hblind : ∀ r, resolver = some r → r.Blind l) (i : Import) :
    Link.Alike l (importEntry resolver i) (importEntry resolver i) := by
  unfold importEntry
  cases resolver with
  | none => exact togetherUnless_throw _
  | some r =>
    have hr := hblind r rfl
    simp only
    cases i.type with
    | function index => exact importFunction_alike hr i index
    | memory limits => exact importMemory_alike hr i limits
    | global type => exact importGlobal_alike hr i type

/-- A step that does the same for both does so for every entry. -/
theorem forEachFrom_alike {α : Type} {step : Nat → α → Link H σ Unit}
    (hstep : ∀ i a, Link.Alike l (step i a) (step i a)) (i : Nat) (entries : List α) :
    Link.Alike l (forEachFrom step i entries) (forEachFrom step i entries) := by
  induction entries generalizing i with
  | nil => exact togetherUnless_pure rfl
  | cons a entries ih => exact (hstep i a).andThen fun _ => ih (i + 1)

/-- The globals of both have the same values. -/
theorem globalValues_alike :
    TogetherUnless l.ExcusesStart (Linking.Alike l) Eq (globalValues : Link H σ _)
      globalValues := by
  intro a b hab
  obtain ⟨s, inst, t, config, rfl, rfl, hst, hconfig⟩ := hab.cases
  exact .ok (by simp only [hst.globals_eq]) hab

/-- A global is defined in both, or refused for both. -/
theorem defineGlobal_alike (imported : List Value) (i : Nat) (g : GlobalDef) :
    Link.Alike l (defineGlobal imported i g : Link H σ Unit) (defineGlobal imported i g) := by
  intro a b hab
  obtain ⟨s, inst, t, config, rfl, rfl, hst, hconfig⟩ := hab.cases
  rw [defineGlobal_eq, defineGlobal_eq]
  simp only
  cases ConstExpr.eval imported g.init with
  | error fault => exact .error _ hab
  | ok v =>
    simp only [hst.globals_eq]
    split
    · exact .ok rfl ⟨{ hst with globals_eq := by simp only [Store.addGlobal, hst.globals_eq] }, rfl,
        hconfig⟩
    · exact .error _ hab

/-- A memory is allocated for both, or refused for both. -/
theorem allocateMemory_alike (allocator : Nat) (limits : Limits) :
    Link.Alike l (allocateMemory allocator limits : Link H σ Unit)
      (allocateMemory allocator limits) := by
  intro a b hab
  obtain ⟨s, inst, t, config, rfl, rfl, hst, hconfig⟩ := hab.cases
  have hpages : config.maxMemoryPages = inst.config.maxMemoryPages := by rw [hconfig.eq]
  simp only [allocateMemory, Store.newMemory, hpages, hst.allocators_eq]
  cases Memory.new limits allocator inst.config.maxMemoryPages
      (t.allocators[allocator]?.getD {}) with
  | error fault a =>
    exact .error _ ⟨{ hst with allocators_eq := rfl }, rfl, hconfig⟩
  | ok m a =>
    simp only [Store.addMemory, hst.memories_eq, hst.allocators_eq]
    exact .ok rfl ⟨{ hst with memories_eq := rfl, allocators_eq := rfl }, rfl, hconfig⟩

/-- Both instances change in the same way. -/
theorem modifyInstance_alike {f : Instance H → Instance H}
    (hf : ∀ inst inst' : Instance H, inst.Alike l inst' → (f inst).Alike l (f inst')) :
    Link.Alike l (modifyInstance f : Link H σ Unit) (modifyInstance f) :=
  fun _ _ hab => .ok rfl ⟨hab.store, hf _ _ hab.inst⟩

/-- Segments are placed in both, or refused for both. -/
theorem placeSegments_alike (m : Module) :
    Link.Alike l (placeSegments m : Link H σ Unit) (placeSegments m) := by
  intro a b hab
  obtain ⟨s, inst, t, config, rfl, rfl, hst, hconfig⟩ := hab.cases
  rw [placeSegments_eq, placeSegments_eq]
  simp only [hst.globals_eq, hst.memories_eq]
  split
  · exact .error _ hab
  · split
    · exact .error _ hab
    · refine .ok rfl ⟨?_, rfl, hconfig⟩
      cases inst.memory with
      | none => exact hst
      | some address =>
        exact { hst with memories_eq := by simp only [Store.modifyMemory, hst.memories_eq] }

/-- What does not depend on the instances is the same for both. -/
theorem lift_alike {α : Type} (r : Except InstantiateError α) :
    TogetherUnless l.ExcusesStart (Linking.Alike l) Eq (lift r : Link H σ α) (lift r) := by
  cases r with
  | ok a => exact togetherUnless_pure rfl
  | error e => exact togetherUnless_throw e

/-- Imports and globals are bound in both, or refused for both. -/
theorem bindDefinitions_alike (hblind : ∀ r, resolver = some r → r.Blind l) (m : Module) :
    Link.Alike l (bindDefinitions m resolver) (bindDefinitions m resolver) := by
  refine (lift_alike _).andThen fun _ =>
    (modifyInstance_alike fun _ _ hinst => ?_).andThen fun _ => ?_
  · exact ⟨by rw [hinst.eq], hinst.config⟩
  · exact (forEachFrom_alike (fun _ i => importEntry_alike hblind i) 0 _).andThen fun _ =>
      globalValues_alike.andThen fun _ =>
        forEachFrom_alike (fun _ _ => defineGlobal_alike _ _ _) 0 _

/-- Both get their memory, or are refused it. -/
theorem declareMemory_alike (allocator : Nat) (m : Module) :
    Link.Alike l (declareMemory allocator m : Link H σ Unit) (declareMemory allocator m) := by
  unfold declareMemory
  split
  · exact togetherUnless_pure rfl
  · exact allocateMemory_alike _ _

/-- Both get their table, or are refused it. -/
theorem declareTable_alike (m : Module) :
    Link.Alike l (declareTable m : Link H σ Unit) (declareTable m) := by
  unfold declareTable
  split
  · exact togetherUnless_pure rfl
  · exact modifyInstance_alike fun _ _ hinst => ⟨by rw [hinst.eq], hinst.config⟩

end Link

/-! ## The start function -/

section

variable {l : Leeway} {host : Host H σ} {v : Invoker H σ}

/-- The start function does the same for both, unless the stacks of the first one are too small. -/
theorem Link.start_alike (hhost : host.CallsAlike l v v) (hfilled : host.CallsAlike l.filled v v)
    (fuel : Nat) (function : UInt32) :
    Link.Alike l (start host v fuel function) (start host v fuel function) := by
  rintro ⟨s, inst⟩ ⟨t, inst'⟩ ⟨hst, hinst⟩
  simp only at hst hinst
  have hcalled := Instance.call_alike hinst hhost hfilled fuel function [] hst
  have hended (idle : Option UInt64) :
      Instance.Alike l { inst with idle } { inst' with idle } :=
    ⟨by rw [hinst.eq], hinst.config⟩
  show EndsAlikeUnless _ _ _ (start host v fuel function ⟨s, inst⟩)
    (start host v fuel function ⟨t, inst'⟩)
  unfold start
  simp only
  generalize inst.call host v fuel function [] s = left at hcalled ⊢
  generalize inst'.call host v fuel function [] t = right at hcalled ⊢
  obtain ⟨⟨outcome, slot⟩, s'⟩ := left
  obtain ⟨⟨outcome', slot'⟩, t'⟩ := right
  rcases hcalled with ⟨heq, hst'⟩ | ⟨e, ⟨_, _, -, ⟨hlarger, -⟩, -⟩, htrapped⟩
  · obtain ⟨rfl, rfl⟩ := Instance.CallEnd.mk.inj heq
    cases outcome with
    | ok words => exact .ok rfl ⟨hst', hended slot⟩
    | error e =>
      cases e with
      | trapped e => exact .error _ ⟨hst', hinst⟩
      | crashed c => exact .error _ ⟨hst', hinst⟩
      | refused r => exact .error _ ⟨hst', hinst⟩
  · simp only at htrapped
    subst htrapped
    exact EndsAlikeUnless.excused (e := InstantiateError.link { cause := .start e })
      ⟨hlarger, e, rfl⟩ _ _

/-- The same module is built in the same way. -/
theorem Link.build_alike (hhost : host.CallsAlike l v v) (hfilled : host.CallsAlike l.filled v v)
    {resolver : Option (Resolver H σ)} (hblind : ∀ r, resolver = some r → r.Blind l) (fuel : Nat)
    (m : Module) (allocator : Nat) :
    Link.Alike l (build host v fuel m resolver allocator)
      (build host v fuel m resolver allocator) := by
  rw [build_eq]
  refine (bindDefinitions_alike hblind m).andThen fun _ =>
      (declareMemory_alike _ m).andThen fun _ =>
    (declareTable_alike m).andThen fun _ => (placeSegments_alike m).andThen fun _ =>
      (modifyInstance_alike fun _ _ hinst => ?_).andThen fun _ => ?_
  · exact ⟨by rw [hinst.eq], hinst.config⟩
  unfold runStart
  cases m.start with
  | none => exact togetherUnless_pure rfl
  | some function => exact start_alike hhost hfilled fuel function

end

/-! ## Instantiating -/

section

variable {l : Leeway}

/-- Two configurations that differ in their settings only are both accepted or refused. -/
theorem Config.Alike.check {c c' : Config} (hconfig : c.Alike l c') :
    (∃ e, c.check = .error e ∧ c'.check = .error e) ∨
      ∃ d d', c.check = .ok d ∧ c'.check = .ok d' ∧ d.Alike l d' ∧ d.allocator = d'.allocator := by
  have hdescribed : c'.describedAllocator = c.describedAllocator := by
    rw [hconfig.eq]
    rfl
  have hallocator : c'.allocator = c.allocator := by rw [hconfig.eq]
  have hpages : c'.maxMemoryPages = c.maxMemoryPages := by rw [hconfig.eq]
  have hpositive : (c.maxCallDepth ≤ 0 ↔ c'.maxCallDepth ≤ 0) ∧
      (c.maxOperandStack ≤ 0 ↔ c'.maxOperandStack ≤ 0) ∧
      (c.maxControlDepth ≤ 0 ↔ c'.maxControlDepth ≤ 0) := by
    cases hconfig.limits with
    | same hcalls hoperands hcontrol => simp only [hcalls, hoperands, hcontrol, and_self]
    | larger => omega
  have halike (allocator : Option AllocatorChoice) :
      Config.Alike l { c with allocator } { c' with allocator } := by
    refine ⟨?_, ?_, hconfig.trace_eq⟩
    · rw [hconfig.eq]
    · cases hconfig.limits with
      | same hcalls hoperands hcontrol => exact .same hcalls hoperands hcontrol
      | larger hlarger hpositive hcalls hoperands hcontrol hfit =>
        exact .larger hlarger hpositive hcalls hoperands hcontrol hfit
  -- The check reads of the settings only whether they are positive, so it takes the same branch for
  -- both and differs in the allocator that it fills in.
  have hmap : c'.check = c.check.map fun d => { c' with allocator := d.allocator } := by
    unfold Config.check
    simp only [hpositive, hpages, hallocator, hdescribed]
    by_cases hcalls : c'.maxCallDepth ≤ 0
    · simp only [if_pos hcalls]
      rfl
    by_cases hoperands : c'.maxOperandStack ≤ 0
    · simp only [if_neg hcalls, if_pos hoperands]
      rfl
    by_cases hcontrol : c'.maxControlDepth ≤ 0
    · simp only [if_neg hcalls, if_neg hoperands, if_pos hcontrol]
      rfl
    by_cases hbounds : c.maxMemoryPages = 0 ∨ Memory.maxPages < c.maxMemoryPages
    · simp only [if_neg hcalls, if_neg hoperands, if_neg hcontrol, if_pos hbounds]
      rfl
    simp only [if_neg hcalls, if_neg hoperands, if_neg hcontrol, if_neg hbounds]
    cases hchosen : c.allocator with
    | some choice =>
      show Except.ok c' =
        Except.ok { c' with maxMemoryPages := c.maxMemoryPages, allocator := c.allocator }
      rw [← hpages, ← hallocator]
    | none => cases c.describedAllocator <;> rfl
  cases hcheck : c.check with
  | error e => exact .inl ⟨e, rfl, by rw [hmap, hcheck]; rfl⟩
  | ok d =>
    obtain ⟨-, choice, rfl, -⟩ := Config.check_eq_ok hcheck
    exact .inr ⟨_, { c' with allocator := some choice }, rfl, by rw [hmap, hcheck]; rfl,
      halike (some choice), rfl⟩

/-- Both get the same allocator. -/
theorem Engine.placeAllocator_alike {c c' : Config} (hallocator : c.allocator = c'.allocator)
    {s t : Store H σ} (hst : s.Alike l t) :
    (placeAllocator c s).1 = (placeAllocator c' t).1 ∧
      (placeAllocator c s).2.Alike l (placeAllocator c' t).2 := by
  have hadded (a : Allocator) : (s.addAllocator a).1 = (t.addAllocator a).1 ∧
      (s.addAllocator a).2.Alike l (t.addAllocator a).2 :=
    ⟨by simp only [Store.addAllocator, hst.allocators_eq],
      { hst with allocators_eq := by simp only [Store.addAllocator, hst.allocators_eq] }⟩
  unfold placeAllocator
  rw [hallocator]
  split
  · exact ⟨rfl, hst⟩
  · exact hadded _
  · exact hadded _

/-- Both instances get the same place. -/
theorem Store.Alike.addInstance {s t : Store H σ} (hst : s.Alike l t) {inst inst' : Instance H}
    (hinst : inst.Alike l inst') :
    (s.addInstance inst).1 = (t.addInstance inst').1 ∧
      (s.addInstance inst).2.Alike l (t.addInstance inst').2 := by
  refine ⟨hst.size_eq, { hst with
    size_eq := by simp [Store.addInstance, hst.size_eq]
    instances := fun i hs ht => ?_ }⟩
  simp only [Store.addInstance, Array.size_push] at hs ht
  simp only [Store.addInstance, Array.getElem_push, hst.size_eq]
  by_cases hi : i < t.instances.size
  · simp only [hi, dif_pos]
    exact hst.instances i (hst.size_eq ▸ hi) hi
  · simp only [hi, dif_neg, not_false_eq_true]
    exact hinst

/-- Both give the same memory back. -/
theorem Engine.release_alike {s t : Store H σ} (hst : s.Alike l t) {inst inst' : Instance H}
    (hinst : inst.Alike l inst') : (release inst s).Alike l (release inst' t) := by
  rw [hinst.eq]
  unfold release
  cases inst.memory with
  | none => exact hst
  | some place =>
    simp only
    split
    · simp only [Store.freeMemory, hst.memories_eq, hst.allocators_eq]
      exact { hst with memories_eq := rfl, allocators_eq := rfl }
    · exact { hst with memories_eq := by simp only [Store.modifyMemory, hst.memories_eq] }

/-- Instantiating a module with configurations that differ in their settings only ends alike, unless
the stacks of the first instance are too small for the start function. -/
theorem Engine.instantiate_alike {host : Host H σ} {fuel nesting : Nat}
    (hhost : host.CallsAlike l (invoke host fuel nesting) (invoke host fuel nesting))
    (hfilled : host.CallsAlike l.filled (invoke host fuel nesting) (invoke host fuel nesting))
    {resolver : Option (Resolver H σ)} (hblind : ∀ r, resolver = some r → r.Blind l) (m : Module)
    {c c' : Config} (hconfig : c.Alike l c') :
    TogetherUnless l.ExcusesStart (Store.Alike l) Eq (instantiate host fuel nesting m resolver c)
      (instantiate host fuel nesting m resolver c') := by
  intro s t hst
  unfold instantiate
  rcases hconfig.check with ⟨e, hc, hc'⟩ | ⟨d, d', hc, hc', hd, hallocator⟩
  · simp only [hc, hc']
    exact .error _ hst
  · simp only [hc, hc']
    obtain ⟨hplace, hst⟩ := placeAllocator_alike hallocator hst
    rw [hplace]
    generalize (placeAllocator d' t).1 = allocator
    generalize (placeAllocator d s).2 = s at hst ⊢
    generalize (placeAllocator d' t).2 = t at hst ⊢
    have hnew : Linking.Alike l ⟨s, { config := d }⟩ ⟨t, { config := d' }⟩ := ⟨hst, rfl, hd⟩
    have hbuilt := Link.build_alike hhost hfilled hblind fuel m allocator _ _ hnew
    rcases hbuilt.cases with ⟨_, _, a, b, hleft, hright, -, hab⟩ | ⟨e, a, b, hleft, hright, hab⟩ |
      ⟨e, a, hleft, hlarger, trap, rfl⟩
    · simp only [hleft, hright]
      obtain ⟨hplace, hadded⟩ := hab.store.addInstance hab.inst
      rw [hplace]
      exact .ok rfl (hadded.count hd _)
    · simp only [hleft, hright]
      cases e with
      | crashed c => exact .error _ hab.store
      | _ => exact .error _ ((release_alike hab.store hab.inst).count hd _)
    · simp only [hleft]
      exact EndsAlikeUnless.excused (e := InstantiateError.link { cause := .start trap })
        ⟨hlarger, trap, rfl⟩ _ _

end

end IntWasm
