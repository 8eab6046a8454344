import IntWasm.Proofs.Engine.Changes

/-!
# Twin runs

Two instances with the same code that see the same globals and the same memory cannot be told apart
by running them: the same invocation of both ends alike and leaves both seeing the same again, as
long as the functions of the embedder do the same to both. What the instances are called, where in
the store their globals and their memory are, and what traces are written does not matter. Nothing
else of an earlier run is left behind but a word in the result slot of the machine that waits for
the next one, and that word is seen only where a function of the embedder leaves its declared result
unwritten. Main statement: `Pair.invoke_together`.
-/

namespace IntWasm

variable {H σ : Type}

/-! ## What an instance sees -/

/-- A memory but for the place of its allocator and for its use. -/
def Memory.content (m : Memory) : Memory := { m with allocator := 0, attached := false }

/-- What an instance sees of a store: its globals, and its memory with the allocator it grows by. -/
structure Instance.View where
  globals : List (Option Global)
  memory : Option (Option (Memory × Option Allocator))

/-- What an instance sees of a store. -/
def Instance.view (inst : Instance H) (s : Store H σ) : Instance.View where
  globals := inst.globals.toList.map fun p => s.globals[p]?
  memory := inst.memory.map fun p =>
    (s.memories[p]?).map fun m => (m.content, s.allocators[m.allocator]?)

/-- Two instances, each at a place of a store of its own, and what is known to relate the states of
their embedders. -/
structure Pair (H σ : Type) where
  left : Instance H
  leftPlace : Nat
  right : Instance H
  rightPlace : Nat
  own : σ → σ → Prop

/-- The two instances have the same code and limits, and the same of their globals are one. -/
structure Pair.Twin (pair : Pair H σ) : Prop where
  types_eq : pair.left.types = pair.right.types
  imports_eq : pair.left.imports = pair.right.imports
  functions_eq : pair.left.functions = pair.right.functions
  table_eq : pair.left.table = pair.right.table
  exports_eq : pair.left.exports = pair.right.exports
  closed_eq : pair.left.closed = pair.right.closed
  operandStack_eq : pair.left.config.maxOperandStack = pair.right.config.maxOperandStack
  controlDepth_eq : pair.left.config.maxControlDepth = pair.right.config.maxControlDepth
  callDepth_eq : pair.left.config.maxCallDepth = pair.right.config.maxCallDepth
  globals_iff : ∀ i j : Nat, pair.left.globals[i]? = pair.left.globals[j]? ↔
    pair.right.globals[i]? = pair.right.globals[j]?

/-- A function of the embedder that succeeds has written the result that it declares. -/
def Host.Writes (host : Host H σ) : Prop :=
  ∀ invoker c written s s', host.call invoker c s = .ok written s' → c.type.results ≠ [] →
    written.isSome

/-- The two instances are at their places and see the same. Machines wait only where machines can be
made; what is in their result slots is the same, unless nothing can depend on it. -/
structure Pair.Match (pair : Pair H σ) (host : Host H σ) (s t : Store H σ) : Prop where
  own : pair.own s.host t.host
  view_eq : pair.left.view s = pair.right.view t
  idle : ∃ x y, s.instances[pair.leftPlace]? = some { pair.left with idle := x } ∧
    t.instances[pair.rightPlace]? = some { pair.right with idle := y } ∧
    (x.isSome → pair.left.config.stacksFit) ∧ (y.isSome → pair.right.config.stacksFit) ∧
    (host.Writes ∨ x.getD 0 = y.getD 0)

namespace Pair

variable {pair : Pair H σ} {host : Host H σ} {s t : Store H σ}

/-- Traces and counters do not matter. -/
theorem Match.observe (hmatch : pair.Match host s t) (traces traces' : Array Sink)
    (counters counters' : Counters) :
    pair.Match host { s with traces, counters }
      { t with traces := traces', counters := counters' } :=
  ⟨hmatch.own, hmatch.view_eq, hmatch.idle⟩

/-- Counters are not compared, so they may be changed on either side. -/
theorem Match.count (hmatch : pair.Match host s t) (config config' : Config)
    (f : Counters → Counters) : pair.Match host (s.count config f) (t.count config' f) := by
  have hcount (u : Store H σ) (c : Config) :
      ∃ counters, u.count c f = { u with counters } := by
    unfold Store.count
    split
    · exact ⟨_, rfl⟩
    · exact ⟨u.counters, rfl⟩
  obtain ⟨counters, hs⟩ := hcount s config
  obtain ⟨counters', ht⟩ := hcount t config'
  rw [hs, ht]
  exact hmatch.observe s.traces t.traces counters counters'

/-- What a global index holds is the same on both sides. -/
theorem Match.global_eq (hmatch : pair.Match host s t) (i : Nat) :
    (pair.left.globals[i]?).map (fun p => s.globals[p]?) =
      (pair.right.globals[i]?).map fun p => t.globals[p]? := by
  have hglobals := congrArg (fun view => view.globals[i]?) hmatch.view_eq
  simpa [Instance.view] using hglobals

/-- The memories of the two instances have the same content, and their allocators are the same. -/
theorem Match.memory_eq (hmatch : pair.Match host s t) :
    (pair.left.memory.map fun p =>
        (s.memories[p]?).map fun m => (m.content, s.allocators[m.allocator]?)) =
      pair.right.memory.map fun p =>
        (t.memories[p]?).map fun m => (m.content, t.allocators[m.allocator]?) :=
  congrArg Instance.View.memory hmatch.view_eq

/-- Globals that both instances find, or neither. -/
theorem Match.globals (hmatch : pair.Match host s t) (i : Nat) :
    (pair.left.globals[i]? = none ∧ pair.right.globals[i]? = none) ∨
      ∃ p q, pair.left.globals[i]? = some p ∧ pair.right.globals[i]? = some q ∧
        s.globals[p]? = t.globals[q]? := by
  have hsame := hmatch.global_eq i
  cases hp : pair.left.globals[i]? with
  | none =>
    cases hq : pair.right.globals[i]? with
    | none => exact .inl ⟨rfl, rfl⟩
    | some q => simp [hp, hq] at hsame
  | some p =>
    cases hq : pair.right.globals[i]? with
    | none => simp [hp, hq] at hsame
    | some q =>
      rw [hp, hq] at hsame
      exact .inr ⟨p, q, rfl, rfl, by simpa using hsame⟩

/-- The memories at two places of two stores are the same, with the same allocator, or there are
none. -/
inductive SameMemory (s t : Store H σ) (p q : Nat) : Prop
  | missing (hp : s.memories[p]? = none) (hq : t.memories[q]? = none)
  | found {m n : Memory} (hp : s.memories[p]? = some m) (hq : t.memories[q]? = some n)
      (hcontent : m.content = n.content)
      (hallocator : s.allocators[m.allocator]? = t.allocators[n.allocator]?)

/-- Memories that both instances have, or neither. -/
theorem Match.memory (hmatch : pair.Match host s t) :
    (pair.left.memory = none ∧ pair.right.memory = none) ∨
      ∃ p q, pair.left.memory = some p ∧ pair.right.memory = some q ∧ SameMemory s t p q := by
  have hsame := hmatch.memory_eq
  cases hp : pair.left.memory with
  | none =>
    cases hq : pair.right.memory with
    | none => exact .inl ⟨rfl, rfl⟩
    | some q => simp [hp, hq] at hsame
  | some p =>
    cases hq : pair.right.memory with
    | none => simp [hp, hq] at hsame
    | some q =>
      refine .inr ⟨p, q, rfl, rfl, ?_⟩
      simp only [hp, hq, Option.map_some, Option.some.injEq] at hsame
      cases hm : s.memories[p]? with
      | none =>
        cases hn : t.memories[q]? with
        | none => exact .missing hm hn
        | some n => simp [hm, hn] at hsame
      | some m =>
        cases hn : t.memories[q]? with
        | none => simp [hm, hn] at hsame
        | some n =>
          simp only [hm, hn, Option.map_some, Option.some.injEq, Prod.mk.injEq] at hsame
          exact .found hm hn hsame.1 hsame.2

/-- The same value for a global that both instances find. -/
theorem Match.setGlobal (htwin : pair.Twin) (hmatch : pair.Match host s t) {i p q : Nat}
    {g g' h : Global} (hp : pair.left.globals[i]? = some p) (hq : pair.right.globals[i]? = some q)
    (hs : s.globals[p]? = some g) (ht : t.globals[q]? = some h) :
    pair.Match host { s with globals := s.globals.setIfInBounds p g' }
      { t with globals := t.globals.setIfInBounds q g' } := by
  refine ⟨hmatch.own, ?_, hmatch.idle⟩
  have hps := (Array.getElem?_eq_some_iff.1 hs).1
  have hqt := (Array.getElem?_eq_some_iff.1 ht).1
  have hmemory := congrArg Instance.View.memory hmatch.view_eq
  simp only [Instance.view] at hmemory
  simp only [Instance.view, hmemory, Instance.View.mk.injEq, and_true]
  refine List.ext_getElem? fun j => ?_
  simp only [List.getElem?_map, Array.getElem?_toList]
  have hiff := htwin.globals_iff i j
  rw [hp, hq] at hiff
  rcases hmatch.globals j with ⟨hp', hq'⟩ | ⟨p', q', hp', hq', hsame⟩
  · rw [hp', hq']
    rfl
  · rw [hp', hq', Option.some.injEq, Option.some.injEq] at hiff
    simp only [hp', hq', Option.map_some, Option.some.injEq]
    by_cases heq : p = p'
    · obtain rfl := heq
      obtain rfl := hiff.mp rfl
      rw [Array.getElem?_setIfInBounds_self_of_lt hps, Array.getElem?_setIfInBounds_self_of_lt hqt]
    · rw [Array.getElem?_setIfInBounds_ne heq,
        Array.getElem?_setIfInBounds_ne fun hqq => heq (hiff.mpr hqq), hsame]

/-- Both memories change in the same way. -/
theorem Match.of_memory (hmatch : pair.Match host s t) {s' t' : Store H σ} {p q : Nat}
    {m n : Memory} (hp : pair.left.memory = some p) (hq : pair.right.memory = some q)
    (hs : s'.globals = s.globals ∧ s'.instances = s.instances ∧ s'.host = s.host)
    (ht : t'.globals = t.globals ∧ t'.instances = t.instances ∧ t'.host = t.host)
    (hm : s'.memories[p]? = some m) (hn : t'.memories[q]? = some n)
    (hcontent : m.content = n.content)
    (hallocator : s'.allocators[m.allocator]? = t'.allocators[n.allocator]?) :
    pair.Match host s' t' := by
  refine ⟨by rw [hs.2.2, ht.2.2]; exact hmatch.own, ?_, by rw [hs.2.1, ht.2.1]; exact hmatch.idle⟩
  have hglobals := congrArg Instance.View.globals hmatch.view_eq
  simp only [Instance.view] at hglobals
  simp only [Instance.view, hs.1, ht.1, hglobals, hp, hq, Option.map_some, hm, hn,
    hcontent, hallocator]

end Pair

/-! ## Instructions -/

/-- The content of a memory includes its bytes. -/
theorem Memory.bytes_eq_of_content {m n : Memory} (hcontent : m.content = n.content) :
    m.bytes = n.bytes := by
  have hbytes := congrArg (fun m => m.bytes) hcontent
  exact hbytes

/-- A memory grows as its content does. -/
theorem Memory.grow_content (m : Memory) (pages : UInt32) (a : Allocator) :
    m.content.grow pages a =
      match m.grow pages a with
      | .ok grown a => .ok grown.content a
      | .error e a => .error e a := by
  have hadmits (n : Nat) : m.content.admits n = m.admits n := rfl
  have hsize : m.content.size = m.size := rfl
  have hbytes : m.content.bytes = m.bytes := rfl
  simp only [grow, hadmits, hsize, hbytes]
  cases m.admits (m.size.toNat + pages.toNat) with
  | false => rfl
  | true =>
    by_cases hnone : pages = 0
    · simp [hnone]
    · simp only [hnone]
      cases Allocator.reallocate m.bytes (m.size + pages) a <;> rfl

/-- A memory that has grown has the allocator that it had. -/
theorem Memory.allocator_of_grow {m m' : Memory} {pages : UInt32} {a a' : Allocator}
    (hgrow : m.grow pages a = .ok m' a') : m'.allocator = m.allocator := by
  unfold grow at hgrow
  split at hgrow
  · cases hgrow
  · split at hgrow
    · obtain ⟨rfl, -⟩ := EStateM.Result.ok.inj hgrow
      rfl
    · split at hgrow
      · obtain ⟨rfl, -⟩ := EStateM.Result.ok.inj hgrow
        rfl
      · cases hgrow

section

variable {pair : Pair H σ} {host : Host H σ}

/-- What does not depend on the state ends alike. -/
theorem Exec.lift_together {α : Type} (r : Except Stop α) :
    Together (pair.Match host) Eq (Exec.lift r) (Exec.lift r) := by
  intro s t hst
  cases r with
  | ok a => exact ⟨rfl, hst⟩
  | error e => exact ⟨rfl, hst⟩

/-- Twins read the same value from a global. -/
theorem Exec.getGlobal_together (i : UInt32) :
    Together (pair.Match host) Eq (Exec.getGlobal pair.left i) (Exec.getGlobal pair.right i) := by
  intro s t hst
  unfold Exec.getGlobal
  rcases hst.globals i.toNat with ⟨hp, hq⟩ | ⟨p, q, hp, hq, hsame⟩
  · rw [hp, hq]
    exact ⟨rfl, hst⟩
  · rw [hp, hq, Option.bind_some, Option.bind_some, hsame]
    cases t.globals[q]? with
    | none => exact ⟨rfl, hst⟩
    | some g => exact ⟨rfl, hst⟩

/-- Twins write the same global, or fail alike. -/
theorem Exec.setGlobal_together (htwin : pair.Twin) (i : UInt32) (v : UInt64) :
    Together (pair.Match host) Eq (Exec.setGlobal pair.left i v)
      (Exec.setGlobal pair.right i v) := by
  intro s t hst
  unfold Exec.setGlobal
  rcases hst.globals i.toNat with ⟨hp, hq⟩ | ⟨p, q, hp, hq, hsame⟩
  · simp only [hp, hq]
    exact ⟨rfl, hst⟩
  · simp only [hp, hq, hsame]
    cases hglobal : t.globals[q]? with
    | none => exact ⟨rfl, hst⟩
    | some g =>
      simp only
      cases hset : g.set? v with
      | none => exact ⟨rfl, hst⟩
      | some g' => exact ⟨rfl, hst.setGlobal htwin hp hq (hsame.trans hglobal) hglobal⟩

/-- Computations on the memories of both instances. -/
theorem Exec.memory_together {α β : Type} {V : α → β → Prop} {f : Nat → Exec H σ α}
    {g : Nat → Exec H σ β} (hnext : ∀ p q s t, pair.Match host s t → pair.left.memory = some p →
      pair.right.memory = some q → Pair.SameMemory s t p q →
      EndsAlike (pair.Match host) V (f p s) (g q t)) :
    Together (pair.Match host) V (Exec.memory pair.left >>= f) (Exec.memory pair.right >>= g) := by
  intro s t hst
  simp only [Exec.memory, bind, EStateM.bind]
  rcases hst.memory with ⟨hp, hq⟩ | ⟨p, q, hp, hq, hsame⟩
  · simp only [hp, hq]
    exact ⟨rfl, hst⟩
  · simp only [hp, hq]
    exact hnext p q s t hst hp hq hsame

/-- Twins load the same bytes, or trap alike. -/
theorem Exec.load_together (base offset : UInt32) (width : Nat) :
    Together (pair.Match host) Eq (Exec.load pair.left base offset width)
      (Exec.load pair.right base offset width) := by
  refine Exec.memory_together fun p q s t hst hp hq hsame => ?_
  cases hsame with
  | missing hm hn =>
    simp only [hm, hn]
    exact ⟨rfl, hst⟩
  | @found m n hm hn hcontent _ =>
    have hload : m.load base offset width = n.load base offset width := by
      simp only [Memory.load, Memory.address, Memory.bytes_eq_of_content hcontent]
    simp only [hm, hn, hload]
    cases n.load base offset width with
    | ok w => exact ⟨rfl, hst⟩
    | error trap => exact ⟨rfl, hst⟩

/-- Twins store the same bytes, or trap alike. -/
theorem Exec.store_together (base offset : UInt32) (width : Nat) (w : UInt64) :
    Together (pair.Match host) Eq (Exec.store pair.left base offset width w)
      (Exec.store pair.right base offset width w) := by
  refine Exec.memory_together fun p q s t hst hp hq hsame => ?_
  cases hsame with
  | missing hm hn =>
    simp only [hm, hn]
    exact ⟨rfl, hst⟩
  | @found m n hm hn hcontent hallocator =>
    have haddress : m.address base offset width = n.address base offset width := by
      simp only [Memory.address, Memory.bytes_eq_of_content hcontent]
    simp only [hm, hn, haddress]
    cases n.address base offset width with
    | error trap => exact ⟨rfl, hst⟩
    | ok start =>
      refine ⟨rfl, hst.of_memory hp hq ⟨rfl, rfl, rfl⟩ ⟨rfl, rfl, rfl⟩
        (m := { m with bytes := storeWord m.bytes start w width })
        (n := { n with bytes := storeWord n.bytes start w width }) ?_ ?_ ?_ hallocator⟩
      · simp [Store.modifyMemory, Array.getElem?_modify, hm]
      · simp [Store.modifyMemory, Array.getElem?_modify, hn]
      · simp only [Memory.content, Memory.mk.injEq, true_and, and_true] at hcontent ⊢
        exact ⟨hcontent.1, hcontent.2.1, by rw [hcontent.2.2]⟩

/-- The memories of twins have the same size. -/
theorem Exec.memorySize_together :
    Together (pair.Match host) Eq (Exec.memorySize pair.left) (Exec.memorySize pair.right) := by
  refine Exec.memory_together fun p q s t hst hp hq hsame => ?_
  cases hsame with
  | missing hm hn =>
    simp only [hm, hn]
    exact ⟨rfl, hst⟩
  | @found m n hm hn hcontent _ =>
    have hsize : m.size = n.size := by simp only [Memory.size, Memory.bytes_eq_of_content hcontent]
    simp only [hm, hn, hsize]
    exact ⟨rfl, hst⟩

/-- A memory that is not there does not grow. -/
theorem Store.growMemory_missing {s : Store H σ} {p : Nat} (hmissing : s.memories[p]? = none)
    (pages : UInt32) :
    Store.growMemory p pages s = if pages = 0 then .ok 0 s else .error .limitExceeded s := by
  have hkept {α : Type} (entries : Array α) (i : Nat) (a : α) :
      entries.setIfInBounds i (entries[i]?.getD a) = entries := by
    refine Array.ext_getElem? fun j => ?_
    rw [Array.getElem?_setIfInBounds]
    by_cases heq : i = j
    · obtain rfl := heq
      by_cases hlt : i < entries.size <;> simp [hlt]
    · rw [if_neg heq]
  have hempty : (default : Memory).grow pages
      (s.allocators[(default : Memory).allocator]?.getD {}) = if pages = 0
      then .ok default (s.allocators[(default : Memory).allocator]?.getD {})
      else .error .limitExceeded (s.allocators[(default : Memory).allocator]?.getD {}) := by
    have hadmits : (default : Memory).admits ((default : Memory).size.toNat + pages.toNat) =
        decide (pages = 0) := by
      have hzero : (default : Memory).size.toNat = 0 := rfl
      have hcap : (default : Memory).cap.toNat = 0 := rfl
      have hmax : (default : Memory).declared.hasMax = false := rfl
      simp [Memory.admits, hzero, hcap, hmax, ← UInt32.toNat_inj]
    simp only [Memory.grow, hadmits]
    by_cases hnone : pages = 0 <;> simp [hnone]
  have hmemories : s.memories.setIfInBounds p default = s.memories := by
    rw [← hkept s.memories p default, hmissing, Option.getD_none, Array.setIfInBounds_setIfInBounds]
  unfold Store.growMemory
  simp only [hmissing, Option.getD_none, hempty]
  by_cases hnone : pages = 0
  · simp only [if_pos hnone, hkept, hmemories]
    rfl
  · simp only [if_neg hnone, hkept]

/-- Both memories grow, or neither. -/
theorem Store.growMemory_together {s t : Store H σ} (hst : pair.Match host s t) {p q : Nat}
    (hp : pair.left.memory = some p) (hq : pair.right.memory = some q)
    (hsame : Pair.SameMemory s t p q) (pages : UInt32) :
    EndsAlike (pair.Match host) Eq (Store.growMemory p pages s) (Store.growMemory q pages t) := by
  cases hsame with
  | missing hm hn =>
    rw [Store.growMemory_missing hm, Store.growMemory_missing hn]
    by_cases hnone : pages = 0
    · simp only [if_pos hnone]
      exact ⟨rfl, hst⟩
    · simp only [if_neg hnone]
      exact ⟨rfl, hst⟩
  | @found m n hm hn hcontent hallocator =>
    have hsize : m.size = n.size := by simp only [Memory.size, Memory.bytes_eq_of_content hcontent]
    -- The allocators stand at different places, but what is written to both is read back alike.
    have hplace (a : Allocator) : (s.allocators.setIfInBounds m.allocator a)[m.allocator]? =
        (t.allocators.setIfInBounds n.allocator a)[n.allocator]? := by
      have hin : m.allocator < s.allocators.size ↔ n.allocator < t.allocators.size := by
        have hsome : s.allocators[m.allocator]?.isSome ↔ t.allocators[n.allocator]?.isSome := by
          rw [hallocator]
        simpa using hsome
      simp only [Array.getElem?_setIfInBounds_self, hin]
    have hleft := Memory.grow_content m pages (t.allocators[n.allocator]?.getD {})
    have hright := Memory.grow_content n pages (t.allocators[n.allocator]?.getD {})
    simp only [Store.growMemory, hm, hn, Option.getD_some, hallocator]
    rw [hcontent] at hleft
    cases hgrown : m.grow pages (t.allocators[n.allocator]?.getD {}) with
    | ok m' a =>
      cases hgrown' : n.grow pages (t.allocators[n.allocator]?.getD {}) with
      | error e a' => simp [hleft, hgrown, hgrown'] at hright
      | ok n' a' =>
        simp only [hleft, hgrown, hgrown', EStateM.Result.ok.injEq] at hright
        obtain ⟨hcontent', rfl⟩ := hright
        refine ⟨hsize, hst.of_memory hp hq ⟨rfl, rfl, rfl⟩ ⟨rfl, rfl, rfl⟩ (m := m') (n := n')
          ?_ ?_ hcontent' ?_⟩
        · exact Array.getElem?_setIfInBounds_self_of_lt (Array.getElem?_eq_some_iff.1 hm).1
        · exact Array.getElem?_setIfInBounds_self_of_lt (Array.getElem?_eq_some_iff.1 hn).1
        · rw [Memory.allocator_of_grow hgrown, Memory.allocator_of_grow hgrown']
          exact hplace a
    | error e a =>
      cases hgrown' : n.grow pages (t.allocators[n.allocator]?.getD {}) with
      | ok n' a' => simp [hleft, hgrown, hgrown'] at hright
      | error e' a' =>
        simp only [hleft, hgrown, hgrown', EStateM.Result.error.injEq] at hright
        obtain ⟨rfl, rfl⟩ := hright
        exact ⟨rfl, hst.of_memory hp hq ⟨rfl, rfl, rfl⟩ ⟨rfl, rfl, rfl⟩ hm hn hcontent (hplace a)⟩

/-- The memories of twins grow alike, as their allocators answer alike. -/
theorem Exec.memoryGrow_together (pages : UInt32) :
    Together (pair.Match host) Eq (Exec.memoryGrow pair.left pages)
      (Exec.memoryGrow pair.right pages) := by
  refine Exec.memory_together fun p q s t hst hp hq hsame => ?_
  rcases (Store.growMemory_together hst hp hq hsame pages).cases with
    ⟨before, _, s', t', hs, ht, rfl, hmatch⟩ | ⟨e, s', t', hs, ht, hmatch⟩
  · simp only [hs, ht]
    exact ⟨rfl, hmatch.count _ _ _⟩
  · simp only [hs, ht]
    exact ⟨rfl, hmatch.count _ _ _⟩

/-- A function index has the same signature on both sides. -/
theorem Pair.Twin.signature?_eq (htwin : pair.Twin) (function : UInt32) :
    pair.left.signature? function = pair.right.signature? function := by
  simp only [Instance.signature?, htwin.imports_eq, htwin.functions_eq]

/-- Twins find the same function in a slot of the table, or trap alike. -/
theorem Exec.indirect_together (htwin : pair.Twin) (slot type : UInt32) :
    Together (pair.Match host) Eq (Exec.indirect pair.left slot type)
      (Exec.indirect pair.right slot type) := by
  have hsame : (Exec.indirect pair.left slot type : Exec H σ UInt32) =
      Exec.indirect pair.right slot type := by
    simp only [Exec.indirect, htwin.table_eq, htwin.types_eq, htwin.signature?_eq]
  rw [hsame]
  unfold Exec.indirect
  cases pair.right.table with
  | none => exact together_throw _
  | some table =>
    simp only
    cases table.lookup slot with
    | error trap => exact together_throw _
    | ok function =>
      simp only
      cases pair.right.types[type.toNat]? with
      | none => exact together_throw _
      | some expected =>
        simp only
        cases pair.right.signature? function with
        | none => exact together_throw _
        | some actual =>
          by_cases hsame : actual = expected
          · simp only [if_pos hsame]
            exact together_pure rfl
          · simp only [if_neg hsame]
            exact together_throw _

/-- One instruction does the same to both. -/
theorem Activation.step_together (htwin : pair.Twin) (f : Activation) (i : Instruction) :
    Together (pair.Match host) Eq (Activation.step pair.left f i)
      (Activation.step pair.right f i) := by
  have hpure {α : Type} (a : α) :
      Together (pair.Match host) Eq (pure a : Exec H σ α) (pure a) := together_pure rfl
  rw [Activation.step, Activation.step]
  split
  · exact together_throw _
  · exact hpure _
  · exact (Exec.lift_together _).andThen fun _ =>
      (Exec.indirect_together htwin _ _).andThen fun _ => hpure _
  · exact (Exec.getGlobal_together _).andThen fun _ => Exec.lift_together _
  · exact (Exec.lift_together _).andThen fun _ =>
      (Exec.setGlobal_together htwin _ _).andThen fun _ => hpure _
  · exact (Exec.lift_together _).andThen fun _ =>
      (Exec.load_together _ _ _).andThen fun _ => Exec.lift_together _
  · exact (Exec.lift_together _).andThen fun _ =>
      (Exec.store_together _ _ _ _).andThen fun _ => hpure _
  · exact Exec.memorySize_together.andThen fun _ => Exec.lift_together _
  · exact (Exec.lift_together _).andThen fun _ =>
      (Exec.memoryGrow_together _).andThen fun _ => Exec.lift_together _
  · exact Exec.lift_together _

end

/-! ## States of machines -/

/-- What the thread does changes nothing of it but its depth and the failure that it has met. -/
def Thread.Sets (act : Thread → Sink → Thread × Sink) (depth : Int → Int) : Prop :=
  ∀ t out, ∃ fault, (act t out).1 = { t with depth := depth t.depth, fault }

section

/-- A function that is entered is one deeper. -/
theorem Thread.sets_opened (name : String) (function : UInt32) (type : FuncType) :
    Sets (·.opened name function type) (· + 1) :=
  fun t _ => Thread.emit_eq { t with depth := t.depth + 1 } _ _

/-- A function that is left is one higher. -/
theorem Thread.sets_leave : Sets Thread.leave (· - 1) :=
  fun t _ => Thread.emit_eq { t with depth := t.depth - 1 } _ _

/-- An instruction does not change the depth. -/
theorem Thread.sets_instruction (ip : Int) (i : Instruction) (height : Int) :
    Sets (·.instruction ip i height) id :=
  fun t _ => Thread.emit_eq t _ _

/-- A trap ends all functions. -/
theorem Thread.sets_trapped (trap : Trap) (ip : Int) : Sets (·.trapped trap ip) fun _ => 0 :=
  fun t _ => Thread.emit_eq { t with depth := 0 } _ _

/-- Closing a trace does not change the depth. -/
theorem Thread.sets_close : Sets Thread.close id := fun t _ => Thread.emit_eq t _ _

end

/-- The same activations with the same operands. -/
structure Machine.SameStacks (m n : Machine) : Prop where
  frames_eq : m.frames = n.frames
  outer_eq : m.outer = n.outer

namespace Machine.SameStacks

variable {m n : Machine}

/-- The operands are part of the stacks. -/
theorem operands_eq (hsame : m.SameStacks n) : m.operands = n.operands := by
  simp only [operands, hsame.frames_eq, hsame.outer_eq]

/-- So is the height of the running function. -/
theorem height_eq (hsame : m.SameStacks n) : m.height = n.height := by
  simp only [height, hsame.frames_eq, hsame.outer_eq]

/-- So is the number of open labels. -/
theorem labelCount_eq (hsame : m.SameStacks n) : m.labelCount = n.labelCount := by
  simp only [labelCount, hsame.frames_eq]

/-- So is the number of activations. -/
theorem depth_eq (hsame : m.SameStacks n) : m.depth = n.depth := by
  simp only [depth, hsame.frames_eq]

/-- So is the place that a stop is blamed on. -/
theorem place?_eq (hsame : m.SameStacks n) : m.place? = n.place? := by
  rw [Machine.place?, hsame.frames_eq, Machine.place?]

/-- Operands may be replaced on both sides. -/
theorem setOperands (hsame : m.SameStacks n) (operands : List UInt64) :
    (m.setOperands operands).SameStacks (n.setOperands operands) := by
  obtain ⟨frames, outer, slot⟩ := m
  obtain ⟨frames', outer', slot'⟩ := n
  obtain ⟨rfl, rfl⟩ := hsame
  cases frames <;> exact ⟨rfl, rfl⟩

/-- The activation on top may be taken away on both sides. -/
theorem below (hsame : m.SameStacks n) :
    Machine.SameStacks { m with frames := m.frames.tail } { n with frames := n.frames.tail } :=
  ⟨congrArg List.tail hsame.frames_eq, hsame.outer_eq⟩

/-- An activation may be put back on both sides. -/
theorem resume (hsame : m.SameStacks n) (f : Activation) : (m.resume f).SameStacks (n.resume f) :=
  ⟨congrArg (f :: ·) hsame.below.frames_eq, hsame.outer_eq⟩

/-- Results may be handed down on both sides. -/
theorem leave (hsame : m.SameStacks n) (results : List UInt64) :
    (m.leave results).SameStacks (n.leave results) := by
  unfold Machine.leave
  simp only [hsame.below.operands_eq]
  exact hsame.below.setOperands _

/-- Whether a function is admitted depends on the stacks and their limits. -/
theorem admits_eq (hsame : m.SameStacks n) {config config' : Config}
    (hoperands : config.maxOperandStack = config'.maxOperandStack)
    (hcontrol : config.maxControlDepth = config'.maxControlDepth)
    (hcalls : config.maxCallDepth = config'.maxCallDepth) (fn : Function) :
    m.admits config fn = n.admits config' fn := by
  simp only [admits, hsame.height_eq, hsame.labelCount_eq, hsame.depth_eq, hoperands,
    hcontrol, hcalls]

/-- A function that is entered finds the same stacks on both sides. -/
theorem enter (hsame : m.SameStacks n) {config config' : Config}
    (hoperands : config.maxOperandStack = config'.maxOperandStack) (fn : Function) :
    (m.enter config fn).SameStacks (n.enter config' fn) := by
  have hrest := hsame.setOperands (n.operands.drop fn.type.params.length)
  unfold Machine.enter
  simp only [hsame.operands_eq, hsame.height_eq, hsame.labelCount_eq, hsame.depth_eq, hoperands]
  exact ⟨by rw [hrest.frames_eq], hrest.outer_eq⟩

end Machine.SameStacks

/-- The result slot is not touched by a call. -/
theorem Machine.slot_enter (m : Machine) (config : Config) (fn : Function) :
    (m.enter config fn).slot = m.slot := by
  unfold enter setOperands
  simp only
  split <;> rfl

/-- The result slot is not touched by a return. -/
theorem Machine.slot_leave (m : Machine) (results : List UInt64) :
    (m.leave results).slot = m.slot :=
  Structured.slot_setOperands

/-- Two states of machines that run the two instances. -/
structure Pair.MatchState (pair : Pair H σ) (host : Host H σ) (s t : State H σ) : Prop where
  store : pair.Match host s.store t.store
  depth_eq : s.thread.depth = t.thread.depth
  maxDepth_eq : s.thread.maxDepth = t.thread.maxDepth
  memory_left : s.thread.memory = pair.left.memory
  memory_right : t.thread.memory = pair.right.memory
  same : s.machine.SameStacks t.machine
  slot : host.Writes ∨ s.machine.slot = t.machine.slot

/-- The same call of a function of the embedder by both instances. -/
structure Pair.SameCall (pair : Pair H σ) (c d : HostCall H) : Prop where
  code_eq : c.code = d.code
  type_eq : c.type = d.type
  args_eq : c.args = d.args
  depth_eq : c.depth = d.depth
  maxDepth_eq : c.maxDepth = d.maxDepth
  memory_left : c.memory = pair.left.memory
  memory_right : d.memory = pair.right.memory

/-- The machines of both instances do the same next. -/
inductive Pair.SameProgress (pair : Pair H σ) : Progress H → Progress H → Prop
  | done : SameProgress pair .done .done
  | more : SameProgress pair .more .more
  | host {c d : HostCall H} (hcall : pair.SameCall c d) : SameProgress pair (.host c) (.host d)

section

variable {pair : Pair H σ} {host : Host H σ} {s t : State H σ}

/-- Two notes that set the same depth may be written, even if their texts differ. -/
theorem Pair.MatchState.traced (hst : pair.MatchState host s t)
    {act act' : Thread → Sink → Thread × Sink} {depth : Int → Int} (hact : Thread.Sets act depth)
    (hact' : Thread.Sets act' depth) (config config' : Config) :
    pair.MatchState host (Run.traced config s act) (Run.traced config' t act') := by
  obtain ⟨traces, out, hs⟩ := Run.traced_eq config s act
  obtain ⟨traces', out', ht⟩ := Run.traced_eq config' t act'
  obtain ⟨fault, hleft⟩ := hact s.thread out
  obtain ⟨fault', hright⟩ := hact' t.thread out'
  rw [hs, ht, hleft, hright]
  exact ⟨hst.store.observe traces traces' s.store.counters t.store.counters,
    congrArg depth hst.depth_eq, hst.maxDepth_eq, hst.memory_left, hst.memory_right,
    hst.same, hst.slot⟩

/-- The machines change alike. -/
theorem Run.modify_together {f g : Machine → Machine}
    (hstacks : ∀ m n : Machine, m.SameStacks n → (f m).SameStacks (g n))
    (hslot : ∀ m, (f m).slot = m.slot) (hslot' : ∀ m, (g m).slot = m.slot) :
    Together (pair.MatchState host) Eq
      (modify fun s => { s with machine := f s.machine } : Run H σ Unit)
      (modify fun s => { s with machine := g s.machine } : Run H σ Unit) := by
  intro s t hst
  refine ⟨rfl, hst.store, hst.depth_eq, hst.maxDepth_eq, hst.memory_left, hst.memory_right,
    hstacks _ _ hst.same, ?_⟩
  rcases hst.slot with hwrites | hsame
  · exact .inl hwrites
  · exact .inr (by simp only [hslot, hslot', hsame])

/-- Opening a function's trace does nothing else. -/
theorem Run.openFunction_together (name name' : String) (function : UInt32) (type : FuncType) :
    Together (pair.MatchState host) Eq (Run.openFunction pair.left name function type)
      (Run.openFunction pair.right name' function type) := by
  intro s t hst
  have hfull : s.thread.isFull = t.thread.isFull := by
    simp only [Thread.isFull, hst.depth_eq, hst.maxDepth_eq]
  unfold Run.openFunction
  rw [hfull]
  cases t.thread.isFull with
  | true => exact ⟨rfl, hst⟩
  | false =>
    exact ⟨rfl, hst.traced (Thread.sets_opened _ _ _) (Thread.sets_opened _ _ _) _ _⟩

/-- Twins enter a function alike, or refuse it alike. -/
theorem Run.enterFunction_together (htwin : pair.Twin) (fn : Function) :
    Together (pair.MatchState host) Eq (Run.enterFunction pair.left fn)
      (Run.enterFunction pair.right fn) := by
  have hget : Together (pair.MatchState host) (pair.MatchState host)
      (get : Run H σ (State H σ)) get :=
    fun _ _ hst => ⟨hst, hst⟩
  have hrest : Together (pair.MatchState host) Eq (do
      Run.openFunction pair.left pair.left.name fn.index fn.type
      modify fun s => { s with machine := s.machine.enter pair.left.config fn } : Run H σ Unit) (do
      Run.openFunction pair.right pair.right.name fn.index fn.type
      modify fun s => { s with machine := s.machine.enter pair.right.config fn } : Run H σ Unit) :=
    (Run.openFunction_together _ _ _ _).andThen fun _ =>
      Run.modify_together (fun _ _ hsame => hsame.enter htwin.operandStack_eq fn)
        (fun _ => Machine.slot_enter _ _ _) fun _ => Machine.slot_enter _ _ _
  unfold Run.enterFunction
  refine hget.bind fun s t hst => ?_
  simp only [hst.same.admits_eq htwin.operandStack_eq htwin.controlDepth_eq htwin.callDepth_eq]
  cases t.machine.admits pair.right.config fn with
  | true => exact hrest
  | false => exact (together_throw _).andThen fun _ => hrest

/-- Twins hand the same call to the host. -/
theorem Run.beginHostCall_together (function : UInt32) (f : ImportedFunction H) :
    Together (pair.MatchState host) pair.SameCall (Run.beginHostCall pair.left function f)
      (Run.beginHostCall pair.right function f) := by
  unfold Run.beginHostCall
  refine (Run.openFunction_together _ _ _ _).andThen fun _ s t hst => ?_
  simp only [hst.same.operands_eq]
  by_cases hrange : t.machine.operands.length < f.type.params.length ∨ 1 < f.type.results.length
  · simp only [if_pos hrange]
    exact ⟨rfl, hst⟩
  · simp only [if_neg hrange]
    exact ⟨⟨rfl, rfl, rfl, hst.depth_eq, hst.maxDepth_eq, hst.memory_left, hst.memory_right⟩, hst⟩

/-- Twins call the same function, of a module or of the host. -/
theorem Run.call_together (htwin : pair.Twin) (function : UInt32) :
    Together (pair.MatchState host) pair.SameProgress (Run.call pair.left function)
      (Run.call pair.right function) := by
  unfold Run.call
  rw [htwin.imports_eq, htwin.functions_eq]
  cases pair.right.imports[function.toNat]? with
  | some f =>
    exact (Run.beginHostCall_together _ _).bind fun _ _ hcall => together_pure (.host hcall)
  | none =>
    simp only
    cases pair.right.functions[function.toNat - pair.right.imports.size]? with
    | some fn =>
      exact (Run.enterFunction_together htwin _).andThen fun _ => together_pure .more
    | none => exact fun _ _ hst => ⟨rfl, hst⟩

/-- Whatever an instruction says comes next, twins do alike. -/
theorem Run.follow_together (htwin : pair.Twin) (next : Next) :
    Together (pair.MatchState host) pair.SameProgress (Run.follow pair.left next)
      (Run.follow pair.right next) := by
  have hresume (f : Activation) : Together (pair.MatchState host) Eq
      (modify fun s => { s with machine := s.machine.resume f } : Run H σ Unit)
      (modify fun s => { s with machine := s.machine.resume f }) :=
    Run.modify_together (fun _ _ hsame => hsame.resume f) (fun _ => rfl) fun _ => rfl
  cases next with
  | go f => exact (hresume f).andThen fun _ => together_pure .more
  | leave results =>
    have hleave : Together (pair.MatchState host) Eq
        (modify fun s => { s with machine := s.machine.leave results } : Run H σ Unit)
        (modify fun s => { s with machine := s.machine.leave results }) :=
      Run.modify_together (fun _ _ hsame => hsame.leave results) (fun _ => Machine.slot_leave _ _)
        fun _ => Machine.slot_leave _ _
    refine hleave.andThen fun _ => Together.andThen (fun s t hst => ?_) fun _ => together_pure .more
    exact ⟨rfl, hst.traced Thread.sets_leave Thread.sets_leave _ _⟩
  | call f function => exact (hresume f).andThen fun _ => Run.call_together htwin _

/-- The machines of both instances run the same instruction. -/
theorem Run.advance_together (htwin : pair.Twin) :
    Together (pair.MatchState host) pair.SameProgress (Run.advance pair.left)
      (Run.advance pair.right) := by
  rintro ⟨store, thread, ⟨frames, outer, slot⟩⟩ ⟨store', thread', ⟨frames', outer', slot'⟩⟩ hst
  obtain ⟨rfl, rfl⟩ := hst.same
  cases frames with
  | nil => exact ⟨.done, hst⟩
  | cons f callers =>
    cases hat : f.function.body.instructions[f.ip]? with
    | none =>
      rw [Run.advance_of_none hat, Run.advance_of_none hat]
      exact ⟨rfl, hst⟩
    | some i =>
      rw [Run.advance_of_some hat rfl, Run.advance_of_some hat rfl]
      have htraced := hst.traced (Thread.sets_instruction f.ip i f.operands.length)
        (Thread.sets_instruction f.ip i f.operands.length) pair.left.config pair.right.config
      generalize Run.traced pair.left.config _ _ = u at htraced ⊢
      generalize Run.traced pair.right.config _ _ = v at htraced ⊢
      obtain ⟨store, thread, machine⟩ := u
      obtain ⟨store', thread', machine'⟩ := v
      rcases (Activation.step_together htwin { f with ip := f.ip + 1 } i store store'
        htraced.store).cases with
        ⟨next, _, u, v, hu, hv, rfl, hmatch⟩ | ⟨stop, u, v, hu, hv, hmatch⟩
      · rw [hu, hv]
        exact Run.follow_together htwin next _ _ { htraced with store := hmatch }
      · rw [hu, hv]
        exact ⟨rfl, { htraced with store := hmatch, same := htraced.same.resume _ }⟩

/-- A result that a failing host function has written is kept on both sides. -/
theorem Pair.MatchState.keepWritten (hst : pair.MatchState host s t) (type : FuncType)
    (written : Option UInt64) :
    pair.MatchState host { s with machine := s.machine.keepWritten type written }
      { t with machine := t.machine.keepWritten type written } := by
  unfold Machine.keepWritten
  cases type.results with
  | nil => exact hst
  | cons =>
    exact { hst with
      same := ⟨hst.same.frames_eq, hst.same.outer_eq⟩
      slot := hst.slot.imp_right fun heq => congrArg written.getD heq }

/-- The result slots of two machines hold the same word, or nothing can depend on them. -/
theorem Machine.finishHostCall_together {m n : Machine} (hsame : m.SameStacks n)
    (hslot : host.Writes ∨ m.slot = n.slot) {config config' : Config}
    (hoperands : config.maxOperandStack = config'.maxOperandStack) {type : FuncType}
    {written : Option UInt64} (hwritten : host.Writes → type.results ≠ [] → written.isSome) :
    (∃ m' n', m.finishHostCall config type written = .ok m' ∧
        n.finishHostCall config' type written = .ok n' ∧ m'.SameStacks n' ∧
        (host.Writes ∨ m'.slot = n'.slot)) ∨
      ∃ stop, m.finishHostCall config type written = .error stop ∧
        n.finishHostCall config' type written = .error stop := by
  -- The arguments are taken off both stacks; from here on only the slots may differ.
  have hrest := hsame.setOperands (n.operands.drop type.params.length)
  have hslots : host.Writes ∨ (m.setOperands (n.operands.drop type.params.length)).slot =
      (n.setOperands (n.operands.drop type.params.length)).slot := by
    simpa only [Structured.slot_setOperands] using hslot
  unfold finishHostCall
  rw [hsame.operands_eq]
  generalize m.setOperands _ = m at hrest hslots ⊢
  generalize n.setOperands _ = n at hrest hslots ⊢
  cases hresults : type.results with
  | nil => exact .inl ⟨m, n, rfl, rfl, hrest, hslots⟩
  | cons t _ =>
    -- The word that is pushed was written by the function, or it is in both slots.
    have hstored : written.getD m.slot = written.getD n.slot := by
      rcases hslots with hwrites | heq
      · obtain ⟨v, hv⟩ := Option.isSome_iff_exists.mp (hwritten hwrites (by simp [hresults]))
        rw [hv]
        rfl
      · rw [heq]
    obtain ⟨frames, outer, slot⟩ := m
    obtain ⟨frames', outer', slot'⟩ := n
    obtain ⟨rfl, rfl⟩ := hrest
    simp only at hstored
    simp only [hstored, push, hoperands]
    cases frames with
    | nil =>
      by_cases hroom : (outer.length : Int) < config'.maxOperandStack
      · simp only [if_pos hroom]
        exact .inl ⟨_, _, rfl, rfl, ⟨rfl, rfl⟩, .inr rfl⟩
      · simp only [if_neg hroom]
        exact .inr ⟨_, rfl, rfl⟩
    | cons f callers =>
      simp only
      cases f.push (Value.word t (written.getD slot')) with
      | ok f' => exact .inl ⟨_, _, rfl, rfl, ⟨rfl, rfl⟩, .inr rfl⟩
      | error stop => exact .inr ⟨stop, rfl, rfl⟩

variable {v w : Invoker H σ}

/-- Functions of the embedder do the same to both instances, with these ways to invoke functions. -/
def Pair.HostsAgree (pair : Pair H σ) (host : Host H σ) (v w : Invoker H σ) : Prop :=
  ∀ c d, pair.SameCall c d → Together (pair.Match host) Eq (host.call v c) (host.call w d)

/-- A host function that treats twins alike leaves them alike. -/
theorem Run.performHostCall_together (htwin : pair.Twin) (hhost : pair.HostsAgree host v w)
    {c d : HostCall H} (hcall : pair.SameCall c d) :
    Together (pair.MatchState host) Eq (Run.performHostCall host v pair.left c)
      (Run.performHostCall host w pair.right d) := by
  rintro ⟨store, thread, machine⟩ ⟨store', thread', machine'⟩ hst
  simp only [Run.performHostCall]
  rcases (hhost c d hcall store store' hst.store).cases with
    ⟨written, _, u, u', hu, hu', rfl, hmatch⟩ | ⟨failure, u, u', hu, hu', hmatch⟩
  · simp only [hu, hu']
    have hclosed : pair.MatchState host ⟨u, thread, machine⟩ ⟨u', thread', machine'⟩ :=
      { hst with store := hmatch }
    have htraced := hclosed.traced Thread.sets_leave Thread.sets_leave pair.left.config
      pair.right.config
    generalize Run.traced pair.left.config _ _ = x at htraced ⊢
    generalize Run.traced pair.right.config _ _ = y at htraced ⊢
    obtain ⟨u, thread, machine⟩ := x
    obtain ⟨u', thread', machine'⟩ := y
    rcases Machine.finishHostCall_together htraced.same htraced.slot htwin.operandStack_eq
      (fun hwrites => hwrites v c written store _ hu) with
      ⟨m, n, hm, hn, hsame, hslot⟩ | ⟨stop, hm, hn⟩
    · simp only [← hcall.type_eq, hm, hn]
      exact ⟨rfl, { htraced with same := hsame, slot := hslot }⟩
    · simp only [← hcall.type_eq, hm, hn]
      exact ⟨rfl, htraced.keepWritten c.type written⟩
  · simp only [hu, hu', ← hcall.type_eq]
    have hfailed : pair.MatchState host ⟨u, thread, machine⟩ ⟨u', thread', machine'⟩ :=
      { hst with store := hmatch }
    exact ⟨rfl, hfailed.keepWritten c.type failure.written⟩

/-- The machines of both instances run to the same end. -/
theorem Run.runFrom_together (htwin : pair.Twin) (hhost : pair.HostsAgree host v w) (fuel : Nat)
    {next next' : Progress H} (hnext : pair.SameProgress next next') :
    Together (pair.MatchState host) Eq (Run.runFrom host v pair.left fuel next)
      (Run.runFrom host w pair.right fuel next') := by
  induction fuel generalizing next next' with
  | zero =>
    cases hnext with
    | done => exact together_pure rfl
    | more => exact together_throw _
    | host => exact together_throw _
  | succ fuel ih =>
    cases hnext with
    | done => exact together_pure rfl
    | more => exact (Run.advance_together htwin).bind fun _ _ hnext => ih hnext
    | host hcall =>
      exact (Run.performHostCall_together htwin hhost hcall).andThen fun _ => ih .more

/-- Two runs of the same function go on side by side for any number of steps. -/
theorem Instance.runFunction_together (htwin : pair.Twin) (hhost : pair.HostsAgree host v w)
    (fuel : Nat) (function : UInt32) (args : List UInt64) :
    Together (pair.MatchState host) Eq (pair.left.runFunction host v fuel function args)
      (pair.right.runFunction host w fuel function args) := by
  have hrest : Together (pair.MatchState host) Eq (do
      modify fun s => { s with machine.outer := args.reverse }
      let next ← Run.call pair.left function
      Run.runFrom host v pair.left fuel next : Run H σ Unit) (do
      modify fun s => { s with machine.outer := args.reverse }
      let next ← Run.call pair.right function
      Run.runFrom host w pair.right fuel next : Run H σ Unit) :=
    (Run.modify_together (f := fun m => { m with outer := args.reverse })
      (g := fun m => { m with outer := args.reverse })
      (fun _ _ hsame => ⟨hsame.frames_eq, rfl⟩) (fun _ => rfl) fun _ => rfl).andThen fun _ =>
      (Run.call_together htwin function).bind fun _ _ hnext =>
        Run.runFrom_together htwin hhost fuel hnext
  unfold Instance.runFunction
  rw [htwin.operandStack_eq]
  by_cases hfull : pair.right.config.maxOperandStack < args.length
  · simp only [if_pos hfull]
    exact (together_throw _).andThen fun _ => hrest
  · simp only [if_neg hfull]
    exact hrest

/-! ## Calls and invocations -/

/-- Two calls have ended alike, and the machines that can be used again hold the same result, or
nothing can depend on it. -/
structure Instance.CallEnd.Same (host : Host H σ) (e f : Instance.CallEnd) : Prop where
  outcome_eq : e.outcome = f.outcome
  slot_iff : e.slot.isSome ↔ f.slot.isSome
  slot : host.Writes ∨ e.slot.getD 0 = f.slot.getD 0

/-- Two calls of the same function on machines that hold the same result, or on which nothing can
depend. -/
theorem Instance.callOn_together (htwin : pair.Twin) (hhost : pair.HostsAgree host v w) (fuel : Nat)
    (function : UInt32) (args : List UInt64) {x y : UInt64} (hslot : host.Writes ∨ x = y)
    {s t : Store H σ} (hst : pair.Match host s t) :
    (pair.left.callOn host v fuel function args x s).1.Same host
        (pair.right.callOn host w fuel function args y t).1 ∧
      pair.Match host (pair.left.callOn host v fuel function args x s).2
        (pair.right.callOn host w fuel function args y t).2 := by
  have hbegun : pair.MatchState host ⟨s, pair.left.newThread, { slot := x }⟩
      ⟨t, pair.right.newThread, { slot := y }⟩ :=
    { store := hst, depth_eq := rfl, memory_left := rfl, memory_right := rfl, same := ⟨rfl, rfl⟩
      slot := hslot
      maxDepth_eq := by simp only [newThread, Thread.new, htwin.callDepth_eq] }
  unfold callOn
  rcases (runFunction_together htwin hhost fuel function args _ _ hbegun).cases with
    ⟨_, _, u, u', hu, hu', -, hended⟩ | ⟨stop, u, u', hu, hu', hended⟩
  · simp only [hu, hu']
    have hclosed := hended.traced Thread.sets_close Thread.sets_close pair.left.config
      pair.right.config
    refine ⟨⟨?_, by simp, ?_⟩, hclosed.store⟩
    · simp only [hclosed.same.operands_eq]
    · simpa using hclosed.slot
  · simp only [hu, hu', hended.same.place?_eq]
    cases trapOf stop u'.machine.place? with
    | error crash => exact ⟨⟨rfl, by simp, .inr rfl⟩, hended.store⟩
    | ok e =>
      have hclosed := (hended.traced (Thread.sets_trapped e.trap e.ip)
        (Thread.sets_trapped e.trap e.ip) pair.left.config pair.right.config).traced
        Thread.sets_close Thread.sets_close
        pair.left.config pair.right.config
      exact ⟨⟨rfl, by simp, by simpa using hclosed.slot⟩, hclosed.store.count _ _ _⟩

/-- A call on the machine that waits, or on a new one. -/
theorem Instance.call_eq (inst : Instance H) (host : Host H σ) (v : Invoker H σ) (fuel : Nat)
    (function : UInt32) (args : List UInt64) (s : Store H σ)
    (hmade : inst.idle.isSome → inst.config.stacksFit) :
    inst.call host v fuel function args s =
      if inst.config.stacksFit then inst.callOn host v fuel function args (inst.idle.getD 0) s
      else (⟨.error (.crashed .stackSize), none⟩, s) := by
  unfold call
  cases hidle : inst.idle with
  | none => rfl
  | some slot =>
    have hfit := hmade (by simp [hidle])
    simp only [if_pos hfit, Option.getD_some]

/-- A machine can be used again only where machines can be made. -/
theorem Instance.stacksFit_of_slot {inst : Instance H} {fuel : Nat} {function : UInt32}
    {args : List UInt64} {s : Store H σ} (hmade : inst.idle.isSome → inst.config.stacksFit)
    (hslot : (inst.call host v fuel function args s).1.slot.isSome) : inst.config.stacksFit := by
  rw [call_eq _ _ _ _ _ _ _ hmade] at hslot
  cases hfit : inst.config.stacksFit with
  | true => rfl
  | false => simp [hfit] at hslot

/-- Calls of twins end alike if their stacks can be made and a result slot is either written or the
same. -/
theorem Instance.call_together (htwin : pair.Twin) (hhost : pair.HostsAgree host v w) (fuel : Nat)
    (function : UInt32) (args : List UInt64)
    (hleft : pair.left.idle.isSome → pair.left.config.stacksFit)
    (hright : pair.right.idle.isSome → pair.right.config.stacksFit)
    (hslot : host.Writes ∨ pair.left.idle.getD 0 = pair.right.idle.getD 0)
    {s t : Store H σ} (hst : pair.Match host s t) :
    (pair.left.call host v fuel function args s).1.Same host
        (pair.right.call host w fuel function args t).1 ∧
      pair.Match host (pair.left.call host v fuel function args s).2
        (pair.right.call host w fuel function args t).2 := by
  have hfit : pair.left.config.stacksFit = pair.right.config.stacksFit := by
    simp only [Config.stacksFit, htwin.operandStack_eq, htwin.controlDepth_eq, htwin.callDepth_eq]
  rw [call_eq _ _ _ _ _ _ _ hleft, call_eq _ _ _ _ _ _ _ hright, hfit]
  cases pair.right.config.stacksFit with
  | true => exact callOn_together htwin hhost fuel function args hslot hst
  | false => exact ⟨⟨rfl, by simp, .inr rfl⟩, hst⟩

end

/-- Invoking functions of both instances does the same to both. -/
def Pair.InvokersAgree (pair : Pair H σ) (host : Host H σ) (v w : Invoker H σ) : Prop :=
  ∀ name args, Together (pair.Match host) Eq (v pair.leftPlace name args)
    (w pair.rightPlace name args)

/-- The functions of an embedder do the same to two instances, if invoking functions does. -/
def Host.Treats (host : Host H σ) (pair : Pair H σ) : Prop :=
  ∀ v w, pair.InvokersAgree host v w → pair.HostsAgree host v w

section

variable {pair : Pair H σ} {host : Host H σ} {v w : Invoker H σ}

/-- The arguments of an invocation are checked alike. -/
theorem Pair.Twin.prepare_eq (htwin : pair.Twin) (name : String) (args : List Value) :
    pair.left.prepare name args = pair.right.prepare name args := by
  simp only [Instance.prepare, Instance.require, Instance.export?, Instance.unknownFunction,
    htwin.closed_eq, htwin.exports_eq, htwin.signature?_eq, htwin.imports_eq, htwin.functions_eq]

/-- The waiting machines of both instances are taken or left. -/
theorem Pair.Match.setIdle {s t : Store H σ} (hst : pair.Match host s t) {x y : Option UInt64}
    (hx : x.isSome → pair.left.config.stacksFit) (hy : y.isSome → pair.right.config.stacksFit)
    (hslot : host.Writes ∨ x.getD 0 = y.getD 0) :
    pair.Match host (s.modifyInstance pair.leftPlace ({ · with idle := x }))
      (t.modifyInstance pair.rightPlace ({ · with idle := y })) := by
  obtain ⟨x', y', hs, ht, -⟩ := hst.idle
  refine ⟨hst.own, hst.view_eq, x, y, ?_, ?_, hx, hy, hslot⟩
  · simp [Store.modifyInstance, Array.getElem?_modify, hs]
  · simp [Store.modifyInstance, Array.getElem?_modify, ht]

/-- The two instances with other waiting machines. -/
def Pair.withIdle (pair : Pair H σ) (x y : Option UInt64) : Pair H σ :=
  { pair with left := { pair.left with idle := x }, right := { pair.right with idle := y } }

/-- Stores are compared without the idle machines. -/
theorem Pair.match_withIdle (x y : Option UInt64) :
    (pair.withIdle x y).Match host = pair.Match host := by
  funext s t
  exact propext ⟨fun h => ⟨h.own, h.view_eq, h.idle⟩, fun h => ⟨h.own, h.view_eq, h.idle⟩⟩

/-- Twins remain twins whatever machine they keep. -/
theorem Pair.Twin.withIdle (htwin : pair.Twin) (x y : Option UInt64) : (pair.withIdle x y).Twin :=
  ⟨htwin.types_eq, htwin.imports_eq, htwin.functions_eq, htwin.table_eq, htwin.exports_eq,
    htwin.closed_eq, htwin.operandStack_eq, htwin.controlDepth_eq, htwin.callDepth_eq,
    htwin.globals_iff⟩

/-- The hosts of twins agree whatever machine they keep. -/
theorem Pair.HostsAgree.withIdle (hhost : pair.HostsAgree host v w) (x y : Option UInt64) :
    (pair.withIdle x y).HostsAgree host v w := by
  intro c d hcall
  rw [match_withIdle]
  exact hhost c d ⟨hcall.code_eq, hcall.type_eq, hcall.args_eq, hcall.depth_eq, hcall.maxDepth_eq,
    hcall.memory_left, hcall.memory_right⟩

/-- An invocation of both instances ends alike, if the functions of the embedder that it calls do
the same to both. -/
theorem Pair.invoke_together_of_hosts (htwin : pair.Twin) {fuel nesting : Nat}
    (hhost : pair.HostsAgree host (Engine.invoke host fuel nesting)
      (Engine.invoke host fuel nesting)) :
    pair.InvokersAgree host (Engine.invoke host fuel (nesting + 1))
      (Engine.invoke host fuel (nesting + 1)) := by
  intro name args s t hst
  -- The machines that wait in the stores may differ from those of the pair, so the pair is taken
  -- with the slots that are there.
  obtain ⟨x, y, hs, ht, hx, hy, hslot⟩ := hst.idle
  have htwin' := htwin.withIdle x y
  have hprepare : Instance.prepare { pair.left with idle := x } name args =
      Instance.prepare { pair.right with idle := y } name args := htwin'.prepare_eq name args
  unfold Engine.invoke
  simp only [hs, ht, hprepare]
  cases Instance.prepare { pair.right with idle := y } name args with
  | error e => exact ⟨rfl, hst⟩
  | ok call =>
    obtain ⟨function, type, words⟩ := call
    have hbegun := (hst.count pair.left.config pair.right.config Counters.invocation).setIdle
      (x := none) (y := none) (absurd · Bool.false_ne_true) (absurd · Bool.false_ne_true) (.inr rfl)
    rw [← match_withIdle x y] at hbegun
    have hcalled := Instance.call_together htwin' (hhost.withIdle x y) fuel function words hx hy
      hslot hbegun
    rw [match_withIdle] at hcalled
    simp only [withIdle] at hcalled
    -- A machine that comes back was made with stacks that fit, whether it waited before or was made
    -- for this call.
    have hmade {inst : Instance H} (hinst : inst.idle.isSome → inst.config.stacksFit)
        (u : Store H σ) :
            (inst.call host (Engine.invoke host fuel nesting) fuel function words u).1.slot.isSome →
          inst.config.stacksFit := Instance.stacksFit_of_slot hinst
    have hleft := @hmade { pair.left with idle := x } hx
      ((s.count pair.left.config Counters.invocation).modifyInstance pair.leftPlace
        ({ · with idle := none }))
    have hright := @hmade { pair.right with idle := y } hy
      ((t.count pair.right.config Counters.invocation).modifyInstance pair.rightPlace
        ({ · with idle := none }))
    simp only
    generalize Instance.call host _ fuel { pair.left with idle := x } function words _ = left
      at hcalled hleft ⊢
    generalize Instance.call host _ fuel { pair.right with idle := y } function words _ = right
      at hcalled hright ⊢
    obtain ⟨⟨outcome, z⟩, s'⟩ := left
    obtain ⟨⟨_, z'⟩, t'⟩ := right
    obtain ⟨⟨rfl, hiff, hslots⟩, hmatch⟩ := hcalled
    cases z with
    | some slot =>
      obtain ⟨slot', rfl⟩ := Option.isSome_iff_exists.mp (hiff.mp rfl)
      have hkept : pair.Match host (s'.modifyInstance pair.leftPlace ({ · with idle := some slot }))
          (t'.modifyInstance pair.rightPlace ({ · with idle := some slot' })) :=
        hmatch.setIdle hleft hright hslots
      cases outcome <;> exact ⟨rfl, hkept⟩
    | none =>
      have hnone : z' = none := by simpa using hiff
      subst hnone
      cases outcome <;> exact ⟨rfl, hmatch⟩

/-- An invocation of both instances ends alike, if the functions of the embedder do the same to
both. -/
theorem Pair.invoke_together (htwin : pair.Twin) (htreats : host.Treats pair) (fuel nesting : Nat) :
    pair.InvokersAgree host (Engine.invoke host fuel nesting)
      (Engine.invoke host fuel nesting) := by
  induction nesting with
  | zero => exact fun _ _ => together_throw _
  | succ nesting ih => exact invoke_together_of_hosts htwin (htreats _ _ ih)

end

end IntWasm
