import IntWasm.Body.Check
import IntWasm.Proofs.Structured.Typing

/-!
# Operands of a block under check

The checker knows the operands of a block as types, some of which may be unknown in unreachable
code, where also more can be taken than there are. `Pops` says which types can be taken from such
operands and what remains. In particular `Pops dead mine types []` says that the operands stand for
the stack `types`, and the same condition lets a block with these operands end with the results
`types`. Main statements: the checker takes operands of given types exactly as `Pops` says.
-/

namespace IntWasm

/-- The integer types are different value types. -/
theorem IntType.valueType_injective {a b : IntType} (heq : a.valueType = b.valueType) : a = b := by
  revert heq
  cases a <;> cases b <;> decide

/-- The value type of 32-bit integers. -/
@[simp] theorem IntType.valueType_i32 : IntType.i32.valueType = .i32 := rfl

/-- An integer type is not the unknown one. -/
@[simp] theorem IntType.valueType_ne_any (t : IntType) : t.valueType ≠ .any := by
  cases t <;> decide

namespace Structured

open Body

/-- Taking one operand, whatever its type is. In unreachable code one that is not there has an
unknown type. -/
def Takes (dead : Bool) (mine : List ValueType) (a : ValueType) (rest : List ValueType) : Prop :=
  mine = a :: rest ∨ mine = [] ∧ dead = true ∧ a = .any ∧ rest = []

/-- An operand that may have a given type. -/
def Matches (a : ValueType) (t : IntType) : Prop := a = .any ∨ a = t.valueType

/-- Taking operands of given types, the topmost first, leaves the last list. -/
inductive Pops (dead : Bool) : List ValueType → List IntType → List ValueType → Prop
  | nil {mine} : Pops dead mine [] mine
  | top {a mine t ts rest} (hmatch : Matches a t) (hmore : Pops dead mine ts rest) :
    Pops dead (a :: mine) (t :: ts) rest
  | bottom {t ts rest} (hdead : dead = true) (hmore : Pops dead [] ts rest) :
    Pops dead [] (t :: ts) rest

/-- Taking nothing leaves all. -/
@[simp] theorem pops_nil_iff {dead : Bool} {mine rest : List ValueType} :
    Pops dead mine [] rest ↔ mine = rest := by
  constructor
  · rintro ⟨⟩
    rfl
  · rintro rfl
    exact .nil

/-- Operands of given types are taken one after the other. -/
theorem pops_cons_iff {dead : Bool} {mine rest : List ValueType} {t : IntType} {ts : List IntType} :
    Pops dead mine (t :: ts) rest ↔
      ∃ a inner, Takes dead mine a inner ∧ Matches a t ∧ Pops dead inner ts rest := by
  constructor
  · rintro (_ | ⟨hmatch, hmore⟩ | ⟨hdead, hmore⟩)
    · exact ⟨_, _, .inl rfl, hmatch, hmore⟩
    · exact ⟨.any, [], .inr ⟨rfl, hdead, rfl, rfl⟩, .inl rfl, hmore⟩
  · rintro ⟨a, inner, rfl | ⟨rfl, hdead, rfl, rfl⟩, hmatch, hmore⟩
    · exact .top hmatch hmore
    · exact .bottom hdead hmore

/-- Operands are taken one list after the other. -/
theorem pops_append_iff {dead : Bool} {mine rest : List ValueType} {ts us : List IntType} :
    Pops dead mine (ts ++ us) rest ↔ ∃ inner, Pops dead mine ts inner ∧
    Pops dead inner us rest := by
  induction ts generalizing mine with
  | nil => simp
  | cons t ts ih =>
    simp only [List.cons_append, pops_cons_iff, ih]
    constructor
    · rintro ⟨a, first, htakes, hmatch, inner, hts, hus⟩
      exact ⟨inner, ⟨a, first, htakes, hmatch, hts⟩, hus⟩
    · rintro ⟨inner, ⟨a, first, htakes, hmatch, hts⟩, hus⟩
      exact ⟨a, first, htakes, hmatch, inner, hts, hus⟩

/-- The first type is taken, then the others. -/
theorem pops_cons_iff_split {dead : Bool} {mine rest : List ValueType} {t : IntType}
    {ts : List IntType} :
    Pops dead mine (t :: ts) rest ↔ ∃ inner, Pops dead mine [t] inner ∧ Pops dead inner ts rest :=
  (pops_append_iff : Pops dead mine ([t] ++ ts) rest ↔ _)

/-- Operands that were left are the first ones to be taken. -/
theorem pops_values_iff {dead : Bool} {mine : List ValueType} {ts us : List IntType} :
    Pops dead (ts.map IntType.valueType ++ mine) us [] ↔
      ∃ more, us = ts ++ more ∧ Pops dead mine more [] := by
  induction ts generalizing us with
  | nil => simp
  | cons t ts ih =>
    cases us with
    | nil => simp
    | cons u us =>
      have hmatch : Matches t.valueType u ↔ u = t := by
        simp only [Matches, IntType.valueType_ne_any, false_or]
        exact ⟨fun h => (IntType.valueType_injective h).symm, fun h => h ▸ rfl⟩
      simp only [List.map_cons, List.cons_append, pops_cons_iff, Takes, List.cons.injEq,
        reduceCtorEq, false_and, or_false]
      constructor
      · rintro ⟨a, inner, ⟨rfl, rfl⟩, ha, hmore⟩
        obtain rfl := hmatch.mp ha
        obtain ⟨more, rfl, hpops⟩ := ih.mp hmore
        exact ⟨more, ⟨rfl, rfl⟩, hpops⟩
      · rintro ⟨more, ⟨rfl, rfl⟩, hpops⟩
        exact ⟨_, _, ⟨rfl, rfl⟩, hmatch.mpr rfl, ih.mpr ⟨more, rfl, hpops⟩⟩

/-- Reachable code has exactly the operands that are taken and those that are left. -/
theorem Pops.length_eq {mine rest : List ValueType} {ts : List IntType}
    (hpops : Pops false mine ts rest) : mine.length = ts.length + rest.length := by
  induction ts generalizing mine with
  | nil =>
    obtain rfl := pops_nil_iff.mp hpops
    simp
  | cons t ts ih =>
    obtain ⟨a, inner, rfl | ⟨-, hdead, -⟩, -, hmore⟩ := pops_cons_iff.mp hpops
    · have hlength := ih hmore
      simp only [List.length_cons]
      omega
    · cases hdead

/-- No operands are added. -/
theorem Pops.length_le {dead : Bool} {mine rest : List ValueType} {ts : List IntType}
    (hpops : Pops dead mine ts rest) : rest.length ≤ mine.length := by
  induction ts generalizing mine with
  | nil => rw [pops_nil_iff.mp hpops]
  | cons t ts ih =>
    obtain ⟨a, inner, rfl | ⟨rfl, -, -, rfl⟩, -, hmore⟩ := pops_cons_iff.mp hpops
    · exact (ih hmore).trans (Nat.le_succ _)
    · exact ih hmore

/-- An operand that is unknown or an integer. -/
def Known (a : ValueType) : Prop := ∃ t, Matches a t

/-- Integer types are known. -/
theorem known_values (ts : List IntType) : ∀ a ∈ ts.map IntType.valueType, Known a := by
  intro a ha
  obtain ⟨t, -, rfl⟩ := List.mem_map.mp ha
  exact ⟨t, .inr rfl⟩

/-- What remains of known operands is known. -/
theorem Takes.known {dead : Bool} {mine rest : List ValueType} {a : ValueType}
    (htakes : Takes dead mine a rest) (hknown : ∀ a ∈ mine, Known a) :
    Known a ∧ ∀ b ∈ rest, Known b := by
  rcases htakes with rfl | ⟨-, -, rfl, rfl⟩
  · simpa using hknown
  · exact ⟨⟨.i32, .inl rfl⟩, by simp⟩

/-- What is left is as known as what was there. -/
theorem Pops.known {dead : Bool} {mine rest : List ValueType} {ts : List IntType}
    (hpops : Pops dead mine ts rest) (hknown : ∀ a ∈ mine, Known a) : ∀ b ∈ rest, Known b := by
  induction ts generalizing mine with
  | nil => rwa [← pops_nil_iff.mp hpops]
  | cons t ts ih =>
    obtain ⟨a, inner, htakes, -, hmore⟩ := pops_cons_iff.mp hpops
    exact ih hmore (htakes.known hknown).2

/-- Known operands stand for some stack. -/
theorem exists_pops {mine : List ValueType} (dead : Bool) (hknown : ∀ a ∈ mine, Known a) :
    ∃ ts, Pops dead mine ts [] := by
  induction mine with
  | nil => exact ⟨[], .nil⟩
  | cons a mine ih =>
    obtain ⟨t, hmatch⟩ := hknown a (by simp)
    obtain ⟨ts, hpops⟩ := ih fun b hb => hknown b (by simp [hb])
    exact ⟨t :: ts, .top hmatch hpops⟩

/-- Operands in unreachable code of which none is known stand for every stack. -/
theorem pops_dead (ts : List IntType) : Pops true [] ts [] := by
  induction ts with
  | nil => exact .nil
  | cons t ts ih => exact .bottom rfl ih

/-- A reachable block without operands stands for the empty stack only. -/
theorem eq_nil_of_pops {ts : List IntType} (hpops : Pops false [] ts []) : ts = [] := by
  have hlength := hpops.length_eq
  exact List.length_eq_zero_iff.mp (by simpa using hlength.symm)

/-! ## Taking operands from the checker -/

/-- The innermost block of a checker is `b`, with `mine` above its entry and `below` under it. -/
structure Inside (s : Checker) (b : Block) (outer : List Block) (mine below : List ValueType) :
    Prop where
  blocks_eq : s.blocks = b :: outer
  stack_eq : s.stack = mine ++ below
  height_eq : b.height = below.length

/-- The checker with other operands in its innermost block is still inside of it. -/
theorem Inside.withStack {s : Checker} {b : Block} {outer : List Block}
    {mine below : List ValueType} (hinside : Inside s b outer mine below) (rest : List ValueType) :
    Inside { s with stack := rest ++ below } b outer rest below :=
  ⟨hinside.blocks_eq, rfl, hinside.height_eq⟩

/-- The checker takes an operand of the block, or an unknown one in unreachable code. -/
theorem Inside.pop_iff {s s' : Checker} {b : Block} {outer : List Block}
    {mine below : List ValueType} {a : ValueType} (hinside : Inside s b outer mine below) :
    s.pop = .ok (a, s') ↔
      ∃ rest, Takes b.unreachable mine a rest ∧ s' = { s with stack := rest ++ below } := by
  obtain ⟨instructions, blocks, stack, metrics⟩ := s
  obtain ⟨hblocks, hstack, hheight⟩ := hinside
  simp only at hblocks hstack
  subst hblocks hstack
  cases mine with
  | nil =>
    cases hdead : b.unreachable <;>
      simp [Checker.pop, Takes, hheight, hdead, eq_comm]
  | cons t mine =>
    have hne : (t :: (mine ++ below)).length ≠ b.height := by
      simp only [List.length_append, List.length_cons]
      omega
    simp only [Checker.pop, hne, if_false, List.cons_append, Takes, Except.ok.injEq, Prod.mk.injEq]
    constructor
    · rintro ⟨rfl, rfl⟩
      exact ⟨mine, .inl rfl, rfl⟩
    · rintro ⟨rest, heq | ⟨hnil, -⟩, rfl⟩
      · cases heq
        exact ⟨rfl, rfl⟩
      · cases hnil

/-- The checker takes an operand of a type. -/
theorem Inside.popType_iff {s s' : Checker} {b : Block} {outer : List Block}
    {mine below : List ValueType} {t : IntType} (hinside : Inside s b outer mine below) :
    s.popType t.valueType = .ok s' ↔
      ∃ rest, Pops b.unreachable mine [t] rest ∧ s' = { s with stack := rest ++ below } := by
  simp only [Checker.popType, except_bind_eq_ok, Prod.exists, hinside.pop_iff, pops_cons_iff,
    pops_nil_iff]
  constructor
  · rintro ⟨a, _, ⟨rest, htakes, rfl⟩, hok⟩
    split at hok
    · cases hok
    · rename_i hmatch
      cases hok
      refine ⟨rest, ⟨a, rest, htakes, ?_, rfl⟩, rfl⟩
      by_cases hany : a = .any
      · exact .inl hany
      · exact .inr (by simpa [hany] using hmatch)
  · rintro ⟨rest, ⟨a, _, htakes, hmatch, rfl⟩, rfl⟩
    refine ⟨a, _, ⟨_, htakes, rfl⟩, ?_⟩
    have hfits : ¬ (a ≠ .any ∧ t.valueType ≠ .any ∧ a ≠ t.valueType) := by
      rcases hmatch with rfl | rfl <;> simp
    simp only [hfits, if_false]
    rfl

/-- The checker takes operands of types, the first one from the top. -/
theorem Inside.popEach_iff {s s' : Checker} {b : Block} {outer : List Block}
    {mine below : List ValueType} {ts : List IntType} (hinside : Inside s b outer mine below) :
    s.popEach (ts.map IntType.valueType) = .ok s' ↔
      ∃ rest, Pops b.unreachable mine ts rest ∧ s' = { s with stack := rest ++ below } := by
  induction ts generalizing s mine with
  | nil =>
    simp only [List.map_nil, Checker.popEach, Except.ok.injEq, pops_nil_iff, exists_eq_left',
      ← hinside.stack_eq]
    exact eq_comm
  | cons t ts ih =>
    simp only [List.map_cons, Checker.popEach, except_bind_eq_ok, hinside.popType_iff]
    have hsplit (rest : List ValueType) : Pops b.unreachable mine (t :: ts) rest ↔ _ :=
      pops_cons_iff_split
    simp only [hsplit]
    constructor
    · rintro ⟨_, ⟨inner, hfirst, rfl⟩, hmore⟩
      obtain ⟨rest, hrest, rfl⟩ := (ih (hinside.withStack inner)).mp hmore
      exact ⟨rest, ⟨inner, hfirst, hrest⟩, rfl⟩
    · rintro ⟨rest, ⟨inner, hfirst, hrest⟩, rfl⟩
      exact ⟨_, ⟨inner, hfirst, rfl⟩, (ih (hinside.withStack inner)).mpr ⟨rest, hrest, rfl⟩⟩

/-- The checker takes operands of given types exactly if they can be taken from those of the
innermost block. -/
theorem Inside.popTypes_iff {s s' : Checker} {b : Block} {outer : List Block}
    {mine below : List ValueType} {ts : List IntType} (hinside : Inside s b outer mine below) :
    s.popTypes (ts.reverse.map IntType.valueType) = .ok s' ↔
      ∃ rest, Pops b.unreachable mine ts rest ∧ s' = { s with stack := rest ++ below } := by
  rw [Checker.popTypes, ← List.map_reverse, List.reverse_reverse, hinside.popEach_iff]

end Structured

end IntWasm
