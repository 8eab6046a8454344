import IntWasm.Config.Basic
import IntWasm.Proofs.Outcome

/-!
# Configurations that are accepted

The stacks of a configuration that was accepted have room for something, and its allocator is the
one that was chosen or a new one.
-/

namespace IntWasm

/-- The limits of a configuration that was accepted are positive. -/
structure Config.Positive (c : Config) : Prop where
  callDepth : 0 < c.maxCallDepth
  operandStack : 0 < c.maxOperandStack
  controlDepth : 0 < c.maxControlDepth

/-- An allocator that has not handed out any pages. -/
def Allocator.Fresh (a : Allocator) : Prop := ∀ b, a.budget = some b → b.used = 0

namespace Config

/-- The allocator that a configuration describes is fresh. -/
theorem fresh_of_describedAllocator {c : Config} {a : Allocator}
    (hok : c.describedAllocator = .ok a) : a.Fresh := by
  have hfresh (source : PageSource) : Allocator.Fresh
      { source, budget := if c.pageBudget = 0 then none else some { limit := c.pageBudget } } := by
    intro b hb
    simp only at hb
    split at hb
    · cases hb
    · cases hb
      rfl
  unfold describedAllocator at hok
  by_cases hheap : c.allocatorKind = [] ∨ c.allocatorKind = Text.utf8 "heap"
  · simp only [if_pos hheap, except_bind_eq_ok, except_pure_eq_ok] at hok
    obtain ⟨source, -, rfl⟩ := hok
    exact hfresh source
  by_cases hmapping : c.allocatorKind = Text.utf8 "mmap"
  · simp only [if_neg hheap, if_pos hmapping, except_bind_eq_ok, except_pure_eq_ok] at hok
    obtain ⟨source, -, rfl⟩ := hok
    exact hfresh source
  · simp only [if_neg hheap, if_neg hmapping, except_bind_eq_ok, except_throw_ne_ok, false_and,
      exists_false] at hok

/-- A configuration that is accepted has positive limits and has chosen an allocator. -/
theorem check_eq_ok {c c' : Config} (hok : c.check = .ok c') :
    c.Positive ∧ ∃ choice, c' = { c with allocator := some choice } ∧
      (c.allocator = some choice ∨ ∃ a, choice = .fresh a ∧ a.Fresh) := by
  unfold check at hok
  by_cases hcalls : c.maxCallDepth ≤ 0
  · simp [hcalls] at hok
  by_cases hstack : c.maxOperandStack ≤ 0
  · simp [hcalls, hstack] at hok
  by_cases hcontrol : c.maxControlDepth ≤ 0
  · simp [hcalls, hstack, hcontrol] at hok
  by_cases hpages : c.maxMemoryPages = 0 ∨ Memory.maxPages < c.maxMemoryPages
  · simp [hcalls, hstack, hcontrol, hpages] at hok
  simp only [hcalls, hstack, hcontrol, hpages, if_false] at hok
  refine ⟨⟨by omega, by omega, by omega⟩, ?_⟩
  cases hallocator : c.allocator with
  | some choice =>
    simp only [hallocator, except_pure_eq_ok] at hok
    exact ⟨choice, by rw [← hok, ← hallocator], .inl rfl⟩
  | none =>
    simp only [hallocator, except_bind_eq_ok, except_pure_eq_ok] at hok
    obtain ⟨a, ha, rfl⟩ := hok
    exact ⟨.fresh a, rfl, .inr ⟨a, rfl, fresh_of_describedAllocator ha⟩⟩

/-- Also what comes out has positive limits. -/
theorem positive_of_check {c c' : Config} (hok : c.check = .ok c') : c'.Positive := by
  obtain ⟨hpositive, choice, rfl, -⟩ := check_eq_ok hok
  exact ⟨hpositive.callDepth, hpositive.operandStack, hpositive.controlDepth⟩

end Config

end IntWasm
