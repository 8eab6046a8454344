import IntWasm.Proofs.Structured.Nesting

/-!
# Unsupported instructions are refused wherever they stand

A body is checked from left to right, so how far the checker gets over the first instructions of a
body does not depend on what follows them. Behind any of the instructions of an accepted body,
reachable or not, an instruction of another part of the format is refused by its name, at its own
place. Main statement: `Structured.check_refuses_unsupported`.
-/

namespace IntWasm.Structured

open Body Leb128

/-! ## Beginnings of bodies -/

/-- A place in a body where an instruction begins: those before it are spelled by the bytes before
it. -/
def Boundary (bytes : List UInt8) (k : Nat) : Prop :=
  k < bytes.length ∧ ∃ tokens, SpellsTokens tokens (bytes.take k)

/-- Every token takes a byte. -/
theorem SpellsTokens.length_le {tokens : List Token} {bytes : List UInt8}
    (hspells : SpellsTokens tokens bytes) : tokens.length ≤ bytes.length := by
  induction tokens generalizing bytes with
  | nil => exact Nat.zero_le _
  | cons token tokens ih =>
    obtain ⟨first, more, rfl, hfirst, hmore⟩ := hspells
    have hpos := hfirst.length_pos
    have hle := ih hmore
    rw [List.length_append, List.length_cons]
    omega

/-- The checker has got over the first tokens of an accepted body, unless they are all of it. -/
theorem runs_of_checkFrom_append {scope : Scope} {size fuel : Nat} {tokens : List Token}
    {bytes rest : List UInt8} {s : Checker} {body : Body} (hspells : SpellsTokens tokens bytes)
    (hrest : rest ≠ []) (hok : checkFrom scope size fuel (bytes ++ rest) s = .ok body) :
    ∃ t, Runs scope s tokens t := by
  induction tokens generalizing bytes s fuel with
  | nil => exact ⟨s, rfl⟩
  | cons token tokens ih =>
    obtain ⟨first, more, rfl, hfirst, hmore⟩ := hspells
    cases fuel with
    | zero => cases hok
    | succ fuel =>
      rw [List.append_assoc, checkFrom_token (ofBytes_of_spells hfirst _)] at hok
      cases hstep : s.step scope token.op token.flat (more ++ rest).isEmpty with
      | error rule => simp [hstep] at hok
      | ok progress =>
        cases progress with
        | done found =>
          have hlast := (step_done hstep).2
          rw [List.isEmpty_iff, List.append_eq_nil_iff] at hlast
          exact absurd hlast.2 hrest
        | more u =>
          simp only [hstep] at hok
          obtain ⟨t, hruns⟩ := ih hmore hok
          exact ⟨t, u, step_more_iff.mp hstep, hruns⟩

/-- Where the checker gets over tokens, it goes on with whatever follows them. -/
theorem checkFrom_append {scope : Scope} {size fuel : Nat} {tokens : List Token}
    {bytes : List UInt8} {s t : Checker} (hspells : SpellsTokens tokens bytes)
    (hruns : Runs scope s tokens t) (rest : List UInt8) :
    checkFrom scope size (fuel + tokens.length) (bytes ++ rest) s =
      checkFrom scope size fuel rest t := by
  induction tokens generalizing bytes s with
  | nil =>
    cases hspells
    cases hruns
    rfl
  | cons token tokens ih =>
    obtain ⟨first, more, rfl, hfirst, hmore⟩ := hspells
    obtain ⟨u, hstep, hruns⟩ := hruns
    rw [List.append_assoc, List.length_cons, ← Nat.add_assoc,
      checkFrom_token (ofBytes_of_spells hfirst _)]
    simp only [step_more_iff.mpr hstep]
    exact ih hmore hruns

/-- What cannot be read behind the first instructions of an accepted body is refused at its
place. -/
theorem check_of_boundary {scope : Scope} {types : List ValueType} {base k : Nat}
    {bytes rest : List UInt8} {body : Body} {fault : Fault}
    (hok : check scope types base bytes = .ok body) (hk : Boundary bytes k) (hrest : rest ≠ [])
    (hfault : Instruction.ofBytes rest = .error fault) :
    check scope types base (bytes.take k ++ rest) =
      .error (fault.toDecodeError (some (base + k))) := by
  obtain ⟨hlt, tokens, hspells⟩ := hk
  have hdrop : bytes.drop k ≠ [] := by
    intro hnil
    have := List.drop_eq_nil_iff.mp hnil
    omega
  have hwhole := check_eq_checkFrom.mp hok
  rw [← List.take_append_drop k bytes] at hwhole
  obtain ⟨t, hruns⟩ := runs_of_checkFrom_append hspells hdrop hwhole
  have hlength := hspells.length_le
  have htake : (bytes.take k).length = k := by
    rw [List.length_take]
    omega
  rw [htake] at hlength
  have hpos := List.length_pos_iff.mpr hrest
  obtain ⟨fuel, hfuel⟩ : ∃ fuel, (bytes.take k ++ rest).length + 1 = fuel + 1 + tokens.length :=
    ⟨k - tokens.length + rest.length, by rw [List.length_append, htake]; omega⟩
  simp only [check]
  rw [hfuel, checkFrom_append hspells hruns, checkFrom_of_error hfault]
  simp only
  rw [List.length_append, htake, Nat.add_sub_cancel]

/-! ## Refused instructions -/

/-- The bytes of refused instructions and those in front of their numbers stand for no opcode. -/
theorem ofByte?_eq_none {u : UInt8} (hu : (Opcode.refused? u).isSome ∨ Opcode.isLead u) :
    Opcode.ofByte? u = none := by
  have hall : ∀ op ∈ Opcode.all,
      ¬ ((Opcode.refused? op.byte).isSome ∨ Opcode.isLead op.byte) := by decide +kernel
  cases hop : Opcode.ofByte? u with
  | none => rfl
  | some op =>
    rw [Opcode.ofByte?_eq_some_iff] at hop
    subst hop
    exact absurd hu (hall op (Opcode.mem_all op))

/-- A byte in front of a number does not stand for a refused instruction of its own. -/
theorem isLead_of_refused? {u : UInt8} {r : Opcode.Refused} (hu : Opcode.refused? u = some r) :
    Opcode.isLead u = false := by
  have hnone : ∀ lead ∈ [Opcode.miscLead, Opcode.vectorLead, Opcode.atomicLead],
      Opcode.refused? lead = none := by decide +kernel
  by_contra hlead
  rw [Bool.not_eq_false] at hlead
  have hmem : u ∈ [Opcode.miscLead, Opcode.vectorLead, Opcode.atomicLead] := by
    simpa [Opcode.isLead, or_assoc] using hlead
  rw [hnone u hmem] at hu
  cases hu

/-- An opcode that is refused is reported with its name and feature. -/
theorem ofBytes_refused {u : UInt8} {r : Opcode.Refused} (hu : Opcode.refused? u = some r)
    (rest : List UInt8) :
    Instruction.ofBytes (u :: rest) =
      .error (.decode (.unsupported none (Opcode.nameOf u) r.feature)) := by
  have hnone : Opcode.ofByte? u = none := ofByte?_eq_none (.inl (by rw [hu]; rfl))
  have hname : Opcode.nameOf u = r.name := by rw [Opcode.nameOf.eq_1, hnone, hu]
  have hrefusal : Instruction.refusal none u = .unsupported none r.name r.feature := by
    rw [Instruction.refusal.eq_1, hu]
  rw [Instruction.ofBytes.eq_2, hnone, hname, ← hrefusal]
  simp only [Instruction.refuseByte, isLead_of_refused? hu, Bool.false_eq_true, if_false]

/-- An opcode of two bytes is reported with the name that its second one says. -/
theorem ofBytes_lead {u : UInt8} {n : UInt32} {run : List UInt8} (hu : Opcode.isLead u = true)
    (hrun : SpellsIndex n run) (rest : List UInt8) :
    Instruction.ofBytes (u :: (run ++ rest)) = .error (.decode
      (.unsupported none (Opcode.refusedAfter u n).name (Opcode.refusedAfter u n).feature)) := by
  have hnumber : Instruction.number u32 (run ++ rest) = .ok (n, rest) :=
    number_u32_iff.mpr ⟨run, rfl, hrun⟩
  rw [Instruction.ofBytes.eq_2, ofByte?_eq_none (.inr hu)]
  simp only [Instruction.refuseByte, hu, if_true]
  rw [hnumber]

/-- Take an accepted body and a place in it where an instruction begins. Whatever follows there, a
byte of an instruction of another part of the format is refused as unsupported, by the name of the
instruction and at that place, and so is a byte in front of a number that says which instruction it
is. -/
theorem check_refuses_unsupported {scope : Scope} {types : List ValueType} {base k : Nat}
    {bytes : List UInt8} {body : Body} (hok : check scope types base bytes = .ok body)
    (hk : Boundary bytes k) :
    (∀ u r, Opcode.refused? u = some r → ∀ rest,
      check scope types base (bytes.take k ++ u :: rest) =
        .error (.unsupported (some (base + k)) (Opcode.nameOf u) r.feature)) ∧
    ∀ u, Opcode.isLead u = true → ∀ n run, SpellsIndex n run → ∀ rest,
      check scope types base (bytes.take k ++ u :: (run ++ rest)) =
        .error (.unsupported (some (base + k)) (Opcode.refusedAfter u n).name
          (Opcode.refusedAfter u n).feature) := by
  constructor
  · intro u r hu rest
    exact check_of_boundary hok hk (List.cons_ne_nil _ _) (ofBytes_refused hu rest)
  · intro u hu n run hrun rest
    exact check_of_boundary hok hk (List.cons_ne_nil _ _) (ofBytes_lead hu hrun rest)

/-- A scope without any definitions. -/
def bareScope : Scope where
  localType _ := none
  globalType _ := none
  functionType _ := none
  type _ := none
  hasTable := false
  hasMemory := false

/-- The code behind a trap can never be reached, and still nothing unsupported may stand in it. -/
theorem check_refuses_unsupported_afterTrap :
    ∃ body, check bareScope [] 8 [0x00, 0x1a, 0x0b] = .ok body ∧
      Boundary [0x00, 0x1a, 0x0b] 2 ∧ Opcode.refused? 0x92 = some ⟨"f32.add", "floating point"⟩ ∧
      Opcode.isLead 0xfc = true ∧ SpellsIndex 8 [0x88, 0x00] ∧
      check bareScope [] 8 [0x00, 0x1a, 0x92, 0x0b] =
        .error (.unsupported (some 10) (Opcode.nameOf 0x92) "floating point") ∧
      check bareScope [] 8 [0x00, 0x1a, 0xfc, 0x88, 0x00, 0x0b] =
        .error (.unsupported (some 10) "memory.init" "bulk memory") := by
  have hspells : SpellsTokens [.instr .unreachable, .instr .drop] [0x00, 0x1a] :=
    ⟨[0x00], [0x1a], rfl, ⟨[], rfl, rfl⟩, [0x1a], [], rfl, ⟨[], rfl, rfl⟩, rfl⟩
  have hboundary : Boundary [0x00, 0x1a, 0x0b] 2 := ⟨by decide, _, hspells⟩
  have hindex : SpellsIndex 8 [0x88, 0x00] := ⟨⟨rfl, rfl⟩, by decide, by decide, by decide⟩
  have hrefused : Opcode.refused? 0x92 = some ⟨"f32.add", "floating point"⟩ := rfl
  have hlead : Opcode.isLead 0xfc = true := by decide
  have hok : check bareScope [] 8 ([0x00, 0x1a] ++ [closingByte]) = .ok _ :=
    (check_spelled_iff hspells).mpr ⟨_, ⟨_, rfl, _, rfl, rfl⟩, rfl⟩
  obtain ⟨hbytes, hleads⟩ := check_refuses_unsupported hok hboundary
  exact ⟨_, hok, hboundary, hrefused, hlead, hindex, hbytes _ _ hrefused [0x0b],
    hleads _ hlead 8 _ hindex [0x0b]⟩

end IntWasm.Structured
