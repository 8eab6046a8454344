import IntWasm.Proofs.Leb128.Runs

/-!
# The readers of integers accept the strict format and nothing else

The run at the front of a byte string ends at the first byte that announces no other one, so where
an integer ends and what it stands for are fixed before any width is looked at. A reader of some
width takes that run exactly if it is short enough and its number is in range; else it says whether
the input has ended too early or the integer is malformed. Main statement:
`Leb128.readers_are_strict`.
-/

namespace IntWasm.Leb128

/-! ## Where a run ends -/

/-- The place after the first byte that announces no other one. -/
def runEnd (bytes : List UInt8) : Option Nat :=
  (bytes.findIdx? fun b => ! continues b).map (· + 1)

/-- No bytes end no run. -/
@[simp] theorem runEnd_nil : runEnd [] = none := rfl

/-- A byte without the continuation bit ends the run. -/
theorem runEnd_cons_of_last {b : UInt8} (hb : continues b = false) (bs : List UInt8) :
    runEnd (b :: bs) = some 1 := by
  simp [runEnd, List.findIdx?_cons, hb]

/-- A byte with the continuation bit goes on. -/
theorem runEnd_cons_of_continues {b : UInt8} (hb : continues b = true) (bs : List UInt8) :
    runEnd (b :: bs) = (runEnd bs).map (· + 1) := by
  simp [runEnd, List.findIdx?_cons, hb]

/-- Where a byte string has a run at its front, that run reaches to the place where runs end. -/
theorem runEnd_eq_some_iff {bytes : List UInt8} {n : Nat} :
    runEnd bytes = some n ↔ ∃ run rest, bytes = run ++ rest ∧ IsRun run ∧ run.length = n := by
  induction bytes generalizing n with
  | nil =>
    constructor
    · intro h
      cases h
    · rintro ⟨run, rest, hsplit, hrun, -⟩
      exact absurd (List.append_eq_nil_iff.mp hsplit.symm).1 hrun.ne_nil
  | cons b bs ih =>
    -- A run is read off its first byte: it is that byte alone, or goes on with a run.
    cases hb : continues b with
    | false =>
      rw [runEnd_cons_of_last hb, Option.some.injEq]
      constructor
      · rintro rfl
        exact ⟨[b], bs, rfl, hb, rfl⟩
      · rintro ⟨run, rest, hsplit, hrun, rfl⟩
        cases run with
        | nil => exact absurd rfl hrun.ne_nil
        | cons d run =>
          obtain ⟨rfl, -⟩ : b = d ∧ bs = run ++ rest := by simpa using hsplit
          rcases isRun_cons.mp hrun with ⟨-, rfl⟩ | ⟨hd, -⟩
          · rfl
          · rw [hb] at hd
            cases hd
    | true =>
      rw [runEnd_cons_of_continues hb, Option.map_eq_some_iff]
      constructor
      · rintro ⟨m, hm, rfl⟩
        obtain ⟨run, rest, rfl, hrun, rfl⟩ := ih.mp hm
        exact ⟨b :: run, rest, rfl, isRun_cons.mpr (.inr ⟨hb, hrun⟩), rfl⟩
      · rintro ⟨run, rest, hsplit, hrun, rfl⟩
        cases run with
        | nil => exact absurd rfl hrun.ne_nil
        | cons d run =>
          obtain ⟨rfl, rfl⟩ : b = d ∧ bs = run ++ rest := by simpa using hsplit
          rcases isRun_cons.mp hrun with ⟨hd, -⟩ | ⟨-, htail⟩
          · rw [hb] at hd
            cases hd
          · exact ⟨run.length, ih.mpr ⟨run, rest, rfl, htail, rfl⟩, rfl⟩

/-! ## Two's complement as a sign extension -/

/-- The number of the payloads of a run, its highest bit taken for the sign. -/
def signExtended (run : List UInt8) : Int := Int.bmod (unsignedValue run) (128 ^ run.length)

/-- A run has seven bits for each of its bytes, the sign among them. -/
theorem signedValue_bounds {run : List UInt8} (hrun : IsRun run) :
    -64 * 128 ^ (run.length - 1) ≤ signedValue run ∧
      signedValue run < 64 * 128 ^ (run.length - 1) := by
  induction run with
  | nil => exact absurd rfl hrun.ne_nil
  | cons b bs ih =>
    rcases isRun_cons.mp hrun with ⟨-, rfl⟩ | ⟨-, hbs⟩
    · have hlow := le_signedGroup b
      have hhigh := signedGroup_lt b
      simpa [signedValue] using ⟨hlow, hhigh⟩
    · obtain ⟨hlow, hhigh⟩ := ih hbs
      have hgroup := group_lt b
      obtain ⟨k, hk⟩ := Nat.exists_eq_add_one.mpr hbs.length_pos
      rw [hk, Nat.add_sub_cancel] at hlow hhigh
      rw [List.length_cons, Nat.add_sub_cancel, signedValue_cons hbs, hk, pow_succ]
      omega

/-- The two readings of a run differ by a multiple of what its bits can hold. -/
theorem exists_unsignedValue_eq {run : List UInt8} (hrun : IsRun run) :
    ∃ m : Int, (unsignedValue run : Int) = signedValue run + m * 128 ^ run.length := by
  induction run with
  | nil => exact absurd rfl hrun.ne_nil
  | cons b bs ih =>
    rcases isRun_cons.mp hrun with ⟨-, rfl⟩ | ⟨-, hbs⟩
    · by_cases hsign : 64 ≤ group b
      · exact ⟨1, by simp [unsignedValue, signedValue, signedGroup, hsign]⟩
      · exact ⟨0, by simp [unsignedValue, signedValue, signedGroup, hsign]⟩
    · obtain ⟨m, hm⟩ := ih hbs
      refine ⟨m, ?_⟩
      rw [unsignedValue, signedValue_cons hbs, List.length_cons, pow_succ]
      push_cast
      rw [hm]
      ring

/-- Reading the last group with a sign is the same as extending the sign of all groups together. -/
theorem signedValue_eq_signExtended {run : List UInt8} (hrun : IsRun run) :
    signedValue run = signExtended run := by
  obtain ⟨hlow, hhigh⟩ := signedValue_bounds hrun
  obtain ⟨m, hm⟩ := exists_unsignedValue_eq hrun
  obtain ⟨k, hk⟩ := Nat.exists_eq_add_one.mpr hrun.length_pos
  have hhalf : ((128 ^ run.length : Nat) : Int) = 128 * 128 ^ (run.length - 1) := by
    rw [hk, Nat.add_sub_cancel]
    push_cast
    ring
  have hmod : (unsignedValue run : Int) = signedValue run + m * (128 ^ run.length : Nat) := by
    rw [hm]
    push_cast
    rfl
  rw [signExtended, hmod, Int.add_mul_bmod_self_right, Int.bmod_eq_of_le]
  · omega
  · omega

/-! ## What every reader of runs has in common -/

section Groups

variable {α β : Type}

/-- What a reader answers, without what it leaves: its value or its fault, and how far it has
come. -/
def answer : EStateM.Result ReadFault Cursor α → Except ReadFault α × Nat
  | .ok a c => (.ok a, c.consumed)
  | .error e c => (.error e.inside, c.consumed)

/-- The input ends before a run of the allowed length could end. -/
def EndsEarly (limit : Nat) (bytes : List UInt8) : Prop :=
  runEnd bytes = none ∧ bytes.length < limit

/-- A reader that looks at a limited number of bytes, and whose faults are an input that ends early
or else a malformed integer. -/
structure Bounded (limit : Nat) (r : Reader ReadFault α) : Prop where
  consumed_le : ∀ c, (finalState (r c)).consumed ≤ c.consumed + limit
  answer_take : ∀ c, answer (r c) = answer (r { c with rest := c.rest.take limit })
  fault_of : ∀ {c c' : Cursor} {fault : ReadFault}, c.ending = .eof → r c = .error fault c' →
    (EndsEarly limit c.rest ∧ fault.inside = .truncated) ∨
      (¬ EndsEarly limit c.rest ∧ fault.isMalformed = true)

/-- Mapping what is read keeps the bound. -/
theorem Bounded.map {limit : Nat} {r : Reader ReadFault α} (hr : Bounded limit r) (f : α → β) :
    Bounded limit (f <$> r) where
  consumed_le c := by
    have h := hr.consumed_le c
    simp only [Functor.map, EStateM.map]
    cases hresult : r c with
    | ok a c' => simpa [hresult, finalState] using h
    | error e c' => simpa [hresult, finalState] using h
  answer_take c := by
    have h := hr.answer_take c
    simp only [Functor.map, EStateM.map]
    cases hwhole : r c <;> cases htaken : r { c with rest := c.rest.take limit } <;>
      simp_all [answer]
  fault_of := by
    intro c c' fault hending herror
    simp only [Functor.map, EStateM.map] at herror
    cases hresult : r c with
    | ok a t =>
      rw [hresult] at herror
      cases herror
    | error e t =>
      rw [hresult] at herror
      cases herror
      exact hr.fault_of hending hresult

variable {refuses : UInt8 → Option ReadFault} {ends : UInt8 → α} {goesOn : UInt8 → α → α}

/-- With no group left to read the input cannot end too early. -/
theorem not_endsEarly_zero (bytes : List UInt8) : ¬ EndsEarly 0 bytes :=
  fun h => absurd h.2 (Nat.not_lt_zero _)

/-- A byte that continues leaves the end to those after it. -/
theorem endsEarly_cons {left : Nat} {b : UInt8} (hb : continues b = true) (bytes : List UInt8) :
    EndsEarly (left + 1) (b :: bytes) ↔ EndsEarly left bytes := by
  simp [EndsEarly, runEnd_cons_of_continues hb]

section Step

variable {left : Nat} (hrest : Bounded left (groups refuses ends goesOn left false))

include hrest

/-- No more bytes are taken than there may be groups. -/
theorem groups_consumed_le (first : Bool) (c : Cursor) :
    (finalState (groups refuses ends goesOn (left + 1) first c)).consumed ≤
      c.consumed + (left + 1) := by
  obtain ⟨rest, consumed, origin, ending⟩ := c
  cases rest with
  | nil =>
    obtain ⟨fault, hfault, -⟩ :=
      groups_nil refuses ends goesOn left first ⟨[], consumed, origin, ending⟩ rfl
    rw [hfault]
    simp [finalState]
  | cons b rest =>
    have hmore := (hrest.map (goesOn b)).consumed_le ⟨rest, consumed + 1, origin, ending⟩
    rw [groups_cons refuses ends goesOn left first b rest ⟨b :: rest, consumed, origin, ending⟩]
    simp only at hmore ⊢
    split
    · simp only [finalState]
      omega
    · split
      · simp only [finalState]
        omega
      · split
        · omega
        · simp only [finalState]
          omega

/-- Only the bytes that may be groups count. -/
theorem groups_answer_take (first : Bool) (c : Cursor) :
    answer (groups refuses ends goesOn (left + 1) first c) =
      answer (groups refuses ends goesOn (left + 1) first
        { c with rest := c.rest.take (left + 1) }) := by
  obtain ⟨rest, consumed, origin, ending⟩ := c
  cases rest with
  | nil => rfl
  | cons b rest =>
    have hmore := (hrest.map (goesOn b)).answer_take ⟨rest, consumed + 1, origin, ending⟩
    have htaken := groups_cons refuses ends goesOn left first b (rest.take left)
      ⟨b :: rest.take left, consumed, origin, ending⟩
    rw [groups_cons refuses ends goesOn left first b rest ⟨b :: rest, consumed, origin, ending⟩]
    simp only [List.take_succ_cons]
    rw [htaken]
    split
    · rfl
    · split
      · rfl
      · split
        · exact hmore
        · rfl

/-- A fault is a truncation where the input ends early, and malformed otherwise. -/
theorem groups_fault_of (hrefuses : ∀ b fault, refuses b = some fault → fault.isMalformed = true)
    {first : Bool} {c c' : Cursor} {fault : ReadFault} (hending : c.ending = .eof)
    (herror : groups refuses ends goesOn (left + 1) first c = .error fault c') :
    (EndsEarly (left + 1) c.rest ∧ fault.inside = .truncated) ∨
      (¬ EndsEarly (left + 1) c.rest ∧ fault.isMalformed = true) := by
  obtain ⟨rest, consumed, origin, ending⟩ := c
  simp only at hending
  subst hending
  cases rest with
  | nil =>
    obtain ⟨early, hearly, htruncated⟩ :=
      groups_nil refuses ends goesOn left first ⟨[], consumed, origin, .eof⟩ rfl
    rw [hearly] at herror
    cases herror
    exact .inl ⟨⟨rfl, Nat.succ_pos left⟩, htruncated rfl⟩
  | cons b rest =>
    rw [groups_cons refuses ends goesOn left first b rest ⟨b :: rest, consumed, origin, .eof⟩]
      at herror
    -- A byte fails because it asks for another where none may follow, or because it does not fit as
    -- the last one, or the ones behind it do.
    split at herror
    case isTrue hlast =>
      cases herror
      obtain ⟨rfl, hb⟩ := hlast
      exact .inr ⟨by rw [endsEarly_cons hb]; exact not_endsEarly_zero rest, rfl⟩
    case isFalse =>
      split at herror
      case h_1 hrefused =>
        cases herror
        obtain ⟨rfl, hfault⟩ : left = 0 ∧ refuses b = some fault := by
          split at hrefused
          · exact ⟨‹_›, hrefused⟩
          · cases hrefused
        refine .inr ⟨?_, hrefuses b fault hfault⟩
        rintro ⟨-, hshort⟩
        simp at hshort
      case h_2 =>
        split at herror
        case isTrue hb =>
          rw [endsEarly_cons hb]
          exact (hrest.map (goesOn b)).fault_of rfl herror
        case isFalse => cases herror

end Step

/-- Reading a run of a limited length looks at no more bytes than that, and the only fault besides a
malformed integer is an input that ends early. -/
theorem bounded_groups (hrefuses : ∀ b fault, refuses b = some fault → fault.isMalformed = true)
    (left : Nat) (first : Bool) : Bounded left (groups refuses ends goesOn left first) := by
  induction left generalizing first with
  | zero =>
    refine ⟨fun c => le_rfl, fun c => rfl, ?_⟩
    rintro c c' fault - ⟨⟩
    exact .inr ⟨not_endsEarly_zero _, rfl⟩
  | succ left ih =>
    exact ⟨groups_consumed_le (ih false) first, groups_answer_take (ih false) first,
      groups_fault_of (ih false) hrefuses⟩

end Groups

/-- An unsigned number has a bounded number of bytes. -/
theorem bounded_unsigned (bits : Nat) : Bounded (maxBytes bits) (unsigned bits) := by
  unfold unsigned
  rw [unsignedGroups_eq_groups]
  apply bounded_groups
  intro b fault hfault
  split at hfault
  · cases hfault
    rfl
  · cases hfault

/-- A signed number has a bounded number of bytes. -/
theorem bounded_signed (bits : Nat) : Bounded (maxBytes bits) (signed bits) := by
  unfold signed
  rw [signedGroups_eq_groups]
  apply bounded_groups
  intro b fault hfault
  split at hfault
  · cases hfault
  · cases hfault
    rfl

/-! ## Strictness -/

/-- The run at the front of a byte string ends at `n`, is short enough for a width, and stands for a
number of a range. -/
structure Admits (bits : Nat) (value : List UInt8 → Int) (low high : Int) (bytes : List UInt8)
    (n : Nat) : Prop where
  ends : runEnd bytes = some n
  le_maxBytes : n ≤ maxBytes bits
  low_le : low ≤ value (bytes.take n)
  lt_high : value (bytes.take n) < high

/-- A reader takes exactly the runs that are admitted, gives their number, and tells an input that
ends early from a malformed integer. -/
structure Strict {α : Type} (r : Reader ReadFault α) (number : α → Int) (bits : Nat)
    (value : List UInt8 → Int) (low high : Int) : Prop where
  ok_iff : ∀ bytes v n, decode r bytes = (.ok v, n) ↔
    Admits bits value low high bytes n ∧ number v = value (bytes.take n)
  succeeds : ∀ bytes n, Admits bits value low high bytes n → ∃ v, decode r bytes = (.ok v, n)
  fault_of : ∀ bytes, (∀ n, ¬ Admits bits value low high bytes n) →
    ∃ fault n, decode r bytes = (.error fault, n) ∧
      ((EndsEarly (maxBytes bits) bytes ∧ fault = .truncated) ∨
        (¬ EndsEarly (maxBytes bits) bytes ∧ fault.isMalformed = true))
  used_le : ∀ bytes, (decode r bytes).2 ≤ maxBytes bits
  decode_take : ∀ bytes, decode r bytes = decode r (bytes.take (maxBytes bits))

/-- Decoding bytes reads them from their beginning. -/
theorem decode_eq_answer {α : Type} (r : Reader ReadFault α) (bytes : List UInt8) :
    decode r bytes = answer (r { rest := bytes }) := rfl

/-- A reader of runs decodes the run at the front of a byte string. -/
theorem decode_eq_ok_iff {α : Type} {r : Reader ReadFault α} {P : α → List UInt8 → Prop}
    (hreads : ∀ {c c' : Cursor} {a : α}, r c = .ok a c' ↔
      ∃ run rest, c.rest = run ++ rest ∧ P a run ∧
        { c with rest, consumed := c.consumed + run.length } = c')
    {bytes : List UInt8} {a : α} {n : Nat} :
    decode r bytes = (.ok a, n) ↔ ∃ run rest, bytes = run ++ rest ∧ P a run ∧ run.length = n := by
  rw [decode_eq_answer]
  constructor
  · intro h
    cases hresult : r { rest := bytes } with
    | error fault c' =>
      rw [hresult] at h
      cases h
    | ok b c' =>
      obtain ⟨run, rest, hsplit, hspelled, rfl⟩ := hreads.mp hresult
      rw [hresult] at h
      simp only [answer, Nat.zero_add, Prod.mk.injEq, Except.ok.injEq] at h
      obtain ⟨rfl, rfl⟩ := h
      exact ⟨run, rest, hsplit, hspelled, rfl⟩
  · rintro ⟨run, rest, rfl, hspelled, rfl⟩
    have hresult := hreads.mpr
      ⟨run, rest, show ({ rest := run ++ rest } : Cursor).rest = _ from rfl, hspelled, rfl⟩
    rw [hresult]
    simp [answer]

/-- A reader of runs is strict if it looks at few enough bytes. -/
theorem strict_of_reads {α : Type} {r : Reader ReadFault α} {number : α → Int} {bits : Nat}
    {value : List UInt8 → Int} {low high : Int} {P : α → List UInt8 → Prop}
    (hbounded : Bounded (maxBytes bits) r)
    (hreads : ∀ {c c' : Cursor} {a : α}, r c = .ok a c' ↔
      ∃ run rest, c.rest = run ++ rest ∧ P a run ∧
        { c with rest, consumed := c.consumed + run.length } = c')
    (hspells : ∀ {a run}, P a run ↔ IsRun run ∧ run.length ≤ maxBytes bits ∧
      value run = number a ∧ low ≤ number a ∧ number a < high)
    (hnumber : ∀ i, low ≤ i → i < high → ∃ a, number a = i) :
    Strict r number bits value low high := by
  -- The successes are those of the runs; what is left is the class of the failures, which depends
  -- on nothing but where the input ends.
  have hok : ∀ bytes v n, decode r bytes = (.ok v, n) ↔
      Admits bits value low high bytes n ∧ number v = value (bytes.take n) := by
    intro bytes v n
    rw [decode_eq_ok_iff hreads]
    constructor
    · rintro ⟨run, rest, rfl, hspelled, rfl⟩
      obtain ⟨hrun, hlength, hvalue, hlow, hhigh⟩ := hspells.mp hspelled
      have htake : (run ++ rest).take run.length = run := List.take_left
      have hends := runEnd_eq_some_iff.mpr ⟨run, rest, rfl, hrun, rfl⟩
      exact ⟨⟨hends, hlength, by rwa [htake, hvalue], by rwa [htake, hvalue]⟩, by
        rw [htake, hvalue]⟩
    · rintro ⟨hadmits, hvalue⟩
      obtain ⟨run, rest, rfl, hrun, rfl⟩ := runEnd_eq_some_iff.mp hadmits.ends
      have htake : (run ++ rest).take run.length = run := List.take_left
      have hlow := hadmits.low_le
      have hhigh := hadmits.lt_high
      rw [htake] at hvalue hlow hhigh
      exact ⟨run, rest, rfl, hspells.mpr
        ⟨hrun, hadmits.le_maxBytes, hvalue.symm, by rwa [hvalue], by rwa [hvalue]⟩, rfl⟩
  refine ⟨hok, ?_, ?_, ?_, ?_⟩
  · intro bytes n hadmits
    obtain ⟨v, hv⟩ := hnumber _ hadmits.low_le hadmits.lt_high
    exact ⟨v, (hok bytes v n).mpr ⟨hadmits, hv⟩⟩
  · intro bytes hnone
    cases hresult : r { rest := bytes } with
    | ok a c' =>
      have hdecode : decode r bytes = (.ok a, c'.consumed) := by rw [decode_eq_answer, hresult]; rfl
      exact absurd ((hok _ _ _).mp hdecode).1 (hnone _)
    | error fault c' =>
      refine ⟨fault.inside, c'.consumed, by rw [decode_eq_answer, hresult]; rfl, ?_⟩
      rcases hbounded.fault_of rfl hresult with hearly | ⟨hlate, hmalformed⟩
      · exact .inl hearly
      · refine .inr ⟨hlate, ?_⟩
        cases fault <;> exact hmalformed
  · intro bytes
    have h := hbounded.consumed_le { rest := bytes }
    rw [decode_eq_answer]
    cases hresult : r { rest := bytes } <;> simpa [hresult, answer, finalState] using h
  · exact fun bytes => hbounded.answer_take { rest := bytes }

/-- A number of 64 bits is read exactly from its spellings. -/
theorem u64_eq_ok_iff {c c' : Cursor} {v : UInt64} :
    u64 c = .ok v c' ↔
      ∃ run rest, c.rest = run ++ rest ∧ SpellsUnsigned 64 v.toNat run ∧
        { c with rest, consumed := c.consumed + run.length } = c' := by
  simp only [u64_eq, estate_bind_eq_ok, estate_pure_eq_ok,
    unsigned_eq_ok_iff (show 0 < 64 by decide)]
  constructor
  · rintro ⟨n, _, ⟨run, rest, hrest, hrun, rfl⟩, rfl, rfl⟩
    refine ⟨run, rest, hrest, ?_, rfl⟩
    have hlt : n < 18446744073709551616 := hrun.value_lt
    simpa [Nat.mod_eq_of_lt hlt] using hrun
  · rintro ⟨run, rest, hrest, hrun, rfl⟩
    exact ⟨v.toNat, _, ⟨run, rest, hrest, hrun, rfl⟩, by simp, rfl⟩

/-- An unsigned run, with its number among the integers. -/
theorem spellsUnsigned_iff {bits n : Nat} {run : List UInt8} :
    SpellsUnsigned bits n run ↔ IsRun run ∧ run.length ≤ maxBytes bits ∧
      (unsignedValue run : Int) = n ∧ (0 : Int) ≤ n ∧ (n : Int) < 2 ^ bits := by
  constructor
  · intro h
    have hlt : ((n : Nat) : Int) < ((2 ^ bits : Nat) : Int) := Int.ofNat_lt.mpr h.value_lt
    exact ⟨h.isRun, h.length_le, by rw [h.value_eq], Int.natCast_nonneg n, by
      push_cast at hlt; exact hlt⟩
  · rintro ⟨hrun, hlength, hvalue, -, hlt⟩
    have hlt' : ((n : Nat) : Int) < ((2 ^ bits : Nat) : Int) := by push_cast; exact hlt
    exact ⟨hrun, hlength, Int.ofNat_inj.mp hvalue, Int.ofNat_lt.mp hlt'⟩

/-- A signed run, its number found by extending the sign. -/
theorem spellsSigned_iff {bits : Nat} {i : Int} {run : List UInt8} :
    SpellsSigned bits i run ↔ IsRun run ∧ run.length ≤ maxBytes bits ∧
      signExtended run = i ∧ -2 ^ (bits - 1) ≤ i ∧ i < 2 ^ (bits - 1) := by
  constructor
  · intro h
    exact ⟨h.isRun, h.length_le, by rw [← signedValue_eq_signExtended h.isRun, h.value_eq],
      h.le_value, h.value_lt⟩
  · rintro ⟨hrun, hlength, hvalue, hlow, hhigh⟩
    exact ⟨hrun, hlength, by rw [signedValue_eq_signExtended hrun, hvalue], hlow, hhigh⟩

/-- Every reader takes the run at the front of its input exactly if the run has at most as many
bytes as the width needs and its number, the payloads in base 128 with the sign extended for a
signed width, is in the range of the width. -/
theorem readers_are_strict :
    Strict u32 (fun v => (v.toNat : Int)) 32 (fun run => unsignedValue run) 0 (2 ^ 32) ∧
    Strict u64 (fun v => (v.toNat : Int)) 64 (fun run => unsignedValue run) 0 (2 ^ 64) ∧
    Strict s32 Int32.toInt 32 signExtended (-2 ^ 31) (2 ^ 31) ∧
    Strict s33 id 33 signExtended (-2 ^ 32) (2 ^ 32) ∧
    Strict s64 Int64.toInt 64 signExtended (-2 ^ 63) (2 ^ 63) := by
  refine ⟨?u32, ?u64, ?s32, ?s33, ?s64⟩
  case u32 =>
    have hbounded : Bounded (maxBytes 32) u32 := u32_eq ▸ (bounded_unsigned 32).map _
    refine strict_of_reads hbounded u32_eq_ok_iff spellsUnsigned_iff ?_
    intro i hlow hhigh
    exact ⟨UInt32.ofNat i.toNat, by simp; omega⟩
  case u64 =>
    have hbounded : Bounded (maxBytes 64) u64 := u64_eq ▸ (bounded_unsigned 64).map _
    refine strict_of_reads hbounded u64_eq_ok_iff spellsUnsigned_iff ?_
    intro i hlow hhigh
    exact ⟨UInt64.ofNat i.toNat, by simp; omega⟩
  case s32 =>
    have hbounded : Bounded (maxBytes 32) s32 := s32_eq ▸ (bounded_signed 32).map _
    refine strict_of_reads hbounded s32_eq_ok_iff spellsSigned_iff ?_
    intro i hlow hhigh
    exact ⟨Int32.ofInt i, Int32.toInt_ofInt_of_le hlow hhigh⟩
  case s33 =>
    rw [s33_eq]
    exact strict_of_reads (bounded_signed 33) (signed_eq_ok_iff (by decide)) spellsSigned_iff
      fun i _ _ => ⟨i, rfl⟩
  case s64 =>
    have hbounded : Bounded (maxBytes 64) s64 := s64_eq ▸ (bounded_signed 64).map _
    refine strict_of_reads hbounded s64_eq_ok_iff spellsSigned_iff ?_
    intro i hlow hhigh
    exact ⟨Int64.ofInt i, Int64.toInt_ofInt_of_le hlow hhigh⟩

/-- A run padded to full length is read, one bit beyond the width is refused, and a run that is cut
off is told from one that is too long. -/
example : decode u32 [0x80, 0x80, 0x80, 0x80, 0x0f, 0x01] = (.ok 0xf0000000, 5) ∧
    decode u32 [0x80, 0x80, 0x80, 0x80, 0x10] = (.error .tooLarge, 5) ∧
    decode s33 [0xff, 0xff, 0xff, 0xff, 0x6f] = (.error .signBits, 5) ∧
    decode s64 [0x80, 0x80] = (.error .truncated, 2) := by decide

end IntWasm.Leb128
