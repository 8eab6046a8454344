import IntWasm.Proofs.Leb128.Appending

/-!
# Shortest runs

Of all runs of one length no two stand for the same number, so a number has a single shortest run:
the one that is written for it. Main statements: `Leb128.Shortest.eq_encodeNat` and
`Leb128.Shortest.eq_encodeInt`.
-/

namespace IntWasm.Leb128

/-- A byte string of a kind, of which no byte string of that kind is shorter. -/
def Shortest (P : List UInt8 → Prop) (run : List UInt8) : Prop :=
  P run ∧ ∀ other, P other → run.length ≤ other.length

/-- A byte is made of its group and the bit that announces another byte. -/
theorem eq_of_group_eq {a b : UInt8} (hgroup : group a = group b)
    (hmore : continues a = continues b) : a = b := by
  have ha := a.toNat_lt
  have hb := b.toNat_lt
  simp only [continues, decide_eq_decide] at hmore
  unfold group at hgroup
  apply UInt8.toNat_inj.mp
  omega

/-- Runs of one length are told apart by their numbers. -/
theorem eq_of_unsignedValue_eq {as bs : List UInt8} (has : IsRun as) (hbs : IsRun bs)
    (hlength : as.length = bs.length) (hvalue : unsignedValue as = unsignedValue bs) : as = bs := by
  induction as generalizing bs with
  | nil => exact absurd rfl has.ne_nil
  | cons a as ih =>
    cases bs with
    | nil => exact absurd rfl hbs.ne_nil
    | cons b bs =>
      have hlength' : as.length = bs.length := by simpa using hlength
      simp only [unsignedValue] at hvalue
      have ha := group_lt a
      have hb := group_lt b
      have hgroup : group a = group b := by omega
      have hrest : unsignedValue as = unsignedValue bs := by omega
      rcases isRun_cons.mp has with ⟨hlast, rfl⟩ | ⟨hmore, has'⟩
      · obtain rfl : bs = [] := List.length_eq_zero_iff.mp hlength'.symm
        have hlast' : continues b = false := hbs
        rw [eq_of_group_eq hgroup (hlast.trans hlast'.symm)]
      · rcases isRun_cons.mp hbs with ⟨-, rfl⟩ | ⟨hmore', hbs'⟩
        · exact absurd (List.length_eq_zero_iff.mp hlength') has'.ne_nil
        · rw [eq_of_group_eq hgroup (hmore.trans hmore'.symm), ih has' hbs' hlength' hrest]

/-- Runs of one length are told apart by their numbers in two's complement, too. -/
theorem eq_of_signedValue_eq {as bs : List UInt8} (has : IsRun as) (hbs : IsRun bs)
    (hlength : as.length = bs.length) (hvalue : signedValue as = signedValue bs) : as = bs := by
  obtain ⟨m, hm⟩ := exists_unsignedValue_eq has
  obtain ⟨n, hn⟩ := exists_unsignedValue_eq hbs
  rw [← hlength] at hn
  have hmod : (unsignedValue as : Int) % 128 ^ as.length = unsignedValue bs % 128 ^ as.length := by
    rw [hm, hn, hvalue, Int.add_mul_emod_self_right, Int.add_mul_emod_self_right]
  have hlow := unsignedValue_lt as
  have hhigh := unsignedValue_lt bs
  rw [← hlength] at hhigh
  apply eq_of_unsignedValue_eq has hbs hlength
  have hnat : unsignedValue as % 128 ^ as.length = unsignedValue bs % 128 ^ as.length := by
    exact_mod_cast hmod
  rwa [Nat.mod_eq_of_lt hlow, Nat.mod_eq_of_lt hhigh] at hnat

/-- The shortest run for an unsigned number of 32 bits is the one that is written. -/
theorem Shortest.eq_encodeNat {n : Nat} {run : List UInt8}
    (hrun : Shortest (SpellsUnsigned 32 n) run) : run = encodeNat n := by
  obtain ⟨hspells, hleast⟩ := hrun
  have hwritten := spellsUnsigned_encodeNat hspells.value_lt
  have hlength : run.length = (encodeNat n).length :=
    le_antisymm (hleast _ hwritten) (hspells.length_encodeNat_le le_rfl)
  apply eq_of_unsignedValue_eq hspells.isRun hwritten.isRun hlength
  rw [hspells.value_eq, hwritten.value_eq]

/-- The shortest run for a signed number is the one that is written, if that is one for its
width. -/
theorem Shortest.eq_encodeInt {bits : Nat} {i : Int} {run : List UInt8}
    (hrun : Shortest (SpellsSigned bits i) run) (hwritten : SpellsSigned bits i (encodeInt i)) :
    run = encodeInt i := by
  obtain ⟨hspells, hleast⟩ := hrun
  have hlength : run.length = (encodeInt i).length :=
    le_antisymm (hleast _ hwritten) hspells.length_encodeInt_le
  apply eq_of_signedValue_eq hspells.isRun hwritten.isRun hlength
  rw [hspells.value_eq, hwritten.value_eq]

end IntWasm.Leb128
