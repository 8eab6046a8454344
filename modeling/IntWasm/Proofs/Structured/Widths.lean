import IntWasm.Proofs.Structured.Simulation

/-!
# Words of the right width

Every operand is kept in a word of 64 bits, whatever its type is. A word admits a type if it can
stand for a value of that type: the high half of the word of a 32-bit integer is zero. An activation
is typed if all its operands and locals admit the types that the chart of its body and the
declarations of its locals give them. Main statement: `Typed.step`, one instruction of a typed
activation.
-/

namespace IntWasm

/-- A word can stand for a value of a type: for a 32-bit integer, its high half is zero. -/
def ValueType.Admits (type : ValueType) (w : UInt64) : Prop := type = .i32 → w.toNat < 2 ^ 32

/-- Words can stand for values of types, one by one. -/
abbrev Admitted (types : List ValueType) (words : List UInt64) : Prop :=
  List.Forall₂ ValueType.Admits types words

/-! ## Words of numbers -/

/-- A word of 32 bits is admitted by every type. -/
theorem ValueType.admits_of_lt {w : UInt64} (hlt : w.toNat < 2 ^ 32) (type : ValueType) :
    type.Admits w := fun _ => hlt

/-- So is zero. -/
theorem ValueType.admits_zero (type : ValueType) : type.Admits 0 :=
  admits_of_lt (by decide) type

/-- Any word is one of 64 bits. -/
theorem ValueType.admits_i64 (w : UInt64) : ValueType.Admits .i64 w := fun h => by cases h

/-- A word that was made of 32 bits is admitted by every type. -/
theorem ValueType.admits_toUInt64 (type : ValueType) (w : UInt32) : type.Admits w.toUInt64 :=
  admits_of_lt (by rw [UInt32.toNat_toUInt64]; exact w.toNat_lt) type

/-- A truth value is admitted by every type. -/
theorem ValueType.admits_boolWord (type : ValueType) (b : Bool) : type.Admits (boolWord b) :=
  admits_of_lt (by cases b <;> decide) type

/-- An integer leaves the bits above its own zero. -/
theorem toNat_toWord_lt {n : Nat} (hle : n ≤ 64) (x : BitVec n) : (toWord x).toNat < 2 ^ n := by
  have hlt := x.isLt
  have hpow : 2 ^ n ≤ 2 ^ 64 := Nat.pow_le_pow_right (by decide) hle
  simp only [toWord, UInt64.toNat_ofBitVec, BitVec.toNat_setWidth]
  rwa [Nat.mod_eq_of_lt (by omega)]

/-- Bits of a type are admitted by it. -/
theorem IntType.admits_toWord (type : IntType) (x : BitVec type.bits) :
    type.valueType.Admits (toWord x) := by
  intro htype
  cases type with
  | i32 => exact toNat_toWord_lt (by decide) x
  | i64 => cases htype

/-- The word of a value is admitted by its type, as 32 bits are cut off. -/
theorem Value.admits_word (type : ValueType) (bits : UInt64) :
    type.Admits (Value.word type bits) := by
  intro htype
  rw [Value.word, if_pos htype]
  exact ValueType.admits_toUInt64 type _ htype

/-- Arithmetic gives a word of its type. -/
theorem Numeric.admits_arithWord {type : IntType} {op : Arith} {a b v : UInt64}
    (hok : arithWord type op a b = .ok v) : type.valueType.Admits v := by
  simp only [arithWord, except_bind_eq_ok, except_pure_eq_ok] at hok
  obtain ⟨x, -, rfl⟩ := hok
  exact type.admits_toWord x

/-- The bytes that are read fill the low end of a word. -/
theorem toNat_loadWord_lt (bytes : ByteArray) (i width : Nat) :
    (loadWord bytes i width).toNat < 2 ^ (8 * width) := by
  induction width generalizing i with
  | zero => exact Nat.one_pos
  | succ width ih =>
    have hmore := ih (i + 1)
    have hbyte := (byteAt bytes i).toNat_lt
    have hpow : 2 ^ (8 * (width + 1)) = 2 ^ (8 * width) * 2 ^ 8 := by rw [← Nat.pow_add]; rfl
    simp only [loadWord, UInt64.toNat_or, UInt8.toNat_toUInt64, UInt64.toNat_shiftLeft]
    refine Nat.or_lt_two_pow (Nat.lt_of_lt_of_le hbyte ?_) ?_
    · exact Nat.pow_le_pow_right (by decide) (by omega)
    · refine Nat.lt_of_le_of_lt (Nat.mod_le _ _) ?_
      rw [Nat.shiftLeft_eq, hpow]
      exact Nat.mul_lt_mul_of_pos_right hmore (by decide)

/-- What a load gives fills at most its type. -/
theorem LoadForm.admits_extend (access : LoadForm) (bytes : ByteArray) (i : Nat) :
    (Structured.loadType access).valueType.Admits
      (access.extend (loadWord bytes i access.width)) := by
  have hlt := toNat_loadWord_lt bytes i access.width
  cases access with
  | full type =>
    intro htype
    cases type with
    | i32 => exact hlt
    | i64 => cases htype
  | part type size sign =>
    cases sign with
    | unsigned =>
      refine ValueType.admits_of_lt (Nat.lt_of_lt_of_le hlt ?_) _
      cases size <;> exact Nat.pow_le_pow_right (by decide) (by simp [LoadForm.width])
    | signed => exact type.admits_toWord _
  | word sign => exact ValueType.admits_i64 _

/-! ## Operands -/

namespace Activation

/-- What was taken was on top. -/
theorem pop_eq_ok {f f' : Activation} {v : UInt64} (hok : f.pop = .ok (v, f')) :
    ∃ operands, f.operands = v :: operands ∧ f' = { f with operands } := by
  unfold pop at hok
  split at hok
  · cases hok
  · rename_i hoperands
    cases hok
    exact ⟨_, hoperands, rfl⟩

/-- Two operands that were taken were on top, the second one above the first. -/
theorem pop2_eq_ok {f f' : Activation} {a b : UInt64} (hok : f.pop2 = .ok (a, b, f')) :
    ∃ operands, f.operands = b :: a :: operands ∧ f' = { f with operands } := by
  unfold pop2 at hok
  split at hok
  · rename_i hoperands
    cases hok
    exact ⟨_, hoperands, rfl⟩
  · cases hok

/-- What was put on the stack is on top. -/
theorem push_eq_ok {f f' : Activation} {v : UInt64} (hok : f.push v = .ok f') :
    f' = { f with operands := v :: f.operands } := by
  unfold push at hok
  split at hok
  · cases hok
    rfl
  · cases hok

/-- A constant is on top. -/
theorem constant_eq_ok {f : Activation} {v : UInt64} {next : Next} (hok : f.constant v = .ok next) :
    next = .go { f with operands := v :: f.operands } := by
  simp only [constant, except_bind_eq_ok, except_pure_eq_ok] at hok
  obtain ⟨f', hpush, rfl⟩ := hok
  rw [push_eq_ok hpush]

/-- An operand was replaced by its image. -/
theorem unary_eq_ok {f : Activation} {op : UInt64 → UInt64} {next : Next}
    (hok : f.unary op = .ok next) :
    ∃ a operands, f.operands = a :: operands ∧
    next = .go { f with operands := op a :: operands } := by
  simp only [unary, except_bind_eq_ok, except_pure_eq_ok, Prod.exists] at hok
  obtain ⟨a, f', hpop, f'', hpush, rfl⟩ := hok
  obtain ⟨operands, hoperands, rfl⟩ := pop_eq_ok hpop
  exact ⟨a, operands, hoperands, by rw [push_eq_ok hpush]⟩

/-- Two operands were replaced by what the operation gave. -/
theorem binary_eq_ok {f : Activation} {op : UInt64 → UInt64 → Except Trap UInt64} {next : Next}
    (hok : f.binary op = .ok next) : ∃ a b operands v, f.operands = b :: a :: operands ∧
      op a b = .ok v ∧ next = .go { f with operands := v :: operands } := by
  simp only [binary, except_bind_eq_ok, Prod.exists] at hok
  obtain ⟨a, b, f', hpop, hok⟩ := hok
  obtain ⟨operands, hoperands, rfl⟩ := pop2_eq_ok hpop
  split at hok
  · rename_i v hv
    simp only [except_bind_eq_ok, except_pure_eq_ok] at hok
    obtain ⟨f'', hpush, rfl⟩ := hok
    exact ⟨a, b, operands, v, hoperands, hv, by rw [push_eq_ok hpush]⟩
  · simp at hok

/-- A local that was read is there. -/
theorem getLocal_eq_ok {f : Activation} {i : UInt32} {v : UInt64} (hok : f.getLocal i = .ok v) :
    f.locals[i.toNat]? = some v := by
  unfold getLocal at hok
  split at hok
  · cases hok
  · split at hok
    · rename_i hv
      cases hok
      exact hv
    · cases hok

/-- Only the local that was set has changed. -/
theorem setLocal_eq_ok {f f' : Activation} {i : UInt32} {v : UInt64}
    (hok : f.setLocal i v = .ok f') :
    f' = { f with locals := f.locals.setIfInBounds i.toNat v } := by
  unfold setLocal at hok
  split at hok
  · cases hok
  · split at hok
    · cases hok
      rfl
    · cases hok

/-- The results are the topmost operands. -/
theorem results_eq_ok {f : Activation} {words : List UInt64} (hok : f.results = .ok words) :
    words = f.operands.take f.function.type.results.length := by
  simp only [results] at hok
  split at hok
  · cases hok
  · split at hok
    · cases hok
    · cases hok
      rfl

end Activation

/-! ## The store -/

namespace Exec

variable {H σ α : Type} {inst : Instance H} {s s' : Store H σ} {v : UInt64}

/-- A computation in the store that has succeeded has succeeded in the activation. -/
theorem lift_eq_ok {r : Except Stop α} {a : α} (hok : lift r s = .ok a s') : r = .ok a := by
  cases r with
  | error stop => cases hok
  | ok a' =>
    obtain ⟨rfl, -⟩ := EStateM.Result.ok.inj hok
    rfl

/-- The bits that were read are those of the global. -/
theorem getGlobal_eq_ok {i : UInt32} (hok : getGlobal inst i s = .ok v s') :
    ∃ address g, inst.globals[i.toNat]? = some address ∧ s.globals[address]? = some g ∧
    v = g.bits := by
  unfold getGlobal at hok
  split at hok
  · rename_i g hg
    obtain ⟨address, haddress, hat⟩ := Option.bind_eq_some_iff.mp hg
    obtain ⟨rfl, -⟩ := EStateM.Result.ok.inj hok
    exact ⟨address, g, haddress, hat, rfl⟩
  · cases hok

/-- A word that was loaded consists of as many bytes as the load is wide. -/
theorem load_eq_ok {base offset : UInt32} {width : Nat}
    (hok : load inst base offset width s = .ok v s') :
    ∃ bytes start, v = loadWord bytes start width := by
  obtain ⟨address, t, -, hok⟩ := estate_bind_eq_ok.mp hok
  split at hok
  · cases hok
  · rename_i m _
    split at hok
    · rename_i w hload
      obtain ⟨rfl, -⟩ := EStateM.Result.ok.inj hok
      unfold Memory.load at hload
      split at hload
      · obtain rfl := Except.ok.inj hload
        exact ⟨m.bytes, _, rfl⟩
      · cases hload
    · cases hok

/-- A size is a number of pages. -/
theorem memorySize_eq_ok (hok : memorySize inst s = .ok v s') :
    ∃ pages : UInt32, v = pages.toUInt64 := by
  obtain ⟨address, t, -, hok⟩ := estate_bind_eq_ok.mp hok
  split at hok
  · cases hok
  · obtain ⟨rfl, -⟩ := EStateM.Result.ok.inj hok
    exact ⟨_, rfl⟩

/-- The answer to growing a memory is its size before or all ones. -/
theorem memoryGrow_eq_ok {pages : UInt32} (hok : memoryGrow inst pages s = .ok v s') :
    ∃ answer : UInt32, v = answer.toUInt64 := by
  obtain ⟨address, t, -, hok⟩ := estate_bind_eq_ok.mp hok
  split at hok
  · obtain ⟨rfl, -⟩ := EStateM.Result.ok.inj hok
    exact ⟨_, rfl⟩
  · obtain ⟨rfl, -⟩ := EStateM.Result.ok.inj hok
    exact ⟨0xffffffff, rfl⟩

/-- An indirect call reaches only functions of the type that it names. -/
theorem indirect_eq_ok {slot type function : UInt32}
    (hok : indirect inst slot type s = .ok function s') :
    ∃ expected, inst.types[type.toNat]? = some expected ∧
    inst.signature? function = some expected := by
  unfold indirect at hok
  cases htable : inst.table with
  | none => simp [htable] at hok
  | some table =>
    cases hlookup : table.lookup slot with
    | error t => simp [htable, hlookup] at hok
    | ok found =>
      cases hexpected : inst.types[type.toNat]? with
      | none => simp [htable, hlookup, hexpected] at hok
      | some expected =>
        cases hactual : inst.signature? found with
        | none => simp [htable, hlookup, hexpected, hactual] at hok
        | some actual =>
          simp only [htable, hlookup, hexpected, hactual] at hok
          by_cases hsame : actual = expected
          · rw [if_pos hsame] at hok
            obtain ⟨rfl, -⟩ := EStateM.Result.ok.inj hok
            exact ⟨expected, rfl, by rw [hactual, hsame]⟩
          · rw [if_neg hsame] at hok
            cases hok

end Exec

end IntWasm
