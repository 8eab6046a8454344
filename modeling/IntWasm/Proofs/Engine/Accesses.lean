import IntWasm.Engine.Invoke
import IntWasm.Proofs.Engine.Dispatch
import IntWasm.Proofs.Memory.Bytes
import IntWasm.Proofs.Opcode
import IntWasm.Proofs.Structured.Typing

/-!
# Accesses to a memory

An instruction that loads or stores does so exactly if all of its bytes lie inside the memory, and
then with the least significant byte first. A load depends on the bytes at its address alone, and a
store changes no others, so what is read back is known byte by byte, also where accesses of
different widths overlap. Main statement: `accesses_are_little_endian`.
-/

namespace IntWasm

/-! ## What loads give -/

/-- Whether a load takes the number that it reads as signed and narrower than what it gives. -/
def LoadForm.extendsSign : LoadForm → Bool
  | part _ _ .signed | word .signed => true
  | full _ | part _ _ .unsigned | word .unsigned => false

/-- The integer that a load takes the number that it reads for. -/
def LoadForm.meaning (access : LoadForm) (n : Nat) : Int :=
  if access.extendsSign then Int.bmod n (256 ^ access.width) else n

/-- The word of an integer of a given type. -/
def IntType.wordOf (type : IntType) (z : Int) : UInt64 := UInt64.ofNat (z % 2 ^ type.bits).toNat

/-- The operand that a load gives for the number that its bytes spell. -/
def LoadForm.operand (access : LoadForm) (n : Nat) : UInt64 :=
  (Structured.loadType access).wordOf (access.meaning n)

/-- A word of the type's bits is the word of its number. -/
theorem IntType.wordOf_toNat (type : IntType) {w : UInt64} (hw : w.toNat < 2 ^ type.bits) :
    type.wordOf (w.toNat : Int) = w := by
  have hmod : ((w.toNat : Int) % 2 ^ type.bits).toNat = w.toNat := by
    have hcast : ((w.toNat : Int) % 2 ^ type.bits) = ((w.toNat % 2 ^ type.bits : Nat) : Int) := by
      push_cast
      rfl
    rw [hcast, Int.toNat_natCast, Nat.mod_eq_of_lt hw]
  rw [wordOf, hmod, UInt64.ofNat_toNat]

/-- Extending the low bits of a word keeps the signed number that they stand for. -/
theorem Numeric.signExtendWord_eq (type : IntType) {bits : Nat} (hbits : bits ≤ type.bits)
    {w : UInt64} (hw : w.toNat < 2 ^ bits) :
    signExtendWord type bits w = type.wordOf (Int.bmod w.toNat (2 ^ bits)) := by
  have hpow : 2 ^ bits ≤ 2 ^ type.bits := Nat.pow_le_pow_right (by decide) hbits
  have hlow : (((ofWord type.bits w).setWidth bits).toNat : Int) = w.toNat := by
    rw [BitVec.toNat_setWidth, ofWord, BitVec.toNat_setWidth]
    change ((w.toNat % 2 ^ type.bits % 2 ^ bits : Nat) : Int) = w.toNat
    rw [Nat.mod_eq_of_lt (Nat.lt_of_lt_of_le hw hpow), Nat.mod_eq_of_lt hw]
  have hextended : signExtend bits (ofWord type.bits w) =
      BitVec.ofInt type.bits (Int.bmod w.toNat (2 ^ bits)) := by
    rw [signExtend, BitVec.signExtend, BitVec.toInt_eq_toNat_bmod, hlow]
  refine UInt64.toNat_inj.1 ?_
  rw [signExtendWord, hextended, toWord, IntType.wordOf, UInt64.toNat_ofBitVec,
    BitVec.toNat_setWidth, UInt64.toNat_ofNat', BitVec.toNat_ofInt]
  push_cast
  rfl

/-- A load is eight bytes wide at most. -/
theorem LoadForm.width_le (access : LoadForm) : access.width ≤ 8 := by
  rcases access with (_ | _) | ⟨_, _ | _, _⟩ | _ <;> simp [width]

/-- A load gives an operand for the integer that it reads. -/
theorem LoadForm.extend_eq_operand (access : LoadForm) {w : UInt64}
    (hw : w.toNat < 256 ^ access.width) : access.extend w = access.operand w.toNat := by
  cases access with
  | full type =>
    refine (IntType.wordOf_toNat type ?_).symm
    cases type <;> exact hw
  | part type size sign =>
    have hle : size.bits ≤ type.bits := by cases size <;> cases type <;> decide
    have hpow : 256 ^ (part type size sign).width = 2 ^ size.bits := by cases size <;> rfl
    rw [hpow] at hw
    cases sign with
    | unsigned =>
      exact (IntType.wordOf_toNat type
        (Nat.lt_of_lt_of_le hw (Nat.pow_le_pow_right (by decide) hle))).symm
    | signed =>
      rw [operand, meaning, hpow]
      exact Numeric.signExtendWord_eq type hle hw
  | word sign =>
    have hpow : 256 ^ (word sign).width = 2 ^ 32 := rfl
    rw [hpow] at hw
    cases sign with
    | unsigned => exact (IntType.wordOf_toNat .i64 (Nat.lt_trans hw (by decide))).symm
    | signed =>
      rw [operand, meaning, hpow, if_pos (show (word .signed).extendsSign = true from rfl)]
      exact Numeric.signExtendWord_eq .i64 (by decide) hw

/-! ## What stores leave -/

/-- Bytes after the low ones of a number were put at a place. -/
structure Stored (before after : ByteArray) (start width n : Nat) : Prop where
  size_eq : after.size = before.size
  inside : ∀ k < width, byteAt after (start + k) = byteOf n k
  outside : ∀ i, i < start ∨ start + width ≤ i → byteAt after i = byteAt before i

/-- A word that fits is stored in its bytes. -/
theorem stored_storeWord {bytes : ByteArray} {start width : Nat} (w : UInt64)
    (hfits : start + width ≤ bytes.size) :
    Stored bytes (storeWord bytes start w width) start width w.toNat where
  size_eq := size_storeWord ..
  inside k hk := by
    rw [byteAt_storeWord hfits, if_pos (by omega), Nat.add_sub_cancel_left]
  outside i hi := by rw [byteAt_storeWord hfits, if_neg (by omega)]

namespace Stored

variable {before after : ByteArray} {start width n : Nat}

/-- The bytes of a word that was stored, and the others as they were. -/
theorem byteAt_eq (hstored : Stored before after start width n) (i : Nat) :
    byteAt after i =
      if start ≤ i ∧ i < start + width then byteOf n (i - start) else byteAt before i := by
  by_cases hi : start ≤ i ∧ i < start + width
  · have hbyte := hstored.inside (i - start) (by omega)
    rwa [if_pos hi, ← show start + (i - start) = i by omega, Nat.add_sub_cancel_left]
  · rw [if_neg hi, hstored.outside i (by omega)]

/-- A number of the same width is read back modulo its width. -/
theorem littleEndian_eq (hstored : Stored before after start width n) :
    littleEndian after start width = n % 256 ^ width :=
  littleEndian_of_bytes hstored.inside

end Stored

/-! ## Instructions -/

/-- The address of an access from a base. Both numbers have 32 bits, and their sum does not wrap
around. -/
def Instruction.effective (i : Instruction) (base : UInt64) : Nat :=
  base.toUInt32.toNat + i.index.toNat

/-- An access is outside exactly if its effective address and width go past the end. -/
theorem Memory.address_effective (m : Memory) (i : Instruction) (base : UInt64) (width : Nat) :
    m.address base.toUInt32 i.index width =
      if m.bytes.size < i.effective base + width then .error .memoryOutOfBounds
      else .ok (i.effective base) := rfl

namespace Activation

variable {H σ : Type} {inst : Instance H} {s : Store H σ} {place : Nat} {m : Memory}
  {f : Activation} {i : Instruction} {base : UInt64} {rest : List UInt64}

/-- A load traps, or it gives an operand for the number that the bytes at its address spell. -/
theorem step_load {access : LoadForm} (hmemory : inst.memory = some place)
    (hm : s.memories[place]? = some m) (hop : i.op? = some (.load access))
    (hoperands : f.operands = base :: rest) (hroom : f.operands.length ≤ f.room) :
    step inst f i s =
      if m.bytes.size < i.effective base + access.width then .error (.trap .memoryOutOfBounds) s
      else
        .ok
          (.go { f with
            operands :=
              access.operand (littleEndian m.bytes (i.effective base) access.width) :: rest })
                s := by
  have hconstant (v : UInt64) : Activation.constant { f with operands := rest } v =
      .ok (.go { f with operands := v :: rest }) := constant_eq (by simpa [hoperands] using hroom)
  have hspelled := toNat_loadWord m.bytes (i.effective base) access.width_le
  have hextend := access.extend_eq_operand
    (by rw [hspelled]; exact littleEndian_lt m.bytes (i.effective base) access.width)
  rw [step_of_op hop]
  simp only [pop, hoperands, Exec.lift, Exec.load, Exec.memory, hmemory, Memory.load,
    bind, EStateM.bind, pure, EStateM.pure, hm, m.address_effective]
  by_cases hbounds : m.bytes.size < i.effective base + access.width
  · simp only [if_pos hbounds]
  · simp only [if_neg hbounds, hconstant, hextend, hspelled]

/-- A store traps, or it writes its operand at its address. -/
theorem step_store {access : StoreForm} {w : UInt64} (hmemory : inst.memory = some place)
    (hm : s.memories[place]? = some m) (hop : i.op? = some (.store access))
    (hoperands : f.operands = w :: base :: rest) :
    step inst f i s =
      if m.bytes.size < i.effective base + access.width then .error (.trap .memoryOutOfBounds) s
      else
        .ok (.go { f with operands := rest })
          (s.modifyMemory place fun m =>
            { m with bytes := storeWord m.bytes (i.effective base) w access.width }) := by
  rw [step_of_op hop]
  simp only [pop2, hoperands, Exec.lift, Exec.store, Exec.memory, hmemory, bind,
    EStateM.bind, pure, EStateM.pure, hm, m.address_effective]
  by_cases hbounds : m.bytes.size < i.effective base + access.width
  · simp only [if_pos hbounds]
  · simp only [if_neg hbounds]

end Activation

/-! ## Access by the embedder -/

namespace Memory

/-- A run of bytes is read if all of them lie inside the memory. -/
theorem read_eq (m : Memory) (offset length : UInt32) :
    m.read offset length =
      if m.bytes.size < offset.toNat + length.toNat then .error .outOfBounds
      else .ok ((List.range length.toNat).map fun k => byteAt m.bytes (offset.toNat + k)) := by
  unfold read
  by_cases hbounds : m.bytes.size < offset.toNat + length.toNat
  · simp only [if_pos hbounds]
  · simp only [if_neg hbounds]
    congr 1
    refine List.ext_getElem ?_ fun k hk hk' => ?_
    · simp only [Array.length_toList, List.length_map, List.length_range]
      exact (ByteArray.size_extract ..).trans (by omega)
    · have hlast : offset.toNat + k < m.bytes.size := by
        rw [List.length_map, List.length_range] at hk'
        omega
      simp [byteAt, hlast]
      rfl

end Memory

namespace Engine

variable {H σ : Type} {inst : Instance H} {s : Store H σ} {place address : Nat} {m : Memory}

/-- Bytes are written to the memory of an instance, or nothing happens. -/
theorem writeMemory_eq (hat : s.instances[address]? = some inst)
    (hmemory : inst.memory = some place) (hm : s.memories[place]? = some m) (offset : UInt32)
    (new : List UInt8) :
    writeMemory address offset new s =
      match m.write offset new with
      | .ok m' => .ok () (s.modifyMemory place fun _ => m')
      | .error e => .error e s := by
  cases hwrite : m.write offset new <;>
    simp only [writeMemory, hat, Option.bind_some, hmemory, hm, Option.getD_some, hwrite]

end Engine

/-! ## All accesses -/

section

variable {H σ : Type} {inst : Instance H} {s : Store H σ} {place : Nat} {m : Memory}

/-- Changing the memory at a place depends on what becomes of that memory alone. -/
theorem Store.modifyMemory_congr {change change' : Memory → Memory}
    (hm : s.memories[place]? = some m) (hchange : change m = change' m) :
    s.modifyMemory place change = s.modifyMemory place change' := by
  have hmemories : s.memories.modify place change = s.memories.modify place change' := by
    refine Array.ext_getElem? fun k => ?_
    rw [Array.getElem?_modify, Array.getElem?_modify]
    split
    · rename_i hk
      rw [← hk, hm, Option.map_some, Option.map_some, hchange]
    · rfl
  rw [modifyMemory, modifyMemory, hmemories]

/-- The memory that is modified. -/
theorem Store.getElem?_modifyMemory (hm : s.memories[place]? = some m) (change : Memory → Memory) :
    (s.modifyMemory place change).memories[place]? = some (change m) := by
  rw [modifyMemory, Array.getElem?_modify, if_pos rfl, hm, Option.map_some]

/-- Every load of an instance traps, or it gives an operand for the number that some bytes spell at
its address. -/
def Instance.Loads (inst : Instance H) (s : Store H σ) (bytes : ByteArray) : Prop :=
  ∀ (f : Activation) (i : Instruction) (access : LoadForm) (base : UInt64) (rest : List UInt64),
    i.op? = some (.load access) → f.operands = base :: rest → f.operands.length ≤ f.room →
    Activation.step inst f i s =
      if bytes.size < i.effective base + access.width then .error (.trap .memoryOutOfBounds) s
      else
        .ok
          (.go { f with
            operands := access.operand (littleEndian bytes (i.effective base) access.width) ::
              rest }) s

/-- An instance with a memory loads from its bytes. -/
theorem Instance.loads (hmemory : inst.memory = some place) (hm : s.memories[place]? = some m) :
    inst.Loads s m.bytes := fun _ _ _ _ _ hop hoperands hroom =>
  Activation.step_load hmemory hm hop hoperands hroom

/-- The loads and stores of an instance and the accesses of its embedder are bounded by the bytes of
the memory, and are little-endian. An access that does not fit changes nothing. One that fits reads
or writes exactly its bytes, so what was stored is read back modulo its width, and where accesses of
different widths overlap, they agree byte for byte. -/
theorem accesses_are_little_endian (hmemory : inst.memory = some place)
    (hm : s.memories[place]? = some m) :
    inst.Loads s m.bytes ∧
    (∀ start width k, k < width →
      byteOf (littleEndian m.bytes start width) k = byteAt m.bytes (start + k)) ∧
    (∀ (f : Activation) (i : Instruction) (access : StoreForm) (base w : UInt64)
      (rest : List UInt64), i.op? = some (.store access) → f.operands = w :: base :: rest →
      (m.bytes.size < i.effective base + access.width →
        Activation.step inst f i s = .error (.trap .memoryOutOfBounds) s) ∧
      (i.effective base + access.width ≤ m.bytes.size →
        ∃ after, Stored m.bytes after (i.effective base) access.width w.toNat ∧
          Activation.step inst f i s =
            .ok (.go { f with operands := rest })
              (s.modifyMemory place ({ · with bytes := after })) ∧
          inst.Loads (s.modifyMemory place ({ · with bytes := after })) after ∧
          littleEndian after (i.effective base) access.width = w.toNat % 256 ^ access.width ∧
          ∀ start width k, k < width →
            byteOf (littleEndian after start width) k =
              if i.effective base ≤ start + k ∧ start + k < i.effective base + access.width then
                byteOf w.toNat (start + k - i.effective base)
              else byteAt m.bytes (start + k))) ∧
    (∀ offset length : UInt32, m.read offset length =
      if m.bytes.size < offset.toNat + length.toNat then .error .outOfBounds
      else .ok ((List.range length.toNat).map fun k => byteAt m.bytes (offset.toNat + k))) ∧
    ∀ (offset : UInt32) (new : List UInt8),
      (m.bytes.size < offset.toNat + new.length →
        m.write offset new = .error .outOfBounds ∧
        ∀ address, s.instances[address]? = some inst →
          Engine.writeMemory address offset new s = .error .outOfBounds s) ∧
      (offset.toNat + new.length ≤ m.bytes.size →
        ∃ after : ByteArray, after.size = m.bytes.size ∧
          (∀ i, byteAt after i = (placed offset.toNat new i).getD (byteAt m.bytes i)) ∧
          m.write offset new = .ok { m with bytes := after } ∧
          ∀ address, s.instances[address]? = some inst →
            Engine.writeMemory address offset new s =
              .ok () (s.modifyMemory place ({ · with bytes := after }))) := by
  refine ⟨Instance.loads hmemory hm, fun start width k hk => byteOf_littleEndian m.bytes start hk,
    fun f i access base w rest hop hoperands => ?_, m.read_eq, fun offset new => ?_⟩
  · have hstep := Activation.step_store hmemory hm hop hoperands
    constructor
    · intro hbounds
      rw [hstep, if_pos hbounds]
    · intro hfits
      have hstored := stored_storeWord w hfits
      refine ⟨_, hstored, ?_, ?_, hstored.littleEndian_eq, fun start width k hk => ?_⟩
      · rw [hstep, if_neg (by omega)]
        exact congrArg _ (Store.modifyMemory_congr hm rfl)
      · exact Instance.loads hmemory (Store.getElem?_modifyMemory hm _)
      · rw [byteOf_littleEndian _ start hk, hstored.byteAt_eq]
  · constructor
    · intro hbounds
      have hwrite : m.write offset new = .error .outOfBounds := if_pos hbounds
      refine ⟨hwrite, fun address hat => ?_⟩
      rw [Engine.writeMemory_eq hat hmemory hm, hwrite]
    · intro hfits
      have hwrite : m.write offset new =
          .ok { m with bytes := setBytes m.bytes offset.toNat new } :=
        if_neg (by omega)
      refine ⟨_, size_setBytes .., byteAt_setBytes hfits, hwrite, fun address hat => ?_⟩
      rw [Engine.writeMemory_eq hat hmemory hm, hwrite]
      exact congrArg (EStateM.Result.ok ()) (Store.modifyMemory_congr hm rfl)

end

/-- An instance whose memory is the first one of a store. -/
def firstMemoryUser : Instance Unit := { config := default, memory := some 0 }

/-- A store with one memory of one page. -/
def onePage : Store Unit Unit where
  memories := #[{ declared := {}, cap := 1, allocator := 0, bytes := zeroPage }]
  host := ()

/-- An activation with given operands and room for two. -/
def Activation.holding (operands : List UInt64) : Activation where
  function := default
  locals := #[]
  operands
  labels := []
  base := 0
  room := 2
  labelsBelow := 0
  callers := 0

/-- The low byte of a number is stored as the last byte of a page and is read back with its sign;
one byte further a load traps. -/
theorem accesses_are_little_endian_last_byte :
    let store := Instruction.access (StoreForm.part .i32 .byte).byte 65535 0
    let load := Instruction.access (LoadForm.part .i64 .byte .signed).byte 65535 0
    ∃ s : Store Unit Unit,
      Activation.step firstMemoryUser (.holding [0x1380, 0]) store onePage =
      .ok (.go (.holding [])) s ∧
      Activation.step firstMemoryUser (.holding [0]) load s =
        .ok (.go (.holding [0xffffffffffffff80])) s ∧
      Activation.step firstMemoryUser (.holding [1]) load s =
        .error (.trap .memoryOutOfBounds) s := by
  intro store load
  have hstore : store.op? = some (.store (.part .i32 .byte)) :=
    Opcode.ofByte?_byte (.store (.part .i32 .byte))
  have hload : load.op? = some (.load (.part .i64 .byte .signed)) :=
    Opcode.ofByte?_byte (.load (.part .i64 .byte .signed))
  have hm : onePage.memories[0]? =
      some { declared := {}, cap := 1, allocator := 0, bytes := zeroPage } :=
    rfl
  have hplace : firstMemoryUser.memory = some 0 := rfl
  obtain ⟨-, -, hstores, -⟩ := accesses_are_little_endian hplace hm
  obtain ⟨after, hstored, hstep, hloads, hback, -⟩ :=
    (hstores (.holding [0x1380, 0]) store _ 0 0x1380 [] hstore rfl).2
      (by rw [size_zeroPage]; decide)
  have hsize : after.size = 65536 := hstored.size_eq.trans size_zeroPage
  refine ⟨_, hstep, ?_, ?_⟩
  · have hread := hloads (.holding [0]) load _ 0 [] hload rfl (by decide)
    have hspelled : littleEndian after (load.effective 0) 1 = 0x80 := hback
    rw [hsize, if_neg (by decide), show (LoadForm.part .i64 .byte .signed).width = 1 from rfl,
      hspelled] at hread
    exact hread
  · have hread := hloads (.holding [1]) load _ 1 [] hload rfl (by decide)
    rw [hsize, if_pos (by decide)] at hread
    exact hread

end IntWasm
