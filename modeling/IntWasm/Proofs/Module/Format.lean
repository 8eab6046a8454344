import IntWasm.Proofs.Bytes.Reading
import IntWasm.Proofs.Module.Reading

/-!
# The format of the entries of sections

Every entry has its form: the runs of bytes that stand for it. The reader of an entry reads exactly
that form, whatever follows and wherever the entry stands; only the body of a function remembers its
place. Each statement here is about one kind of entry. What stands for a constant expression is the
expression itself: a run of constant instructions up to the first end.
-/

namespace IntWasm

open Leb128 Reader

/-! ## Texts -/

/-- A text stands as its bytes behind their number. -/
def Text.Spelled : Form String := fun s run => Form.Sized (Text.utf8 s) run

/-- Bytes are taken for a text if they are the encoding of one. -/
theorem Reader.reads_fromUTF8? (bs : List UInt8) :
    (match String.fromUTF8? (ByteArray.mk bs.toArray) with
      | some s => pure s
      | none => failLast .invalidSection "malformed UTF-8 encoding" : Reader Fault String).Reads
      fun s run => Text.utf8 s = bs ∧ run = [] := by
  cases htext : String.fromUTF8? (ByteArray.mk bs.toArray) with
  | none =>
    refine (reads_failLast _ _).congr fun _ s _ => ?_
    rw [← Text.fromUTF8?_eq_some, htext]
    simp
  | some text =>
    refine (reads_pure text).congr fun _ s _ => ?_
    rw [← Text.fromUTF8?_eq_some, htext, Option.some.injEq, eq_comm]

/-- A name is read from its spellings. -/
theorem Reader.reads_utf8 : Reader.utf8.Reads Text.Spelled := by
  refine (reads_sized.bind reads_fromUTF8?).congr fun _ s run => ?_
  constructor
  · rintro ⟨bs, head, tail, rfl, hhead, rfl, rfl⟩
    rwa [List.append_nil]
  · intro hrun
    exact ⟨_, run, [], by simp, hrun, rfl, rfl⟩

/-! ## Types -/

namespace ValueType

/-- The integer types are two. -/
theorem isInt_iff {t : ValueType} : t.IsInt ↔ t = i32 ∨ t = i64 := by
  constructor
  · rintro ⟨_ | _, rfl⟩
    · exact .inl rfl
    · exact .inr rfl
  · rintro (rfl | rfl)
    · exact ⟨.i32, rfl⟩
    · exact ⟨.i64, rfl⟩

/-- An integer type stands as its byte. -/
def Spelled : Form ValueType := fun t run => t.IsInt ∧ run = [t.code]

/-- A value type is read from its byte. -/
theorem reads_read : ValueType.read.Reads Spelled := by
  refine (reads_u8.bind (H := fun b _ t run => t.IsInt ∧ t.code = b ∧ run = []) fun b => ?_).congr
    fun _ t run => ?_
  · split
    · rename_i hint
      refine (reads_pure _).congr fun _ t run => ?_
      constructor
      · rintro ⟨rfl, rfl⟩
        refine ⟨isInt_iff.mpr ?_, rfl, rfl⟩
        rcases hint with rfl | rfl
        · exact .inl rfl
        · exact .inr rfl
      · rintro ⟨-, rfl, rfl⟩
        exact ⟨rfl, rfl⟩
    · rename_i hother
      have hnone {t : ValueType} {run : List UInt8} (h : t.IsInt ∧ t.code = b ∧ run = []) :
          False := by
        obtain ⟨hint, rfl, -⟩ := h
        rcases isInt_iff.mp hint with rfl | rfl
        · exact hother (.inl rfl)
        · exact hother (.inr rfl)
      split
      · exact (reads_refuse _ _).congr fun _ t run => ⟨False.elim, hnone⟩
      · exact (reads_failLast _ _).congr fun _ t run => ⟨False.elim, hnone⟩
  · constructor
    · rintro ⟨b, head, tail, rfl, rfl, hint, rfl, rfl⟩
      exact ⟨hint, rfl⟩
    · rintro ⟨hint, rfl⟩
      exact ⟨t.code, [t.code], [], rfl, rfl, hint, rfl, rfl⟩

/-- A list of value types is read from its count and their bytes. -/
theorem reads_readList : ValueType.readList.Reads Spelled.Counted :=
  Reads.counted (ReadsAt.counted reads_u32 fun n => ReadsAt.timesFrom
    (fun _ => reads_read) 0 n.toNat)

end ValueType

/-- A signature stands as its mark, its parameters and its results, of which there is at most
one. -/
def FuncType.Spelled : Form FuncType := fun f run =>
  ∃ params results, run = FuncType.mark :: (params ++ results) ∧
    ValueType.Spelled.Counted f.params params ∧ ValueType.Spelled.Counted f.results results ∧
    f.results.length ≤ 1

/-- A function type is read from its spellings. -/
theorem FuncType.reads_read : FuncType.read.Reads FuncType.Spelled := by
  have hresults (params results : List ValueType) (start : Cursor) :
      (do
        if 1 < results.length then
          throw (.decode (.unsupported start.offset? "result" "multi-value"))
        return { params, results } : Reader Fault FuncType).Reads fun f run =>
        f = { params, results } ∧ results.length ≤ 1 ∧ run = [] := by
    by_cases hmany : 1 < results.length
    · rw [if_pos hmany]
      exact ReadsAt.of_never (never_bind (reads_throw _) _) fun _ _ _ h => by omega
    · rw [if_neg hmany]
      refine (reads_pure _).congr fun _ f run => ?_
      simp [Nat.not_lt.mp hmany]
  have hparams (params : List ValueType) :=
    ReadsAt.afterCursor fun start => ValueType.reads_readList.bind fun results =>
      hresults params results start
  have hform := ValueType.reads_readList.bind hparams
  refine (reads_u8.bind (H := fun form _ f run => form = FuncType.mark ∧
    ∃ params results, run = params ++ results ∧ ValueType.Spelled.Counted f.params params ∧
      ValueType.Spelled.Counted f.results results ∧ f.results.length ≤ 1) fun form => ?_).congr
    fun _ f run => ?_
  · by_cases hmark : form ≠ FuncType.mark
    · rw [if_pos hmark]
      exact ReadsAt.of_never (never_bind (reads_failLast _ _) _) fun _ _ _ h => hmark h.1
    · rw [if_neg hmark]
      refine hform.congr fun _ f run => ?_
      constructor
      · rintro ⟨params, head, tail, rfl, hhead, results, middle, _, rfl, hmiddle, rfl, hle, rfl⟩
        exact ⟨not_not.mp hmark, head, middle, by simp, hhead, hmiddle, hle⟩
      · rintro ⟨-, head, tail, rfl, hhead, htail, hle⟩
        exact ⟨f.params, head, tail, rfl, hhead, f.results, tail, [], by simp, htail, rfl, hle, rfl⟩
  · constructor
    · rintro ⟨form, head, tail, rfl, rfl, rfl, params, results, rfl, hrest⟩
      exact ⟨params, results, rfl, hrest⟩
    · rintro ⟨params, results, rfl, hrest⟩
      exact ⟨mark, [mark], params ++ results, rfl, rfl, rfl, params, results, rfl, hrest⟩

/-- The kind of a definition stands as its byte. -/
def ExternKind.Spelled : Form ExternKind := fun k run => k.code < 4 ∧ run = [k.code]

/-- The kind of an import or export is read from its byte. -/
theorem ExternKind.reads_read : ExternKind.read.Reads ExternKind.Spelled := by
  refine (reads_u8.bind (H := fun b _ k run => b < 4 ∧ k = ⟨b⟩ ∧ run = []) fun b => ?_).congr
    fun _ k run => ?_
  · by_cases hlt : b < 4
    · rw [if_pos hlt]
      refine (reads_pure _).congr fun _ k run => ?_
      simp [hlt]
    · rw [if_neg hlt]
      refine ReadsAt.of_never ?_ fun _ _ _ h => hlt h.1
      split
      · exact never_bind (reads_refuse _ _) _
      · exact reads_failLast _ _
  · constructor
    · rintro ⟨b, head, tail, rfl, rfl, hlt, rfl, rfl⟩
      exact ⟨hlt, rfl⟩
    · rintro ⟨hlt, rfl⟩
      exact ⟨k.code, [k.code], [], rfl, rfl, hlt, rfl, rfl⟩

/-- A flag has two values. -/
theorem UInt32.eq_zero_or_one_of_lt_two {n : UInt32} (hlt : n < 2) : n = 0 ∨ n = 1 := by
  have hnat : n.toNat < 2 := UInt32.lt_iff_toNat_lt.mp hlt
  rcases Nat.lt_succ_iff_lt_or_eq.mp hnat with hzero | hone
  · exact .inl (UInt32.toNat_inj.mp (by simpa using hzero))
  · exact .inr (UInt32.toNat_inj.mp hone)

/-- Limits stand as their flags, their minimum and, if the flags announce it, their maximum. -/
def Limits.Spelled : Form Limits := fun l run =>
  ∃ flags min max, run = flags ++ (min ++ max) ∧ SpellsUnsigned 32 l.flags.toNat flags ∧
    U32 l.min min ∧ ((l.flags = 0 ∧ l.max = 0 ∧ max = []) ∨ (l.flags = 1 ∧ U32 l.max max))

/-- Limits are read with a maximum and without. -/
theorem Limits.reads_read : Limits.read.Reads Limits.Spelled := by
  have hmax (flags min : UInt32) :
      (if flags = 1 then Reader.u32 >>= fun max => pure { flags := flags.toUInt8, min, max }
        else (pure 0 : Reader Fault UInt32) >>= fun max =>
          pure { flags := flags.toUInt8, min, max } : Reader Fault Limits).Reads fun l run =>
        l.flags = flags.toUInt8 ∧ l.min = min ∧
          if flags = 1 then U32 l.max run else l.max = 0 ∧ run = [] := by
    by_cases hone : flags = 1
    · simp only [if_pos hone]
      refine (reads_u32.map fun max => ({ flags := flags.toUInt8, min, max } : Limits)).congr
        fun _ l run => ?_
      constructor
      · rintro ⟨max, rfl, hmax⟩
        exact ⟨rfl, rfl, hmax⟩
      · rintro ⟨hflags, hmin, hmax⟩
        exact ⟨l.max, by rw [← hflags, ← hmin], hmax⟩
    · simp only [if_neg hone]
      refine (reads_pure ({ flags := flags.toUInt8, min, max := 0 } : Limits)).congr
        fun _ l run => ?_
      constructor
      · rintro ⟨rfl, rfl⟩
        exact ⟨rfl, rfl, rfl, rfl⟩
      · rintro ⟨hflags, hmin, hmax, rfl⟩
        exact ⟨by rw [← hflags, ← hmin, ← hmax], rfl⟩
  refine (reads_u32.bind (H := fun flags _ l run => flags < 2 ∧ l.flags = flags.toUInt8 ∧
    ∃ min max, run = min ++ max ∧ U32 l.min min ∧
      if flags = 1 then U32 l.max max else l.max = 0 ∧ max = []) fun flags => ?_).congr
    fun _ l run => ?_
  -- Flags of two and above are refused in one way or another, so nothing is ever read there.
  · by_cases hlt : flags < 2
    · rw [if_pos hlt]
      refine (reads_u32.bind fun min => hmax flags min).congr fun _ l run => ?_
      constructor
      · rintro ⟨min, head, tail, rfl, hhead, hflags, rfl, htail⟩
        exact ⟨hlt, hflags, head, tail, rfl, hhead, htail⟩
      · rintro ⟨-, hflags, head, tail, rfl, hhead, htail⟩
        exact ⟨l.min, head, tail, rfl, hhead, hflags, rfl, htail⟩
    · rw [if_neg hlt]
      refine ReadsAt.of_never ?_ fun _ _ _ h => hlt h.1
      by_cases hshared : flags < 4
      · rw [if_pos hshared]
        exact never_bind (reads_refuse _ _) _
      · rw [if_neg hshared]
        split
        · exact never_bind (reads_refuse _ _) _
        · exact reads_failLast _ _
  · constructor
    · rintro ⟨flags, head, tail, rfl, hhead, hlt, hflags, min, max, rfl, hmin, hmax⟩
      rcases UInt32.eq_zero_or_one_of_lt_two hlt with rfl | rfl
      · exact ⟨head, min, max, rfl, hflags ▸ hhead, hmin, .inl ⟨hflags, hmax⟩⟩
      · exact ⟨head, min, max, rfl, hflags ▸ hhead, hmin, .inr ⟨hflags, hmax⟩⟩
    · rintro ⟨flags, min, max, rfl, hflags, hmin, ⟨hzero, hmax⟩ | ⟨hone, hmax⟩⟩
      · rw [hzero] at hflags
        exact ⟨0, flags, min ++ max, rfl, hflags, by decide, hzero, min, max, rfl, hmin, hmax⟩
      · rw [hone] at hflags
        exact ⟨1, flags, min ++ max, rfl, hflags, by decide, hone, min, max, rfl, hmin, hmax⟩

/-- The type of a table stands as its element type and its limits. -/
def TableType.Spelled : Form TableType := fun t run =>
  t.elem = .funcref ∧ ∃ limits, run = ElemType.funcref.code :: limits ∧ t.limits.Spelled limits

/-- A table type is read from its spellings. -/
theorem TableType.reads_read : TableType.read.Reads TableType.Spelled := by
  refine (reads_u8.bind (H := fun b _ t run => b = ElemType.funcref.code ∧ t.elem = .funcref ∧
    t.limits.Spelled run) fun b => ?_).congr fun _ t run => ?_
  · by_cases hfuncref : b = ElemType.funcref.code
    · rw [if_pos hfuncref]
      refine (Limits.reads_read.map fun limits => TableType.mk ⟨b⟩ limits).congr fun _ t run => ?_
      constructor
      · rintro ⟨limits, rfl, hlimits⟩
        exact ⟨hfuncref, by rw [hfuncref], hlimits⟩
      · rintro ⟨-, helem, hlimits⟩
        refine ⟨t.limits, ?_, hlimits⟩
        rw [hfuncref, ← helem]
    · rw [if_neg hfuncref]
      refine ReadsAt.of_never ?_ fun _ _ _ h => hfuncref h.1
      split
      · exact never_bind (reads_refuse _ _) _
      · exact reads_failLast _ _
  · constructor
    · rintro ⟨b, head, tail, rfl, rfl, rfl, helem, hlimits⟩
      exact ⟨helem, tail, rfl, hlimits⟩
    · rintro ⟨helem, limits, rfl, hlimits⟩
      exact ⟨_, [_], limits, rfl, rfl, rfl, helem, hlimits⟩

/-- The type of a global stands as its value type and one byte. -/
def GlobalType.Spelled : Form GlobalType := fun g run =>
  g.type.IsInt ∧ run = [g.type.code, if g.mutable then 1 else 0]

/-- A global's type is read from its spellings. -/
theorem GlobalType.reads_read : GlobalType.read.Reads GlobalType.Spelled := by
  have hmutable (type : ValueType) (m : UInt8) :
      (if m = 0 then pure { type, mutable := false }
        else if m = 1 then pure { type, mutable := true }
        else failLast .invalidSection ("invalid global mutability " ++ Text.hex m.toNat) :
        Reader Fault GlobalType).Reads fun g run =>
        g.type = type ∧ m = (if g.mutable then 1 else 0) ∧ run = [] := by
    by_cases hzero : m = 0
    · rw [if_pos hzero]
      refine (reads_pure _).congr fun _ g run => ?_
      rcases g with ⟨t, _ | _⟩ <;> simp [hzero]
    · rw [if_neg hzero]
      by_cases hone : m = 1
      · rw [if_pos hone]
        refine (reads_pure _).congr fun _ g run => ?_
        rcases g with ⟨t, _ | _⟩ <;> simp [hone]
      · rw [if_neg hone]
        refine ReadsAt.of_never (reads_failLast _ _) fun _ g _ h => ?_
        rcases g with ⟨t, _ | _⟩
        · exact hzero h.2.1
        · exact hone h.2.1
  refine (ValueType.reads_read.bind fun type => reads_u8.bind fun m => hmutable type m).congr
    fun _ g run => ?_
  constructor
  · rintro ⟨type, head, tail, rfl, ⟨hint, rfl⟩, m, byte, rest, rfl, rfl, rfl, rfl, rfl⟩
    exact ⟨hint, rfl⟩
  · rintro ⟨hint, rfl⟩
    exact ⟨g.type, [_], [_], rfl, ⟨hint, rfl⟩, _, [_], [], rfl, rfl, rfl, rfl, rfl⟩

/-! ## Constant expressions -/

namespace ConstExpr

/-- What stands for one instruction of a constant expression; `false` is for its end. -/
inductive Step : Bool → List UInt8 → Prop
  | last : Step false [0x0b]
  | const32 {i : Int32} {run : List UInt8} (hrun : SpellsSigned 32 i.toInt run) :
      Step true (0x41 :: run)
  | const64 {i : Int64} {run : List UInt8} (hrun : SpellsSigned 64 i.toInt run) :
      Step true (0x42 :: run)
  | global {n : UInt32} {run : List UInt8} (hrun : U32 n run) : Step true (0x23 :: run)

/-- A constant expression: instructions up to the first end. -/
inductive Spelled : List UInt8 → Prop
  | last {run : List UInt8} (hrun : Step false run) : Spelled run
  | more {head tail : List UInt8} (hhead : Step true head) (htail : Spelled tail) :
      Spelled (head ++ tail)

/-- An instruction of a constant expression has bytes. -/
theorem Step.length_pos {more : Bool} {run : List UInt8} (hrun : Step more run) :
    0 < run.length := by
  cases hrun <;> simp

/-- An instruction of a constant expression is read and said to be the last one or not. -/
theorem reads_step : readConstStep.Reads Step := by
  -- All instructions but the end are read as an opcode and one number that is thrown away.
  have hmore {α : Type} {r : Reader Fault α} {G : Form α} {op : UInt8} (hr : r.Reads G)
      (hstep : ∀ more run, Step more (op :: run) ↔ more = true ∧ ∃ a, G a run) :
      (r >>= fun _ => pure true).Reads fun more run => Step more (op :: run) := by
    refine (hr.map fun _ => true).congr fun _ more run => ?_
    rw [hstep more run]
    constructor
    · rintro ⟨a, rfl, hrun⟩
      exact ⟨rfl, a, hrun⟩
    · rintro ⟨rfl, a, hrun⟩
      exact ⟨a, rfl, hrun⟩
  refine ((reads_innerByte.lift _).bind (H := fun op _ more run => Step more (op :: run))
    fun op => ?_).congr fun _ more run => ?_
  · split
    · refine (reads_pure false).congr fun _ more run => ?_
      constructor
      · rintro ⟨rfl, rfl⟩
        exact .last
      · rintro ⟨⟩
        exact ⟨rfl, rfl⟩
    · refine hmore (Reader.ReadsAt.lift (fun _ _ _ => s32_eq_ok_iff) _) fun more run => ?_
      constructor
      · rintro ⟨⟩
        exact ⟨rfl, _, ‹_›⟩
      · rintro ⟨rfl, i, hrun⟩
        exact .const32 hrun
    · refine hmore (Reader.ReadsAt.lift (fun _ _ _ => s64_eq_ok_iff) _) fun more run => ?_
      constructor
      · rintro ⟨⟩
        exact ⟨rfl, _, ‹_›⟩
      · rintro ⟨rfl, i, hrun⟩
        exact .const64 hrun
    · refine hmore reads_u32 fun more run => ?_
      constructor
      · rintro ⟨⟩
        exact ⟨rfl, _, ‹_›⟩
      · rintro ⟨rfl, i, hrun⟩
        exact .global hrun
    all_goals
      refine ReadsAt.of_never ?_ fun _ more run hstep => ?_
      · first | exact reads_refuse _ _ | exact reads_failLast _ _
      · cases hstep <;> simp_all
  · constructor
    · rintro ⟨op, head, tail, rfl, rfl, htail⟩
      exact htail
    · intro hrun
      obtain ⟨op, tail, rfl⟩ := List.exists_cons_of_length_pos hrun.length_pos
      exact ⟨op, [op], tail, rfl, rfl, hrun⟩

/-- The instructions that are read are a constant expression. -/
theorem exists_of_readConstSteps {fuel : Nat} {c c' : Cursor}
    (hok : readConstSteps fuel c = .ok () c') :
    ∃ run rest, c.rest = run ++ rest ∧ Spelled run ∧ c.past run rest = c' := by
  induction fuel generalizing c with
  | zero => cases hok
  | succ fuel ih =>
    obtain ⟨more, t, hstep, hnext⟩ := estate_bind_eq_ok.mp hok
    obtain ⟨head, middle, hc, hhead, rfl⟩ := (reads_step c more t).mp hstep
    cases more with
    | false =>
      obtain ⟨-, rfl⟩ := estate_pure_eq_ok.mp hnext
      exact ⟨head, middle, hc, .last hhead, rfl⟩
    | true =>
      obtain ⟨tail, rest, hmiddle, htail, rfl⟩ := ih hnext
      obtain rfl : middle = tail ++ rest := hmiddle
      exact ⟨head ++ tail, rest, by rw [hc, List.append_assoc], .more hhead htail,
        (c.past_past head _ tail rest).symm⟩

/-- A constant expression in front is read up to its end. -/
theorem readConstSteps_of_spelled {fuel : Nat} {c : Cursor} {run rest : List UInt8}
    (hrun : Spelled run) (hrest : c.rest = run ++ rest) (hfuel : run.length ≤ fuel) :
    readConstSteps fuel c = .ok () (c.past run rest) := by
  induction hrun generalizing fuel c with
  | last hstep =>
    obtain ⟨fuel, rfl⟩ := Nat.exists_eq_add_one.mpr (hstep.length_pos.trans_le hfuel)
    exact estate_bind_eq_ok.mpr ⟨false, _, reads_step.ok hrest hstep, rfl⟩
  | @more head tail hhead htail ih =>
    rw [List.length_append] at hfuel
    have hpos := hhead.length_pos
    obtain ⟨fuel, rfl⟩ := Nat.exists_eq_add_one.mpr (show 0 < fuel by omega)
    rw [List.append_assoc] at hrest
    refine estate_bind_eq_ok.mpr ⟨true, _, reads_step.ok hrest hhead, ?_⟩
    rw [← c.past_past head (tail ++ rest) tail rest]
    exact ih (c.rest_past head _) (by omega)

/-- A constant expression is kept as the bytes that spell it. -/
theorem reads_readConstExpr : readConstExpr.Reads fun bytes run => bytes = run ∧ Spelled run := by
  intro c bytes c'
  unfold readConstExpr
  constructor
  · intro hok
    cases hsteps : readConstSteps (c.rest.length + 1) c with
    | error e t => simp [hsteps] at hok
    | ok u t =>
      obtain ⟨run, rest, hrest, hrun, rfl⟩ := exists_of_readConstSteps hsteps
      simp only [hsteps, EStateM.Result.ok.injEq] at hok
      obtain ⟨rfl, rfl⟩ := hok
      exact ⟨run, rest, hrest, ⟨by simp [Cursor.past, hrest], hrun⟩, rfl⟩
  · rintro ⟨run, rest, hrest, ⟨rfl, hrun⟩, rfl⟩
    rw [readConstSteps_of_spelled hrun hrest (by rw [hrest, List.length_append]; omega)]
    simp [Cursor.past, hrest]

end ConstExpr

/-! ## Entries -/

/-- The type of an import stands behind the byte of its kind. -/
def ImportType.Spelled : Form ImportType
  | .function type, run => U32 type run
  | .memory limits, run => limits.Spelled run
  | .global type, run => type.Spelled run

/-- The kinds of imports are numbered from 0 to 3. -/
theorem ImportType.kind_lt (t : ImportType) : t.kind.code < 4 := by
  cases t with
  | function => exact show (0 : UInt8) < 4 by decide
  | memory => exact show (2 : UInt8) < 4 by decide
  | global => exact show (3 : UInt8) < 4 by decide

/-- An import stands as its two names, its kind and its type. -/
def Import.Spelled : Form Import := fun i run =>
  ∃ moduleName field type, run = moduleName ++ (field ++ (i.type.kind.code :: type)) ∧
    Text.Spelled i.moduleName moduleName ∧ Text.Spelled i.field field ∧ i.type.Spelled type

/-- An import is read from its spellings. -/
theorem Import.reads_read : Import.read.Reads Import.Spelled := by
  -- The kind comes before the type, so what follows the names is stated for a kind that was read
  -- and the three forms of types are instances of it.
  have hfinish {α : Type} {r : Reader Fault α} {G : Form α} (moduleName field : String)
      (kind : ExternKind) (type : α → ImportType) (hr : r.Reads G)
      (htype : ∀ t run, (t.kind = kind ∧ t.Spelled run) ↔ ∃ a, t = type a ∧ G a run) :
      (r >>= fun a => pure (Import.mk moduleName field (type a))).Reads fun i run =>
        i.moduleName = moduleName ∧ i.field = field ∧ i.type.kind = kind ∧ i.type.Spelled run := by
    refine (hr.map fun a => Import.mk moduleName field (type a)).congr fun _ i run => ?_
    rw [htype i.type run]
    constructor
    · rintro ⟨a, rfl, hrun⟩
      exact ⟨rfl, rfl, a, rfl, hrun⟩
    · rintro ⟨rfl, rfl, a, ha, hrun⟩
      exact ⟨a, by rw [← ha], hrun⟩
  refine (reads_utf8.bind fun moduleName => reads_utf8.bind fun field => ExternKind.reads_read.bind
    (H := fun kind _ i run => i.moduleName = moduleName ∧ i.field = field ∧ i.type.kind = kind ∧
      i.type.Spelled run) fun kind => ?_).congr fun _ i run => ?_
  · by_cases hfunction : kind = .function
    · rw [if_pos hfunction]
      refine hfinish moduleName field kind .function reads_u32 fun t run => ?_
      subst hfunction
      cases t <;>
        simp [ImportType.kind, ImportType.Spelled, ExternKind.function, ExternKind.memory,
          ExternKind.global]
    · rw [if_neg hfunction]
      by_cases hmemory : kind = .memory
      · rw [if_pos hmemory]
        refine hfinish moduleName field kind .memory Limits.reads_read fun t run => ?_
        subst hmemory
        cases t <;>
          simp [ImportType.kind, ImportType.Spelled, ExternKind.function, ExternKind.memory,
            ExternKind.global]
      · rw [if_neg hmemory]
        by_cases hglobal : kind = .global
        · rw [if_pos hglobal]
          refine hfinish moduleName field kind .global GlobalType.reads_read fun t run => ?_
          subst hglobal
          cases t <;>
            simp [ImportType.kind, ImportType.Spelled, ExternKind.function, ExternKind.memory,
              ExternKind.global]
        · rw [if_neg hglobal]
          refine ReadsAt.of_never (reads_refuse _ _) fun _ i _ h => ?_
          obtain ⟨-, -, rfl, -⟩ := h
          cases htype : i.type with
          | function => exact hfunction (by rw [htype]; rfl)
          | memory => exact hmemory (by rw [htype]; rfl)
          | global => exact hglobal (by rw [htype]; rfl)
  · constructor
    · rintro ⟨moduleName, name, tail, rfl, hname, field, middle, last, rfl, hmiddle, kind, byte,
        type, rfl, ⟨-, rfl⟩, rfl, rfl, rfl, htype⟩
      exact ⟨name, middle, type, rfl, hname, hmiddle, htype⟩
    · rintro ⟨name, field, type, rfl, hname, hfield, htype⟩
      exact ⟨i.moduleName, name, _, rfl, hname, i.field, field, _, rfl, hfield, i.type.kind, [_],
        type, rfl, ⟨i.type.kind_lt, rfl⟩, rfl, rfl, rfl, htype⟩

/-- A global stands as its type and its expression. -/
def GlobalDef.Spelled : Form GlobalDef := fun g run =>
  ∃ type, run = type ++ g.init ∧ g.type.Spelled type ∧ ConstExpr.Spelled g.init

/-- A global is read from its spellings. -/
theorem GlobalDef.reads_read : GlobalDef.read.Reads GlobalDef.Spelled := by
  refine (GlobalType.reads_read.bind fun type =>
    ConstExpr.reads_readConstExpr.map fun init => GlobalDef.mk type init).congr fun _ g run => ?_
  constructor
  · rintro ⟨type, head, tail, rfl, hhead, init, rfl, rfl, htail⟩
    exact ⟨head, rfl, hhead, htail⟩
  · rintro ⟨type, rfl, htype, hinit⟩
    exact ⟨g.type, type, g.init, rfl, htype, g.init, rfl, rfl, hinit⟩

/-- An export stands as its name, its kind and its index. -/
def Export.Spelled : Form Export := fun e run =>
  ∃ name index, run = name ++ (e.kind.code :: index) ∧ Text.Spelled e.name name ∧ e.kind.code < 4 ∧
    U32 e.index index

/-- An export is read from its spellings. -/
theorem Export.reads_read : Export.read.Reads Export.Spelled := by
  refine (reads_utf8.bind fun name => ExternKind.reads_read.bind fun kind =>
    reads_u32.map fun index => Export.mk name kind index).congr fun _ e run => ?_
  constructor
  · rintro ⟨name, head, tail, rfl, hhead, kind, byte, last, rfl, ⟨hlt, rfl⟩, index, rfl, hlast⟩
    exact ⟨head, last, rfl, hhead, hlt, hlast⟩
  · rintro ⟨name, index, rfl, hname, hlt, hindex⟩
    exact ⟨e.name, name, _, rfl, hname, e.kind, [_], index, rfl, ⟨hlt, rfl⟩, e.index, rfl, hindex⟩

/-- The number in front of a segment is zero. -/
theorem reads_segmentIndex (kind : String) :
    (readSegmentIndex kind).Reads fun n run => n = 0 ∧ U32 0 run := by
  refine (reads_u32.bind (H := fun flags _ n run => n = 0 ∧ flags = 0 ∧ run = [])
    fun flags => ?_).congr fun _ n run => ?_
  · by_cases hzero : flags ≠ 0
    · rw [if_pos hzero]
      exact ReadsAt.of_never (never_bind (reads_refuse _ _) _) fun _ _ _ h => hzero h.2.1
    · rw [if_neg hzero]
      refine (reads_pure flags).congr fun _ n run => ?_
      simp [not_not.mp hzero]
  · constructor
    · rintro ⟨flags, head, tail, rfl, hhead, rfl, rfl, rfl⟩
      exact ⟨rfl, by rwa [List.append_nil]⟩
    · rintro ⟨rfl, hrun⟩
      exact ⟨0, run, [], by simp, hrun, rfl, rfl, rfl⟩

/-- An element segment stands as its table, its offset and its functions. -/
def ElementSegment.Spelled : Form ElementSegment := fun s run =>
  ∃ table functions, run = table ++ (s.offset ++ functions) ∧ s.table = 0 ∧ U32 0 table ∧
    ConstExpr.Spelled s.offset ∧ U32.Counted s.functions functions

/-- An element segment is read from its spellings. -/
theorem ElementSegment.reads_read : ElementSegment.read.Reads ElementSegment.Spelled := by
  refine ((reads_segmentIndex _).bind fun table => ConstExpr.reads_readConstExpr.bind fun offset =>
    (Reads.vector reads_u32).map fun functions =>
      ElementSegment.mk table offset functions).congr fun _ s run => ?_
  constructor
  · rintro ⟨table, head, tail, rfl, ⟨rfl, hhead⟩, offset, init, last, rfl, ⟨rfl, hinit⟩, functions,
      rfl, hlast⟩
    exact ⟨head, last, rfl, rfl, hhead, hinit, hlast⟩
  · rintro ⟨table, functions, rfl, hzero, htable, hoffset, hfunctions⟩
    exact ⟨s.table, table, _, rfl, ⟨hzero, htable⟩, s.offset, _, functions, rfl, ⟨rfl, hoffset⟩,
      s.functions, rfl, hfunctions⟩

/-- A data segment stands as its memory, its offset and its bytes. -/
def DataSegment.Spelled : Form DataSegment := fun s run =>
  ∃ memory bytes, run = memory ++ (s.offset ++ bytes) ∧ s.memory = 0 ∧ U32 0 memory ∧
    ConstExpr.Spelled s.offset ∧ Form.Sized s.bytes bytes

/-- A data segment is read from its spellings. -/
theorem DataSegment.reads_read : DataSegment.read.Reads DataSegment.Spelled := by
  refine ((reads_segmentIndex _).bind fun memory => ConstExpr.reads_readConstExpr.bind fun offset =>
    reads_sized.map fun bytes => DataSegment.mk memory offset bytes).congr fun _ s run => ?_
  constructor
  · rintro ⟨memory, head, tail, rfl, ⟨rfl, hhead⟩, offset, init, last, rfl, ⟨rfl, hinit⟩, bytes,
      rfl, hlast⟩
    exact ⟨head, last, rfl, rfl, hhead, hinit, hlast⟩
  · rintro ⟨memory, bytes, rfl, hzero, hmemory, hoffset, hbytes⟩
    exact ⟨s.memory, memory, _, rfl, ⟨hzero, hmemory⟩, s.offset, _, bytes, rfl, ⟨rfl, hoffset⟩,
      s.bytes, rfl, hbytes⟩

/-- A group of locals stands as its number and its type. -/
def LocalGroup.Spelled : Form LocalGroup := fun g run =>
  ∃ count type, run = count ++ type ∧ U32 g.count count ∧ g.type.Spelled type

/-- A group of locals is read from its spellings. -/
theorem LocalGroup.reads_read : LocalGroup.read.Reads LocalGroup.Spelled := by
  refine (reads_u32.bind fun count => ValueType.reads_read.map fun type =>
    LocalGroup.mk count type).congr fun _ g run => ?_
  constructor
  · rintro ⟨count, head, tail, rfl, hhead, type, rfl, htail⟩
    exact ⟨head, tail, rfl, hhead, htail⟩
  · rintro ⟨count, type, rfl, hcount, htype⟩
    exact ⟨g.count, count, type, rfl, hcount, g.type, rfl, htype⟩

/-- A body stands as its size, its locals and its code, which ends where the size says. It remembers
the place of its code. -/
def FuncBody.Spelled : PlacedForm FuncBody := fun place b run =>
  ∃ size locals, run = size ++ (locals ++ b.code) ∧
    SpellsUnsigned 32 (locals ++ b.code).length size ∧ LocalGroup.Spelled.Counted b.locals locals ∧
    b.offset = (place.map (· + size.length)).getD 0 + locals.length

/-- A body is read from its spellings, together with the place of its code. -/
theorem FuncBody.reads_read : FuncBody.read.ReadsAt FuncBody.Spelled := by
  have hlocals (body : List UInt8) (base : Nat) :=
    have hvector : (Reader.vector "local" LocalGroup.read).Reads LocalGroup.Spelled.Counted :=
      Reads.vector LocalGroup.reads_read
    (hvector.nested body base).map fun result =>
      ({ locals := result.1, code := result.2.rest, offset := base + result.2.consumed } : FuncBody)
  -- The code is what the nested reader leaves of the bytes of the body, and its offset is where the
  -- locals stop.
  have hbody (size : UInt32) :=
    ReadsAt.afterPlace (H := fun place _ b run => run.length = size.toNat ∧ ∃ locals,
      run = locals ++ b.code ∧ LocalGroup.Spelled.Counted b.locals locals ∧
        b.offset = place.getD 0 + locals.length) fun start =>
      (((reads_bytes size.toNat).lift Fault.read).bind fun body =>
        hlocals body (start.offset?.getD 0)).congr fun _ b run => by
          constructor
          · rintro ⟨body, head, tail, rfl, ⟨rfl, hsize⟩, result, rfl, rfl, used, rest, rfl,
              hused, hafter⟩
            rw [List.append_nil]
            refine ⟨hsize, used, ?_, hused, ?_⟩
            · rw [← hafter, Cursor.rest_past]
            · rw [← hafter]
              simp [Cursor.past]
          · rintro ⟨hsize, locals, rfl, hlocals, hoffset⟩
            refine ⟨_, locals ++ b.code, [], by simp, ⟨rfl, hsize⟩,
              (b.locals, Cursor.past _ locals b.code), ?_, rfl, locals, b.code, rfl, hlocals, rfl⟩
            cases b
            simpa [Cursor.past] using hoffset
  refine (reads_u32.bind hbody).congr fun place b run => ?_
  constructor
  · rintro ⟨size, head, tail, rfl, hhead, hsize, locals, rfl, hlocals, hoffset⟩
    exact ⟨head, locals, rfl, hsize ▸ hhead, hlocals, hoffset⟩
  · rintro ⟨head, locals, rfl, hhead, hlocals, hoffset⟩
    obtain ⟨size, hsize⟩ := exists_u32 hhead
    exact ⟨size, head, locals ++ b.code, rfl, show SpellsUnsigned 32 size.toNat head
      from hsize ▸ hhead, hsize.symm, locals, rfl, hlocals, hoffset⟩

end IntWasm
