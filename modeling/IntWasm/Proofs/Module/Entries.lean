import IntWasm.Proofs.Bytes.Encoding
import IntWasm.Proofs.Module.Sections

/-!
# Encodings of the parts of modules

For each part of a module there is the class of the values that have a place in the format, and its
writer encodes exactly these. Bodies of functions are written without their places, so what stands
for them here is what stands for them anywhere. Main statement: `Content.encodes_write`, which is
about the contents of whole sections.
-/

namespace IntWasm

open Leb128 Reader

/-! ## Types -/

/-- A value type that is an integer type is written as its byte. -/
theorem ValueType.encodes_write (t : ValueType) : Encodes t.write (Spelled t) t.IsInt :=
  .bytes [t.code] t.IsInt

/-- A signature over the integer types with at most one result. -/
def FuncType.InFormat (f : FuncType) : Prop :=
  (Few ValueType.IsInt f.params ∧ Few ValueType.IsInt f.results) ∧ f.results.length ≤ 1

/-- A function type is written as a spelling of it. -/
theorem FuncType.encodes_write (f : FuncType) : Encodes f.write f.Spelled f.InFormat := by
  have hlists := (Encodes.vector ValueType.encodes_write f.params).andThen
    (Encodes.vector ValueType.encodes_write f.results)
  have hmarked := (Encodes.bytes [mark] True).andThen hlists
  refine (hmarked.only (f.results.length ≤ 1)).congr (fun run => ?_) ?_
  · constructor
    · rintro ⟨⟨_, _, rfl, ⟨-, rfl⟩, params, results, rfl, hparams, hresults⟩, hle⟩
      exact ⟨params, results, rfl, hparams, hresults, hle⟩
    · rintro ⟨params, results, rfl, hparams, hresults, hle⟩
      exact ⟨⟨[mark], _, rfl, ⟨trivial, rfl⟩, params, results, rfl, hparams, hresults⟩, hle⟩
  · rw [true_and]
    exact Iff.rfl

/-- Limits with a maximum, or without one and with none kept. -/
def Limits.InFormat (l : Limits) : Prop := (l.flags = 0 ∧ l.max = 0) ∨ l.flags = 1

/-- Limits are written as a spelling of them. -/
theorem Limits.encodes_write (l : Limits) : Encodes l.write l.Spelled l.InFormat := by
  have hflags : Encodes (writeU32 l.flags.toUInt32) (SpellsUnsigned 32 l.flags.toNat) True := by
    refine (Encodes.u32 l.flags.toUInt32).congr (fun run => ?_) Iff.rfl
    unfold U32
    rw [UInt8.toNat_toUInt32]
  have hmax : Encodes (if l.hasMax then writeU32 l.max else pure ())
      (fun run => (l.flags = 0 ∧ l.max = 0 ∧ run = []) ∨ (l.flags = 1 ∧ U32 l.max run))
      l.InFormat := by
    have hnumber := Encodes.u32 l.max
    have hnothing : Writer.Puts id (pure () : Encoder) [] := Writer.puts_pure
    -- The flags decide: without a maximum nothing is written, with one it is a number, and any
    -- other flags are written but are no limits of the format.
    by_cases hzero : l.flags = 0
    · have hunbounded : l.hasMax = false := by simp [hasMax, hzero]
      have hother : ¬ l.flags = 1 := by simp [hzero]
      rw [hunbounded, if_neg Bool.false_ne_true]
      constructor
      · rwa [hnothing.produced]
      · rintro (⟨-, hnone⟩ | hone)
        · exact .inl ⟨hzero, hnone, hnothing.produced⟩
        · exact absurd hone hother
      · rintro run (⟨-, hnone, -⟩ | ⟨hone, -⟩)
        · exact .inl ⟨hzero, hnone⟩
        · exact .inr hone
      · intro run _
        rw [hnothing.produced]
        exact Nat.zero_le _
    · by_cases hone : l.flags = 1
      · have hbounded : l.hasMax = true := by simp [hasMax, hone]
        rw [hbounded, if_pos rfl]
        refine hnumber.congr (fun run => ?_) ?_
        · simp [hone]
        · simp [InFormat, hone]
      · have hnone : ¬ l.InFormat := by
          rintro (⟨hflags, -⟩ | hflags)
          · exact hzero hflags
          · exact hone hflags
        have hputs : ∃ bs,
            Writer.Puts id (if l.hasMax then writeU32 l.max else pure () : Encoder) bs := by
          split
          · exact ⟨_, hnumber.puts⟩
          · exact ⟨_, hnothing⟩
        obtain ⟨bs, hputs⟩ := hputs
        constructor
        · rwa [hputs.produced]
        · intro hformat
          exact absurd hformat hnone
        · rintro run (⟨hflags, -⟩ | ⟨hflags, -⟩)
          · exact absurd hflags hzero
          · exact absurd hflags hone
        · rintro run (⟨hflags, -⟩ | ⟨hflags, -⟩)
          · exact absurd hflags hzero
          · exact absurd hflags hone
  refine (hflags.andThen ((Encodes.u32 l.min).andThen hmax)).congr (fun run => ?_) ?_
  · constructor
    · rintro ⟨flags, _, rfl, hflags, min, max, rfl, hmin, hmax⟩
      exact ⟨flags, min, max, rfl, hflags, hmin, hmax⟩
    · rintro ⟨flags, min, max, rfl, hflags, hmin, hmax⟩
      exact ⟨flags, _, rfl, hflags, min, max, rfl, hmin, hmax⟩
  · simp

/-- The type of a table of functions. -/
def TableType.InFormat (t : TableType) : Prop := t.elem = .funcref ∧ t.limits.InFormat

/-- A table type is written as a spelling of it. -/
theorem TableType.encodes_write (t : TableType) : Encodes t.write t.Spelled t.InFormat := by
  refine ((Encodes.bytes [t.elem.code] (t.elem = .funcref)).andThen t.limits.encodes_write).congr
    (fun run => ?_) Iff.rfl
  constructor
  · rintro ⟨_, limits, rfl, ⟨helem, rfl⟩, hlimits⟩
    exact ⟨helem, limits, by rw [helem]; rfl, hlimits⟩
  · rintro ⟨helem, limits, rfl, hlimits⟩
    exact ⟨[t.elem.code], limits, by rw [helem]; rfl, ⟨helem, rfl⟩, hlimits⟩

/-- The type of a global of an integer type. -/
def GlobalType.InFormat (g : GlobalType) : Prop := g.type.IsInt

/-- A global's type is written as a spelling of it. -/
theorem GlobalType.encodes_write (g : GlobalType) : Encodes g.write g.Spelled g.InFormat := by
  have hmutable := Encodes.bytes [if g.mutable then 1 else 0] True
  refine (g.type.encodes_write.andThen hmutable).congr (fun run => ?_) (iff_of_eq (and_true _))
  constructor
  · rintro ⟨_, _, rfl, ⟨hint, rfl⟩, -, rfl⟩
    exact ⟨hint, rfl⟩
  · rintro ⟨hint, rfl⟩
    exact ⟨_, _, rfl, ⟨hint, rfl⟩, trivial, rfl⟩

/-- The type of an import that has a type in the format. -/
def ImportType.InFormat : ImportType → Prop
  | .function _ => True
  | .memory limits => limits.InFormat
  | .global type => type.InFormat

/-- What an import asks for is written as a spelling of it. -/
theorem ImportType.encodes_write (t : ImportType) : Encodes t.write t.Spelled t.InFormat := by
  cases t with
  | function type => exact .u32 type
  | memory limits => exact limits.encodes_write
  | global type => exact type.encodes_write

/-! ## Texts and constant expressions -/

/-- A text whose size can be written. -/
def Text.InFormat (s : String) : Prop := (Text.utf8 s).length < 2 ^ 32

/-- A name is written as its length and its encoding. -/
theorem Text.encodes_utf8 (s : String) :
    Encodes (Encoder.utf8 s) (Text.Spelled s) (Text.InFormat s) :=
  .sized (Text.utf8 s)

/-- Bytes that are read whole as a constant expression. -/
def ConstExpr.Whole (bytes : List UInt8) : Prop :=
  ∃ c, readConstExpr { rest := bytes } = .ok bytes c ∧ c.rest = []

/-- A constant expression is whole exactly if it is spelled to its end. -/
theorem ConstExpr.whole_iff {bytes : List UInt8} : Whole bytes ↔ Spelled bytes := by
  have hread := reads_readConstExpr { rest := bytes } bytes
  constructor
  · rintro ⟨c, hok, -⟩
    obtain ⟨run, rest, -, ⟨rfl, hrun⟩, -⟩ := (hread c).mp hok
    exact hrun
  · intro hspelled
    have hrest : bytes = bytes ++ [] := (List.append_nil bytes).symm
    exact ⟨_, (hread _).mpr ⟨bytes, [], hrest, ⟨rfl, hspelled⟩, rfl⟩, rfl⟩

/-- A constant expression is written as it is. -/
theorem ConstExpr.encodes_bytes (bytes : List UInt8) :
    Encodes (Writer.bytes bytes) (fun run => Spelled bytes ∧ run = bytes) (Whole bytes) :=
  (Encodes.bytes bytes (Spelled bytes)).congr (fun _ => Iff.rfl) whole_iff.symm

/-! ## Entries -/

/-- An import with names and a type in the format. -/
def Import.InFormat (i : Import) : Prop :=
  Text.InFormat i.moduleName ∧ Text.InFormat i.field ∧ i.type.InFormat

/-- An import is written as a spelling of it. -/
theorem Import.encodes_write (i : Import) : Encodes i.write i.Spelled i.InFormat := by
  have htype := (Encodes.bytes [i.type.kind.code] True).andThen i.type.encodes_write
  refine ((Text.encodes_utf8 i.moduleName).andThen
    ((Text.encodes_utf8 i.field).andThen htype)).congr
    (fun run => ?_) (by simp [InFormat])
  constructor
  · rintro ⟨moduleName, _, rfl, hname, field, _, rfl, hfield, _, type, rfl, ⟨-, rfl⟩, htype⟩
    exact ⟨moduleName, field, type, rfl, hname, hfield, htype⟩
  · rintro ⟨moduleName, field, type, rfl, hname, hfield, htype⟩
    exact ⟨moduleName, _, rfl, hname, field, _, rfl, hfield, [_], type, rfl, ⟨trivial, rfl⟩, htype⟩

/-- A global with a type in the format and a whole expression. -/
def GlobalDef.InFormat (g : GlobalDef) : Prop := g.type.InFormat ∧ ConstExpr.Whole g.init

/-- A global is written as a spelling of it. -/
theorem GlobalDef.encodes_write (g : GlobalDef) : Encodes g.write g.Spelled g.InFormat := by
  refine (g.type.encodes_write.andThen (ConstExpr.encodes_bytes g.init)).congr
    (fun run => ?_) Iff.rfl
  constructor
  · rintro ⟨type, _, rfl, htype, hinit, rfl⟩
    exact ⟨type, rfl, htype, hinit⟩
  · rintro ⟨type, rfl, htype, hinit⟩
    exact ⟨type, g.init, rfl, htype, hinit, rfl⟩

/-- An export with a name in the format, of one of the four kinds. -/
def Export.InFormat (e : Export) : Prop := Text.InFormat e.name ∧ e.kind.code < 4

/-- An export is written as a spelling of it. -/
theorem Export.encodes_write (e : Export) : Encodes e.write e.Spelled e.InFormat := by
  have hindex := (Encodes.bytes [e.kind.code] (e.kind.code < 4)).andThen (.u32 e.index)
  refine ((Text.encodes_utf8 e.name).andThen hindex).congr (fun run => ?_) (by simp [InFormat])
  constructor
  · rintro ⟨name, _, rfl, hname, _, index, rfl, ⟨hkind, rfl⟩, hindex⟩
    exact ⟨name, index, rfl, hname, hkind, hindex⟩
  · rintro ⟨name, index, rfl, hname, hkind, hindex⟩
    exact ⟨name, _, rfl, hname, [_], index, rfl, ⟨hkind, rfl⟩, hindex⟩

/-- The number in front of a segment is zero. -/
theorem encodes_segmentIndex (n : UInt32) :
    Encodes (writeU32 n) (fun run => n = 0 ∧ U32 0 run) (n = 0) := by
  refine ((Encodes.u32 n).only (n = 0)).congr (fun run => ?_) (iff_of_eq (true_and _))
  constructor
  · rintro ⟨hrun, rfl⟩
    exact ⟨rfl, hrun⟩
  · rintro ⟨rfl, hrun⟩
    exact ⟨hrun, rfl⟩

/-- An element segment of the first table, with a whole expression and few enough functions. -/
def ElementSegment.InFormat (s : ElementSegment) : Prop :=
  s.table = 0 ∧ ConstExpr.Whole s.offset ∧ s.functions.length < 2 ^ 32

/-- An element segment is written as a spelling of it. -/
theorem ElementSegment.encodes_write (s : ElementSegment) :
    Encodes s.write s.Spelled s.InFormat := by
  have hfunctions := Encodes.vector Encodes.u32 s.functions
  refine ((encodes_segmentIndex s.table).andThen
    ((ConstExpr.encodes_bytes s.offset).andThen hfunctions)).congr (fun run => ?_)
    (by simp [InFormat, Few])
  constructor
  · rintro ⟨table, _, rfl, ⟨hzero, htable⟩, _, functions, rfl, ⟨hoffset, rfl⟩, hfunctions⟩
    exact ⟨table, functions, rfl, hzero, htable, hoffset, hfunctions⟩
  · rintro ⟨table, functions, rfl, hzero, htable, hoffset, hfunctions⟩
    exact ⟨table, _, rfl, ⟨hzero, htable⟩, s.offset, functions, rfl, ⟨hoffset, rfl⟩, hfunctions⟩

/-- A data segment of the first memory, with a whole expression and few enough bytes. -/
def DataSegment.InFormat (s : DataSegment) : Prop :=
  s.memory = 0 ∧ ConstExpr.Whole s.offset ∧ s.bytes.length < 2 ^ 32

/-- A data segment is written as a spelling of it. -/
theorem DataSegment.encodes_write (s : DataSegment) : Encodes s.write s.Spelled s.InFormat := by
  refine ((encodes_segmentIndex s.memory).andThen
    ((ConstExpr.encodes_bytes s.offset).andThen (.sized s.bytes))).congr (fun run => ?_) Iff.rfl
  constructor
  · rintro ⟨memory, _, rfl, ⟨hzero, hmemory⟩, _, bytes, rfl, ⟨hoffset, rfl⟩, hbytes⟩
    exact ⟨memory, bytes, rfl, hzero, hmemory, hoffset, hbytes⟩
  · rintro ⟨memory, bytes, rfl, hzero, hmemory, hoffset, hbytes⟩
    exact ⟨memory, _, rfl, ⟨hzero, hmemory⟩, s.offset, bytes, rfl, ⟨hoffset, rfl⟩, hbytes⟩

/-- Locals of an integer type. -/
def LocalGroup.InFormat (g : LocalGroup) : Prop := g.type.IsInt

/-- A group of locals is written as a spelling of it. -/
theorem LocalGroup.encodes_write (g : LocalGroup) : Encodes g.write g.Spelled g.InFormat :=
  ((Encodes.u32 g.count).andThen g.type.encodes_write).congr (fun _ => Iff.rfl)
    (iff_of_eq (true_and _))

/-- The bytes in which the locals of a body are written. -/
def FuncBody.localsBytes (b : FuncBody) : List UInt8 :=
  (Encoder.vector LocalGroup.write b.locals).produced

/-- A body with locals of integer types whose size can be written. -/
def FuncBody.InFormat (b : FuncBody) : Prop :=
  Few LocalGroup.InFormat b.locals ∧ (b.localsBytes ++ b.code).length < 2 ^ 32

/-- What stands for a body, wherever it is. -/
def FuncBody.Stands : Form FuncBody := fun b run =>
  ∃ size locals, run = size ++ (locals ++ b.code) ∧
    SpellsUnsigned 32 (locals ++ b.code).length size ∧ LocalGroup.Spelled.Counted b.locals locals

/-- A body is written as a spelling of it. -/
theorem FuncBody.encodes_write (b : FuncBody) : Encodes b.write b.Stands b.InFormat :=
  (Encodes.vector LocalGroup.encodes_write b.locals).block b.code

/-! ## Contents of sections -/

namespace Content

/-- Writes the payload of a section. -/
def write : Content → Encoder
  | types entries => Encoder.vector FuncType.write entries
  | imports entries => Encoder.vector Import.write entries
  | functions entries => Encoder.vector writeU32 entries
  | tables entries => Encoder.vector TableType.write entries
  | memories entries => Encoder.vector Limits.write entries
  | globals entries => Encoder.vector GlobalDef.write entries
  | exports entries => Encoder.vector Export.write entries
  | start index => writeU32 index
  | elements entries => Encoder.vector ElementSegment.write entries
  | code entries => Encoder.vector FuncBody.write entries
  | data entries => Encoder.vector DataSegment.write entries
  | custom entry => entry.write

/-- Contents all of whose entries are in the format, and few enough. -/
def InFormat : Content → Prop
  | types entries => Few FuncType.InFormat entries
  | imports entries => Few Import.InFormat entries
  | functions entries => Few (fun _ => True) entries
  | tables entries => Few TableType.InFormat entries
  | memories entries => Few Limits.InFormat entries
  | globals entries => Few GlobalDef.InFormat entries
  | exports entries => Few Export.InFormat entries
  | start _ => True
  | elements entries => Few ElementSegment.InFormat entries
  | code entries => Few FuncBody.InFormat entries
  | data entries => Few DataSegment.InFormat entries
  | custom entry => Text.InFormat entry.name

/-- What stands for contents, wherever they are. -/
def Stands : Form Content
  | code entries => FuncBody.Stands.Counted entries
  | content => content.Spelled none

/-- The content of a section is written as a spelling of it. -/
theorem encodes_write (content : Content) :
    Encodes content.write content.Stands content.InFormat := by
  cases content with
  | types entries => exact .vector FuncType.encodes_write entries
  | imports entries => exact .vector Import.encodes_write entries
  | functions entries => exact .vector Encodes.u32 entries
  | tables entries => exact .vector TableType.encodes_write entries
  | memories entries => exact .vector Limits.encodes_write entries
  | globals entries => exact .vector GlobalDef.encodes_write entries
  | exports entries => exact .vector Export.encodes_write entries
  | start index => exact .u32 index
  | elements entries => exact .vector ElementSegment.encodes_write entries
  | code entries => exact .vector FuncBody.encodes_write entries
  | data entries => exact .vector DataSegment.encodes_write entries
  | custom entry =>
    refine ((Text.encodes_utf8 entry.name).andThen (.bytes entry.bytes True)).congr (fun run => ?_)
      (iff_of_eq (and_true _))
    constructor
    · rintro ⟨name, _, rfl, hname, -, rfl⟩
      exact ⟨name, rfl, hname⟩
    · rintro ⟨name, rfl, hname⟩
      exact ⟨name, entry.bytes, rfl, hname, trivial, rfl⟩

end Content

end IntWasm
