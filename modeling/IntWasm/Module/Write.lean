import IntWasm.Leb128
import IntWasm.Module.Basic
import IntWasm.Text.Utf8

/-!
# Writing modules

The header is followed by the sections that are present, in the order of their numbers, and then by
the custom sections. A section's payload is put together first, because its size stands in front.
-/

namespace IntWasm

/-- A computation that writes a part of a module. -/
abbrev Encoder := Writer WriteFault Unit

namespace Encoder

/-- Bytes with their number in front. -/
def sized (bs : List UInt8) : Encoder := do
  Writer.bytes (Leb128.encodeNat (bs.length % 0x100000000))
  Writer.bytes bs

/-- A text in UTF-8 with its size in front. -/
def utf8 (s : String) : Encoder := sized (Text.utf8 s)

/-- A list of entries with their number in front. -/
def vector {α : Type} (entry : α → Encoder) (entries : List α) : Encoder := do
  Writer.bytes (Leb128.encodeNat (entries.length % 0x100000000))
  Writer.each entry entries

end Encoder

open Encoder

/-- Writes a value type. -/
def ValueType.write (t : ValueType) : Encoder := Writer.byte t.code

/-- Writes a signature. -/
def FuncType.write (f : FuncType) : Encoder := do
  Writer.byte 0x60
  vector ValueType.write f.params
  vector ValueType.write f.results

/-- Writes limits. The maximum is written if the flags announce it. -/
def Limits.write (l : Limits) : Encoder := do
  Leb128.writeU32 l.flags.toUInt32
  Leb128.writeU32 l.min
  if l.hasMax then Leb128.writeU32 l.max

/-- Writes the type of a table. -/
def TableType.write (t : TableType) : Encoder := do
  Writer.byte t.elem.code
  t.limits.write

/-- Writes the type of a global. -/
def GlobalType.write (g : GlobalType) : Encoder := do
  g.type.write
  Writer.byte (if g.mutable then 1 else 0)

/-- Writes the type of an import. -/
def ImportType.write : ImportType → Encoder
  | function type => Leb128.writeU32 type
  | memory limits => limits.write
  | global type => type.write

/-- Writes an import. -/
def Import.write (i : Import) : Encoder := do
  utf8 i.moduleName
  utf8 i.field
  Writer.byte i.type.kind.code
  i.type.write

/-- Writes a global of the module's own. -/
def GlobalDef.write (g : GlobalDef) : Encoder := do
  g.type.write
  Writer.bytes g.init

/-- Writes an export. -/
def Export.write (e : Export) : Encoder := do
  utf8 e.name
  Writer.byte e.kind.code
  Leb128.writeU32 e.index

/-- Writes an element segment. -/
def ElementSegment.write (s : ElementSegment) : Encoder := do
  Leb128.writeU32 s.table
  Writer.bytes s.offset
  vector Leb128.writeU32 s.functions

/-- Writes a data segment. -/
def DataSegment.write (s : DataSegment) : Encoder := do
  Leb128.writeU32 s.memory
  Writer.bytes s.offset
  sized s.bytes

/-- Writes a group of locals. -/
def LocalGroup.write (l : LocalGroup) : Encoder := do
  Leb128.writeU32 l.count
  l.type.write

/-- Writes a function body. -/
def FuncBody.write (f : FuncBody) : Encoder :=
  sized ((vector LocalGroup.write f.locals).produced ++ f.code)

/-- Writes the payload of a custom section. -/
def CustomSection.write (s : CustomSection) : Encoder := do
  utf8 s.name
  Writer.bytes s.bytes

namespace Module

/-- The writers of the payloads of the known sections, in the order of their numbers; absent
sections have none. -/
def payloads (m : Module) : List (SectionId × Option Encoder) :=
  [(.type, m.types.map (vector FuncType.write)),
    (.imports, m.imports.map (vector Import.write)),
    (.function, m.functions.map (vector Leb128.writeU32)),
    (.table, m.tables.map (vector TableType.write)),
    (.memory, m.memories.map (vector Limits.write)),
    (.global, m.globals.map (vector GlobalDef.write)),
    (.exports, m.exports.map (vector Export.write)),
    (.start, m.start.map Leb128.writeU32),
    (.element, m.elements.map (vector ElementSegment.write)),
    (.code, m.code.map (vector FuncBody.write)),
    (.data, m.data.map (vector DataSegment.write))]

/-- The writer of the payload of a section; of the custom ones, the first. -/
def payload? (m : Module) (id : SectionId) : Option Encoder :=
  if id = .custom then m.customs.head?.map CustomSection.write
  else (m.payloads.lookup id).join

/-- Writes a section: its number, its size and its payload. -/
def writeSection (id : SectionId) (payload : Encoder) : Encoder := do
  Writer.byte id.number
  sized payload.produced

/-- The bytes that every binary begins with. -/
def header : List UInt8 := [0x00, 0x61, 0x73, 0x6d, 0x01, 0x00, 0x00, 0x00]

/-- Writes a module. -/
def write (m : Module) : Encoder := do
  Writer.bytes header
  Writer.each (fun (id, payload) =>
    match payload with
    | some payload => writeSection id payload
    | none => pure ()) m.payloads
  Writer.each (fun c => writeSection .custom c.write) m.customs

/-- The binary of a module. -/
def encode (m : Module) : List UInt8 := m.write.produced

end Module

end IntWasm
