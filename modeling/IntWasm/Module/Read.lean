import IntWasm.DecodeError
import IntWasm.Leb128
import IntWasm.Module.Basic

/-!
# Reading modules

A binary is a header followed by sections, each with a number, a size and a payload of that size.
The known sections come in the order of their numbers and at most once; custom ones may stand
anywhere. Only the structure is read: bodies and constant expressions are kept as bytes.
-/

namespace IntWasm

namespace Reader

variable {α : Type}

/-- A 32-bit number. -/
def u32 : Reader Fault UInt32 := plain Leb128.u32

/-- A byte. -/
def u8 : Reader Fault UInt8 := plain byte

/-- Bytes with their number in front. -/
def sized : Reader Fault (List UInt8) := do
  let n ← u32
  plain (bytes n.toNat)

/-- A text in UTF-8 with its size in front. -/
def utf8 : Reader Fault String := do
  let bs ← sized
  match String.fromUTF8? (ByteArray.mk bs.toArray) with
  | some s => return s
  | none => failLast .invalidSection "malformed UTF-8 encoding"

/-- A list of entries with their number in front. -/
def vector (what : String) (entry : Reader Fault α) : Reader Fault (List α) := do
  let count ← labelled (what ++ " count") u32
  times count.toNat fun i => labelled s!"{what} {i}" entry

/-- Runs a reader on bytes of their own that stand at `origin`, and gives its last position too. -/
def nested (bytes : List UInt8) (origin : Nat) (r : Reader Fault α) : Reader Fault (α × Cursor) :=
  fun c =>
    match r { rest := bytes, origin := some origin } with
    | .ok a inner => .ok (a, inner) c
    | .error e _ => .error e c

end Reader

open Reader

/-! ## Types -/

/-- The value types of other features, with the feature. -/
def ValueType.refused? : UInt8 → Option (String × String)
  | 0x7d => some ("f32", "floating point")
  | 0x7c => some ("f64", "floating point")
  | 0x7b => some ("v128", "SIMD")
  | 0x70 => some ("funcref", "reference types")
  | 0x6f => some ("externref", "reference types")
  | _ => none

/-- Reads a value type. -/
def ValueType.read : Reader Fault ValueType := do
  let b ← u8
  if b = ValueType.i32.code ∨ b = ValueType.i64.code then return ⟨b⟩
  match ValueType.refused? b with
  | some (what, feature) => refuse what feature
  | none => failLast .invalidValueType (Text.hex b.toNat)

/-- Reads a list of value types, whose entries are not labelled. -/
def ValueType.readList : Reader Fault (List ValueType) := do
  let count ← u32
  times count.toNat fun _ => ValueType.read

/-- The byte in front of a signature. -/
def FuncType.mark : UInt8 := 0x60

/-- Reads a signature. There is at most one result. -/
def FuncType.read : Reader Fault FuncType := do
  let form ← u8
  if form ≠ FuncType.mark then
    failLast .invalidSection ("unknown type form " ++ Text.hex form.toNat)
  let params ← ValueType.readList
  let start ← cursor
  let results ← ValueType.readList
  if 1 < results.length then
    throw (.decode (.unsupported start.offset? "result" "multi-value"))
  return { params, results }

/-- Reads the kind of an import or export. -/
def ExternKind.read : Reader Fault ExternKind := do
  let b ← u8
  if b < 4 then return ⟨b⟩
  if b = 4 then refuse "tag" "exception handling"
  failLast .invalidSection s!"invalid external_kind value {b}"

/-- Reads limits. -/
def Limits.read : Reader Fault Limits := do
  let flags ← u32
  if flags < 2 then
    let min ← u32
    let max ← if flags = 1 then u32 else pure 0
    return { flags := flags.toUInt8, min, max }
  if flags < 4 then refuse "shared" "threads"
  if flags < 8 then refuse "i64" "memory64"
  failLast .invalidSection ("invalid limits flags " ++ Text.hex flags.toNat)

/-- Reads the type of a table. -/
def TableType.read : Reader Fault TableType := do
  let b ← u8
  if b = ElemType.funcref.code then
    let limits ← Limits.read
    return { elem := ⟨b⟩, limits }
  if b = 0x6f then refuse "externref" "reference types"
  failLast .invalidValueType ("invalid table element type " ++ Text.hex b.toNat)

/-- Reads the type of a global. -/
def GlobalType.read : Reader Fault GlobalType := do
  let type ← ValueType.read
  let m ← u8
  if m = 0 then return { type, mutable := false }
  if m = 1 then return { type, mutable := true }
  failLast .invalidSection ("invalid global mutability " ++ Text.hex m.toNat)

/-! ## Constant expressions -/

/-- The text for an opcode that a constant expression cannot have. -/
def invalidInitOpcode (op : UInt8) : String :=
  "wasm: invalid opcode in initializer expression: " ++ Text.hex op.toNat

/-- Reads one instruction of a constant expression; `false` says that it was the last. -/
def readConstStep : Reader Fault Bool := do
  let op ← plain innerByte
  match op with
  | 0x0b => return false
  | 0x41 =>
    let _ ← plain Leb128.s32
    return true
  | 0x42 =>
    let _ ← plain Leb128.s64
    return true
  | 0x23 =>
    let _ ← u32
    return true
  | 0x43 => refuse "f32.const" "floating point"
  | 0x44 => refuse "f64.const" "floating point"
  | 0xd0 => refuse "ref.null" "reference types"
  | 0xd2 => refuse "ref.func" "reference types"
  | 0xfd => refuse "v128.const" "SIMD"
  | op => failLast .invalid (invalidInitOpcode op)

/-- Reads the instructions of a constant expression up to its end; each takes at least a byte. -/
def readConstSteps : Nat → Reader Fault Unit
  | 0 => plain (throw .truncated)
  | fuel + 1 => do
    if ← readConstStep then readConstSteps fuel

/-- Reads a constant expression and keeps its bytes, the closing one included. -/
def readConstExpr : Reader Fault (List UInt8) := fun c =>
  match readConstSteps (c.rest.length + 1) c with
  | .ok _ after => .ok (c.rest.take (after.consumed - c.consumed)) after
  | .error e after => .error e after

/-! ## Entries of sections -/

/-- Reads an import. -/
def Import.read : Reader Fault Import := do
  let moduleName ← utf8
  let field ← utf8
  let kind ← ExternKind.read
  if kind = .function then
    let type ← u32
    return { moduleName, field, type := .function type }
  if kind = .memory then
    let limits ← Limits.read
    return { moduleName, field, type := .memory limits }
  if kind = .global then
    let type ← GlobalType.read
    return { moduleName, field, type := .global type }
  refuse "table import" "imported tables"

/-- Reads a global of the module's own. -/
def GlobalDef.read : Reader Fault GlobalDef := do
  let type ← GlobalType.read
  let init ← readConstExpr
  return { type, init }

/-- Reads an export. -/
def Export.read : Reader Fault Export := do
  let name ← utf8
  let kind ← ExternKind.read
  let index ← u32
  return { name, kind, index }

/-- Reads the number in front of a segment. Only zero, for the first table or memory, is supported.
-/
def readSegmentIndex (kind : String) : Reader Fault UInt32 := do
  let flags ← u32
  if flags ≠ 0 then refuse s!"{kind} segment flags {flags}" "bulk memory"
  return flags

/-- Reads an element segment. -/
def ElementSegment.read : Reader Fault ElementSegment := do
  let table ← readSegmentIndex "element"
  let offset ← readConstExpr
  let functions ← vector "element function" u32
  return { table, offset, functions }

/-- Reads a data segment. -/
def DataSegment.read : Reader Fault DataSegment := do
  let memory ← readSegmentIndex "data"
  let offset ← readConstExpr
  let bytes ← sized
  return { memory, offset, bytes }

/-- Reads a group of locals. -/
def LocalGroup.read : Reader Fault LocalGroup := do
  let count ← u32
  let type ← ValueType.read
  return { count, type }

/-- Reads a function body. What follows its locals, up to its size, is its code. -/
def FuncBody.read : Reader Fault FuncBody := do
  let size ← u32
  -- The place is that of the body, behind its size.
  let base := ((← cursor).offset?).getD 0
  let body ← plain (bytes size.toNat)
  let (locals, inner) ← nested body base (vector "local" LocalGroup.read)
  return { locals, code := inner.rest, offset := base + inner.consumed }

/-- Reads a custom section. -/
def CustomSection.read : Reader Fault CustomSection := do
  let name ← labelled "custom section name" utf8
  let bytes ← plain remaining
  return { name, bytes }

/-! ## Sections -/

namespace Module

/-- Reads the payload of a section and adds it to a module. -/
def readPayload (m : Module) (id : SectionId) : Reader Fault Module :=
  if id = .type then do return { m with types := some (← vector "type" FuncType.read) }
  else if id = .imports then do return { m with imports := some (← vector "import" Import.read) }
  else if id = .function then do return { m with functions := some (← vector "function" u32) }
  else if id = .table then do return { m with tables := some (← vector "table" TableType.read) }
  else if id = .memory then do return { m with memories := some (← vector "memory" Limits.read) }
  else if id = .global then do return { m with globals := some (← vector "global" GlobalDef.read) }
  else if id = .exports then do return { m with exports := some (← vector "export" Export.read) }
  else if id = .start then do return { m with start := some (← u32) }
  else if id = .element then do
    return { m with elements := some (← vector "element segment" ElementSegment.read) }
  else if id = .code then do
    return { m with code := some (← vector "function body" FuncBody.read) }
  else if id = .data then do
    return { m with data := some (← vector "data segment" DataSegment.read) }
  else do return { m with customs := m.customs ++ [← CustomSection.read] }

/-- Refuses a section that is unknown, unsupported or not in order; `last` is the number of the last
known section before it. -/
def checkSection (id last : SectionId) (offset : Option Nat) : Except DecodeError Unit :=
  if id = .dataCount then .error (.unsupported offset "data count section" "bulk memory")
  else if id = .tag then .error (.unsupported offset "tag section" "exception handling")
  else if SectionId.data.number < id.number then
    .error { offset, kind := .invalidSection, detail := s!"malformed section id {id.number}" }
  else if id = .custom ∨ last.number < id.number then .ok ()
  else .error
    { offset, kind := .sectionOrder
      detail := id.text ++ " section must occur at most once and before the " ++ last.text
        ++ " section" }

/-- Reads the payload of a section, which has to be used up. -/
def readSectionPayload (m : Module) (id : SectionId) (payload : List UInt8) (start : Nat) :
    Except DecodeError Module :=
  match readPayload m id { rest := payload, origin := some start } with
  | .error e c => .error (e.toDecodeError c.offset?)
  | .ok m c =>
    if c.rest.isEmpty then .ok m
    else .error
      { offset := c.offset?, kind := .invalidSection
        detail := s!"{id.text} section size mismatch: {c.rest.length} bytes unread" }

/-- Reads the section that begins with the number `id`, which has been read. -/
def readSection (m : Module) (id : SectionId) : Reader DecodeError Module := do
  let size ← Leb128.u32.located fun c e => Fault.classify c.offset? "" e
  let start := ((← cursor).offset?).getD 0
  let payload ← (bytes size.toNat).located fun c e =>
    { offset := c.offset?, kind := .truncated, detail := id.text ++ " section"
      cause := some (.read e) }
  match readSectionPayload m id payload start with
  | .error e => throw e
  | .ok m =>
    return { m with spans := m.spans ++ [{ id, start, stop := start + size.toNat, payload }] }

/-- Reads sections until the input ends; each takes at least a byte. -/
def readSections : Nat → SectionId → Module → Reader DecodeError Module
  | 0, _, m => pure m
  | fuel + 1, last, m => fun c =>
    match byte c with
    -- A module may end where a section could begin, and nowhere else.
    | .error .ended c => .ok m c
    | .error e c => .error (Fault.classify c.offset? "" e) c
    | .ok b after =>
      match checkSection ⟨b⟩ last c.offset? with
      | .error e => .error e after
      | .ok _ =>
        match readSection m ⟨b⟩ after with
        | .error e c => .error e c
        | .ok m c => readSections fuel (if b = 0 then last else ⟨b⟩) m c

/-- The number that every binary begins with. -/
def magic : Nat := 0x6d736100

/-- The version of the format. -/
def version : Nat := 1

/-- A number of four bytes, the least significant first. -/
def littleEndian (bytes : List UInt8) : Nat :=
  bytes.foldr (fun b n => b.toNat + 256 * n) 0

/-- Reads one of the two numbers of the header. -/
def readHeaderWord : Reader DecodeError Nat := do
  let bs ← (bytes 4).located fun c e =>
    { offset := c.offset?, kind := .truncated, detail := "module header", cause := some (.read e) }
  return littleEndian bs

/-- Reads a module. -/
def read : Reader DecodeError Module := do
  let first ← readHeaderWord
  if first ≠ magic then
    throw { offset := some 0, kind := .badMagic
            detail := "magic header not detected: " ++ Text.hexPadded 8 first }
  let second ← readHeaderWord
  if second ≠ version then
    throw { offset := some 4, kind := .unsupportedVersion
            detail := s!"unknown binary version {second}" }
  let fuel := (← cursor).rest.length + 1
  readSections fuel .custom {}

/-- Decodes a module from an input that stands for itself. -/
def decode (bytes : List UInt8) (ending : Ending) : Except DecodeError Module :=
  match read { rest := bytes, origin := some 0, ending } with
  | .ok m _ => .ok m
  | .error e _ => .error e

end Module

end IntWasm
