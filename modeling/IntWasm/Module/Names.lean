import IntWasm.Module.Read
import IntWasm.Module.Write

/-!
# Names for debugging

The custom section `name` holds names of the module, its functions and their locals in subsections,
each with a number and a size. Subsections of other kinds are skipped.
-/

namespace IntWasm

/-- A name for the entry of an index space. -/
structure Naming where
  index : UInt32
  name : String
  deriving Repr, DecidableEq, Inhabited

/-- The names of the locals of one function. -/
structure LocalNames where
  function : UInt32
  names : List Naming
  deriving Repr, DecidableEq, Inhabited

/-- One subsection. -/
inductive NameSubsection where
  | module (name : String)
  | functions (names : List Naming)
  | locals (functions : List LocalNames)
  deriving Repr, DecidableEq, Inhabited

/-- The contents of a name section. -/
structure NameSection where
  entries : List NameSubsection
  deriving Repr, DecidableEq, Inhabited

/-- Why names could not be read. -/
inductive NameFault where
  /-- The module has no name section. -/
  | absent
  | fault (fault : Fault)
  /-- A subsection that is to be skipped is shorter than its size. -/
  | skipping (subsection : UInt32) (fault : ReadFault)
  deriving Repr, DecidableEq, Inhabited

/-- The text that is shown for a fault. -/
def NameFault.message : NameFault → String
  | absent => "wasm: module has no name section"
  | fault inner => inner.message
  | skipping subsection inner =>
    "reading name subsection " ++ Text.hexDigits subsection.toNat ++ ": " ++ inner.message

namespace NameSubsection

/-- The number of a subsection's kind. -/
def number : NameSubsection → UInt8
  | module _ => 0
  | functions _ => 1
  | locals _ => 2

/-- Reads a name for an index. -/
def readNaming : Reader Fault Naming := do
  let index ← Reader.u32
  let name ← Reader.utf8
  return { index, name }

/-- Reads a list of names. -/
def readNamings : Reader Fault (List Naming) := do
  let count ← Reader.u32
  Reader.times count.toNat fun _ => readNaming

/-- Reads the names of the locals of one function. -/
def readLocals : Reader Fault LocalNames := do
  let function ← Reader.u32
  let names ← readNamings
  return { function, names }

/-- Reads the contents of a subsection. The low byte of its number tells its kind. -/
def read? (kind : UInt8) : Option (Reader Fault NameSubsection) :=
  match kind with
  | 0 => some (do return .module (← Reader.utf8))
  | 1 => some (do return .functions (← readNamings))
  | 2 => some do
    let count ← Reader.u32
    return .locals (← Reader.times count.toNat fun _ => readLocals)
  | _ => none

/-- Writes a name for an index. -/
def writeNaming (n : Naming) : Encoder := do
  Leb128.writeU32 n.index
  Encoder.utf8 n.name

/-- Writes the names of the locals of one function. -/
def writeLocals (l : LocalNames) : Encoder := do
  Leb128.writeU32 l.function
  Encoder.vector writeNaming l.names

/-- Writes the contents of a subsection. -/
def writeContents : NameSubsection → Encoder
  | module name => Encoder.utf8 name
  | functions names => Encoder.vector writeNaming names
  | locals entries => Encoder.vector writeLocals entries

/-- Writes a subsection. -/
def write (s : NameSubsection) : Encoder := do
  Leb128.writeU32 s.number.toUInt32
  Encoder.sized s.writeContents.produced

end NameSubsection

namespace NameSection

/-- Passes over `n` bytes; if there are fewer, the input has ended. -/
def skip (n : Nat) : Reader ReadFault Unit := fun c =>
  if n ≤ c.rest.length then .ok () (c.advance n)
  else .error c.ending.fault (c.advance c.rest.length)

/-- Reads a subsection after its number; one of another kind is skipped. -/
def readSubsection (id : UInt32) : Reader NameFault (Option NameSubsection) := do
  let size ← Reader.u32.lift NameFault.fault
  match NameSubsection.read? id.toUInt8 with
  | some contents =>
    let s ← Reader.within size.toNat (contents.lift NameFault.fault)
    return some s
  | none =>
    (skip size.toNat).lift (NameFault.skipping id)
    return none

/-- Reads subsections until the input ends; each takes at least a byte. -/
def readFrom : Nat → Reader NameFault (List NameSubsection)
  | 0 => pure []
  | fuel + 1 => fun c =>
    match Leb128.u32 c with
    | .error .ended c => .ok [] c
    | .error e c => .error (.fault (.read e)) c
    | .ok id c =>
      match readSubsection id c with
      | .error e c => .error e c
      | .ok s c =>
        match readFrom fuel c with
        | .error e c => .error e c
        | .ok more c => .ok (s.toList ++ more) c

/-- Reads a name section. -/
def read : Reader NameFault NameSection := fun c =>
  match readFrom (c.rest.length + 1) c with
  | .error e c => .error e c
  | .ok entries c => .ok { entries } c

/-- Writes a name section. -/
def write (s : NameSection) : Encoder := Writer.each NameSubsection.write s.entries

/-- The names in the first subsection of function names. -/
def functionNamings? (s : NameSection) : Option (List Naming) :=
  s.entries.findSome? fun
    | .functions names => some names
    | _ => none

/-- The name of the function with a given index; of several, the last. -/
def nameIn? (names : List Naming) (index : UInt32) : Option String :=
  (names.reverse.find? (·.index = index)).map (·.name)

end NameSection

/-- The names of a module. -/
def Module.names (m : Module) : Except NameFault NameSection :=
  match m.custom? "name" with
  | none => .error .absent
  | some s =>
    match NameSection.read { rest := s.bytes } with
    | .ok names _ => .ok names
    | .error e _ => .error e

end IntWasm
