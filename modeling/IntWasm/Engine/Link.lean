import IntWasm.ConstExpr
import IntWasm.Engine.Store

/-!
# How instantiations fail

Instantiating a valid module can fail only for reasons that the module does not decide alone: its
imports, the pages of its memory, the places of its segments and its start function. Those are the
link errors. All other errors are of modules that were not validated, or of the configuration.
-/

namespace IntWasm

/-- Why an import has no definition. The key of a definition is its module and its name. -/
inductive ImportFault where
  | notFound (key : String)
  /-- There is a definition of another kind. -/
  | wrongKind (key : String) (kind : ExternKind)
  | functionType (key : String) (actual expected : FuncType)
  | memoryLimits (key : String) (limits : Limits)
  | globalType (key : String) (actual expected : GlobalType)
  deriving Repr, DecidableEq, Inhabited

namespace ImportFault

/-- Whether a definition was found that does not fit. -/
def isMismatch : ImportFault → Bool
  | notFound _ => false
  | _ => true

/-- The text that is shown for a fault. -/
def message : ImportFault → String
  | notFound key => "import not found: " ++ key
  | wrongKind key kind => "import type mismatch: " ++ key ++ " is not a " ++ kind.text
  | functionType key actual expected =>
    "import type mismatch: " ++ key ++ " has type " ++ actual.text ++ ", import expects "
      ++ expected.text
  | memoryLimits key limits =>
    "import type mismatch: memory " ++ key ++ " does not satisfy limits " ++ limits.text
  | globalType key actual expected =>
    "import type mismatch: global " ++ key ++ " has type " ++ actual.text ++ ", import expects "
      ++ expected.text

end ImportFault

/-- The classes of link errors. -/
inductive LinkError.Kind where
  | importNotFound
  | importTypeMismatch
  | allocation
  | outOfBounds
  | startTrap
  deriving Repr, DecidableEq, Inhabited

/-- The name of a class. -/
def LinkError.Kind.text : LinkError.Kind → String
  | importNotFound => "import not found"
  | importTypeMismatch => "import type mismatch"
  | allocation => "allocation error"
  | outOfBounds => "out of bounds initialization"
  | startTrap => "start function trapped"

/-- What lies behind a link error. -/
inductive LinkError.Cause where
  /-- There is nothing to resolve imports with. -/
  | noResolver
  | unresolved (fault : ImportFault)
  | typeIndex (index : UInt32)
  | signature (actual expected : FuncType)
  /-- A memory or global that was found does not fit. -/
  | unsuitable
  /-- A memory that another instance uses. -/
  | memoryInUse
  | allocation (fault : AllocationFault)
  | elementSegment (index : Nat)
  | dataSegment (index : Nat)
  | start (error : TrapError)
  deriving Repr, DecidableEq, Inhabited

namespace LinkError.Cause

/-- The class of a cause. -/
def kind : LinkError.Cause → LinkError.Kind
  | noResolver => .importNotFound
  | unresolved fault => if fault.isMismatch then .importTypeMismatch else .importNotFound
  | typeIndex _ | signature _ _ | unsuitable | memoryInUse => .importTypeMismatch
  | allocation _ => .allocation
  | elementSegment _ | dataSegment _ => .outOfBounds
  | start _ => .startTrap

/-- The text of a cause. -/
def message : LinkError.Cause → String
  | noResolver => "import not found"
  | unresolved fault => fault.message
  | typeIndex index => "invalid type index " ++ toString index.toNat
  | signature actual expected =>
    "import type mismatch: have " ++ actual.text ++ ", want " ++ expected.text
  | unsuitable => "import type mismatch"
  | memoryInUse => "import type mismatch: memory is already in use by another instance"
  | allocation fault => fault.message
  | elementSegment i => s!"segment out of bounds: element segment {i} does not fit in table"
  | dataSegment i => s!"segment out of bounds: data segment {i} does not fit in memory"
  | start error => error.message

end LinkError.Cause

/-- Why a valid module could not be instantiated, with the import that is to blame, if one is. -/
structure LinkError where
  moduleName : String := ""
  field : String := ""
  cause : LinkError.Cause
  deriving Repr, DecidableEq, Inhabited

namespace LinkError

/-- The class of an error. -/
def kind (e : LinkError) : LinkError.Kind := e.cause.kind

/-- The text that is shown for an error. -/
def message (e : LinkError) : String :=
  let place :=
    if e.moduleName = "" ∧ e.field = "" then "" else " (" ++ e.moduleName ++ "." ++ e.field ++ ")"
  "wasm: instantiation failed: " ++ e.kind.text ++ place ++ ": " ++ e.cause.message

end LinkError

/-- Why the offset of a segment is not known. -/
inductive OffsetFault where
  | expr (fault : ConstFault)
  | type (actual : ValueType)
  deriving Repr, DecidableEq, Inhabited

/-- The text that is shown for a fault. -/
def OffsetFault.message : OffsetFault → String
  | expr fault => fault.message
  | type actual => "offset has type " ++ actual.text ++ ", want i32"

/-- Why a module was not instantiated. -/
inductive InstantiateError where
  | config (fault : ConfigFault)
  | link (error : LinkError)
  /-- There are not as many bodies as functions. -/
  | bodyCount
  | functionType (function : Nat) (type : UInt32)
  | body (function : Nat) (error : DecodeError)
  | global (index : Nat) (fault : ConstFault)
  | globalType (index : Nat) (actual expected : ValueType)
  | element (index : Nat) (fault : OffsetFault)
  | data (index : Nat) (fault : OffsetFault)
  | crashed (crash : Crash)
  deriving Repr, DecidableEq, Inhabited

namespace InstantiateError

/-- The text that is shown for an error. -/
def message : InstantiateError → String
  | config fault => fault.message
  | link error => error.message
  | bodyCount => "function and code section sizes differ"
  | functionType function type => s!"function {function}: invalid type index {type}"
  | body function error => s!"function {function}: " ++ error.message
  | global index fault => s!"global {index}: " ++ fault.message
  | globalType index actual expected =>
    s!"global {index}: initializer has type " ++ actual.text ++ ", want " ++ expected.text
  | element index fault => s!"element segment {index}: " ++ fault.message
  | data index fault => s!"data segment {index}: " ++ fault.message
  | crashed crash => crash.message

/-- The label under which an error is counted. -/
def label : InstantiateError → String
  | link error => error.kind.text.map fun c => if c = ' ' then '_' else c
  | _ => "failed"

end InstantiateError

end IntWasm
