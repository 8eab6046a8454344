import IntWasm.Engine.Instantiate

/-!
# Bindings

A table of definitions that imports are resolved with. A definition is found by its key, which is
the name of its module and its own name with a point between them; a later definition of the same
kind takes the place of an earlier one with the same key.
-/

namespace IntWasm

/-- Definitions by their keys. -/
structure Bindings (H : Type) where
  functions : List (String × HostFunction H) := []
  /-- Places of memories in the store. -/
  memories : List (String × Nat) := []
  /-- Places of globals in the store. -/
  globals : List (String × Nat) := []

namespace Bindings

variable {H σ : Type}

/-- The key of a definition. -/
def key (moduleName name : String) : String := moduleName ++ "." ++ name

/-- A list of definitions with one added or replaced. -/
def put {α : Type} (k : String) (a : α) (list : List (String × α)) : List (String × α) :=
  (k, a) :: list.filter (·.1 ≠ k)

/-- Binds a function. -/
def defineFunction (b : Bindings H) (moduleName name : String) (f : HostFunction H) : Bindings H :=
  { b with functions := put (key moduleName name) f b.functions }

/-- Binds a memory. -/
def defineMemory (b : Bindings H) (moduleName name : String) (address : Nat) : Bindings H :=
  { b with memories := put (key moduleName name) address b.memories }

/-- Binds a global. -/
def defineGlobal (b : Bindings H) (moduleName name : String) (address : Nat) : Bindings H :=
  { b with globals := put (key moduleName name) address b.globals }

/-- Whether there is a definition of any kind with a key. -/
def isDefined (b : Bindings H) (k : String) : Bool :=
  (b.functions.lookup k).isSome || (b.memories.lookup k).isSome || (b.globals.lookup k).isSome

/-- The fault for a key without a definition of the kind that is asked for. -/
def missing (b : Bindings H) (k : String) (kind : ExternKind) : ImportFault :=
  if b.isDefined k then .wrongKind k kind else .notFound k

/-- The function that an import of a given type is resolved to. -/
def function (b : Bindings H) (moduleName name : String) (type : FuncType) :
    Except ImportFault (HostFunction H) :=
  let k := key moduleName name
  match b.functions.lookup k with
  | none => .error (b.missing k .function)
  | some f => if f.type = type then .ok f else .error (.functionType k f.type type)

/-- The memory that an import with given limits is resolved to. -/
def memory (b : Bindings H) (store : Store H σ) (moduleName name : String) (limits : Limits) :
    Except ImportFault Nat :=
  let k := key moduleName name
  match b.memories.lookup k with
  | none => .error (b.missing k .memory)
  | some address =>
    if (store.memories[address]?.getD default).satisfies limits then .ok address
    else .error (.memoryLimits k limits)

/-- The global that an import of a given type is resolved to. -/
def global (b : Bindings H) (store : Store H σ) (moduleName name : String) (type : GlobalType) :
    Except ImportFault Nat :=
  let k := key moduleName name
  match b.globals.lookup k with
  | none => .error (b.missing k .global)
  | some address =>
    match store.globals[address]? with
    | none => .error (b.missing k .global)
    | some g => if g.type = type then .ok address else .error (.globalType k g.type type)

/-- Bindings as a source of definitions. -/
def resolver (b : Bindings H) : Resolver H σ where
  function _ := b.function
  memory := b.memory
  global := b.global

/-- The rest of a text after a beginning, unless nothing is left. -/
def after? (beginning s : List Char) : Option (List Char) :=
  match beginning, s with
  | [], [] => none
  | [], s => some s
  | _ :: _, [] => none
  | a :: beginning, c :: s => if a = c then after? beginning s else none

/-- The names of the functions that are bound under a module, sorted. -/
def functionNames (b : Bindings H) (moduleName : String) : List String :=
  let names := b.functions.filterMap fun (k, _) =>
    (after? (key moduleName "").toList k.toList).map String.ofList
  names.mergeSort fun a b => !decide (b < a)

end Bindings

end IntWasm
