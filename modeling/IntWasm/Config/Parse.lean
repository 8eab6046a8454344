import IntWasm.Config.Basic
import IntWasm.Yaml.Meaning

/-!
# Configurations in YAML

A configuration file sets any of the limits by their names. A name that is not known, a name that
stands twice in a mapping or a value of the wrong kind makes the whole file unreadable. What is left
out keeps its default. Under the name `<<` the settings of other mappings are taken over where it
stands, so a later setting replaces what was taken over and the other way round.

Aliases make a short document stand for a long one. The parts that are looked at are counted, and a
document that consists of little else than aliases is refused.
-/

namespace IntWasm

open Yaml (Node Scalar)

/-- Why a configuration file gives no configuration. -/
inductive ConfigFileFault where
  | unreadable
  | refused (fault : ConfigFault)
  deriving Repr, DecidableEq, Inhabited

/-! ## Counting -/

/-- How many parts of a document were looked at, the document itself among them. -/
structure Visits where
  all : Nat := 1
  /-- Those inside of aliases. -/
  aliased : Nat := 0
  deriving Repr, DecidableEq, Inhabited

namespace Visits

/-- Up to this many parts, 99 of 100 may be inside of aliases. -/
def lenient : Nat := 400000

/-- From this many parts on, 10 of 100 may be inside of aliases. In between, the share falls
evenly. -/
def strict : Nat := 4000000

/-- Whether more parts than allowed are inside of aliases. -/
def excessive (v : Visits) : Bool :=
  100 < v.aliased && 1000 < v.all &&
    if v.all ≤ lenient then v.all * 99 < v.aliased * 100
    else if strict ≤ v.all then v.all * 10 < v.aliased * 100
    else v.all * (99 * (strict - lenient) - 89 * (v.all - lenient))
      < v.aliased * 100 * (strict - lenient)

end Visits

/-- A step in taking over settings; it fails if the document is unreadable. -/
abbrev Filling := StateT Visits Option

/-- Counts a part that is looked at. -/
def Filling.visit (aliased : Bool) : Filling Unit := do
  modify fun v => { all := v.all + 1, aliased := if aliased then v.aliased + 1 else v.aliased }
  if (← get).excessive then failure

/-- The scalar that a part is. -/
def Filling.scalar (aliased : Bool) : Node → Filling Scalar
  | .scalar s => do
    visit aliased
    return s
  | .alias (.scalar s) => do
    visit aliased
    visit true
    return s
  | _ => failure

namespace Config

/-! ## Settings -/

/-- The names of the settings. -/
inductive Setting where
  | callDepth
  | operandStack
  | controlDepth
  | memoryPages
  | allocator
  | pageBudget
  deriving Repr, DecidableEq, Inhabited

/-- All settings with their names in files. -/
def settings : List (List UInt8 × Setting) :=
  [(Text.utf8 "max_call_depth", .callDepth), (Text.utf8 "max_operand_stack", .operandStack),
    (Text.utf8 "max_control_depth", .controlDepth),
    (Text.utf8 "max_memory_pages", .memoryPages), (Text.utf8 "allocator", .allocator),
    (Text.utf8 "page_budget", .pageBudget)]

/-- A configuration with one setting changed. -/
def set? (c : Config) (value : Scalar) : Setting → Option Config
  | .callDepth => value.wide?.map fun n => { c with maxCallDepth := n }
  | .operandStack => value.wide?.map fun n => { c with maxOperandStack := n }
  | .controlDepth => value.wide?.map fun n => { c with maxControlDepth := n }
  | .memoryPages => value.word?.map fun n => { c with maxMemoryPages := n }
  | .allocator => value.bytes?.map fun name => { c with allocatorKind := name }
  | .pageBudget => value.word?.map fun n => { c with pageBudget := n }

/-- The configuration in which everything is zero. -/
def zero : Config :=
  { maxCallDepth := 0, maxOperandStack := 0, maxControlDepth := 0, maxMemoryPages := 0
    allocatorKind := [] }

/-- Whether a part is the name under which other mappings are merged into one. -/
def isMergeKey : Node → Bool
  | .scalar s => s.isMerge
  | _ => false

/-! ## Documents -/

mutual

/-- Takes over the settings of a mapping, or of an alias of one. -/
def fillMapping (aliased : Bool) (c : Config) : Node → Filling Config
  | .mapping entries => do
    Filling.visit aliased
    fillEntries aliased c [] entries
  | .alias target => do
    Filling.visit aliased
    fillAliased c target
  | _ => failure

/-- Takes over the settings of a mapping that is mentioned again. -/
def fillAliased (c : Config) : Node → Filling Config
  | .mapping entries => do
    Filling.visit true
    fillEntries true c [] entries
  | _ => failure

/-- Takes over the entries of a mapping; `done` are the settings that it has changed already. -/
def fillEntries (aliased : Bool) (c : Config) (done : List Setting) :
    List (Node × Node) → Filling Config
  | [] => return c
  | (k, v) :: rest => do
    if isMergeKey k then
      let c ← merge aliased c v
      fillEntries aliased c done rest
    else
      let name ← (← Filling.scalar aliased k).bytes?
      let setting ← settings.lookup name
      if done.contains setting then failure
      let value ← Filling.scalar aliased v
      let c ← c.set? value setting
      fillEntries aliased c (setting :: done) rest

/-- Merges a mapping, or a sequence of mappings of which the first ones count most. -/
def merge (aliased : Bool) (c : Config) : Node → Filling Config
  | .mapping entries => do
    Filling.visit aliased
    fillEntries aliased c [] entries
  | .alias target => do
    Filling.visit aliased
    fillAliased c target
  | .sequence items => mergeAll aliased c items
  | .scalar _ => failure

/-- Merges mappings, the last one first. -/
def mergeAll (aliased : Bool) (c : Config) : List Node → Filling Config
  | [] => return c
  | n :: rest => do
    let c ← mergeAll aliased c rest
    fillMapping aliased c n

end

/-- The configuration of a document. A document that says that there is nothing sets everything to
zero. -/
def ofDocument? (root : Node) : Option Config :=
  match root with
  | .scalar s => if s.meaning? = some .null then some zero else none
  | n => (fillMapping false {} n).run' {}

/-- Reads and checks a configuration file. -/
def parse (s : String) : Except ConfigFileFault Config :=
  match Yaml.firstDocument? s with
  | none => .error .unreadable
  | some root =>
    match (root.map ofDocument?).getD (some {}) with
    | none => .error .unreadable
    | some c => c.check.mapError .refused

end Config

end IntWasm
