import IntWasm.Text.Quoted

/-!
# Counters of the engine's activity

Invocations are counted alone; traps, instantiations and growths of memories are counted by a label.
The counters have a text form, in which families are sorted by their names and samples by their
labels, and a count of more than six digits has an exponent.
-/

namespace IntWasm

/-- Counts by label, sorted by the labels. -/
abbrev Tally := List (String × Nat)

namespace Tally

/-- Adds one to the count of a label. -/
def bump (label : String) : Tally → Tally
  | [] => [(label, 1)]
  | (l, n) :: rest =>
    if label = l then (l, n + 1) :: rest
    else if label < l then (label, 1) :: (l, n) :: rest
    else (l, n) :: bump label rest

end Tally

/-- What the engine has done so far. -/
structure Counters where
  invocations : Nat := 0
  traps : Tally := []
  instantiations : Tally := []
  memoryGrow : Tally := []
  deriving Repr, DecidableEq, Inhabited

namespace Counters

/-- Counts an invocation. -/
def invocation (c : Counters) : Counters := { c with invocations := c.invocations + 1 }

/-- Counts a trap. -/
def trap (kind : String) (c : Counters) : Counters := { c with traps := Tally.bump kind c.traps }

/-- Counts an instantiation by its outcome. -/
def instantiation (result : String) (c : Counters) : Counters :=
  { c with instantiations := Tally.bump result c.instantiations }

/-- Counts a growth of a memory by whether it succeeded. -/
def growth (ok : Bool) (c : Counters) : Counters :=
  { c with memoryGrow := Tally.bump (if ok then "ok" else "failed") c.memoryGrow }

/-- A label in the text form: backslashes, quotes and line ends are escaped. -/
def labelText (s : String) : String :=
  String.join (s.toList.map fun c =>
    if c = '\\' then "\\\\" else if c = '"' then "\\\"" else if c = '\n' then "\\n"
    else c.toString)

/-- The head of a family. -/
def familyText (name help : String) : String :=
  "# HELP " ++ name ++ " " ++ help ++ "\n# TYPE " ++ name ++ " counter\n"

/-- A family with a label; it is left out while it has no samples. -/
def tallyText (name help label : String) (t : Tally) : String :=
  if t.isEmpty then ""
  else
    familyText name help ++ String.join (t.map fun (value, n) =>
      name ++ "\x7b" ++ label ++ "=\"" ++ labelText value ++ "\"\x7d "
        ++ Text.shortDecimal n ++ "\n")

/-- The text form of all counters. -/
def text (c : Counters) : String :=
  tallyText "wasmrt_instantiations_total" "number of module instantiations by result" "result"
      c.instantiations
    ++ familyText "wasmrt_invocations_total" "number of exported function invocations"
    ++ "wasmrt_invocations_total " ++ Text.shortDecimal c.invocations ++ "\n"
    ++ tallyText "wasmrt_memory_grow_total" "number of memory.grow executions by result" "result"
      c.memoryGrow
    ++ tallyText "wasmrt_traps_total" "number of traps by kind" "kind" c.traps

end Counters

end IntWasm
