import IntWasm.Proofs.Module.Positions
import IntWasm.Proofs.Structured.Nesting

/-!
# The places of what validation reports

A rule that a body breaks is reported at the instruction that breaks it, counted from the start of
the body's code in the binary. Other rules are reported without a place, also those about constant
expressions, although these are checked as bodies are. Main statement: `Module.load_places`.
-/

namespace IntWasm

/-! ## Computations that fail -/

section

variable {ε α β : Type} {P : ε → Prop}

/-- A computation fails only with errors of a kind. -/
def FailsWith (P : ε → Prop) (x : Except ε α) : Prop := ∀ e, x = .error e → P e

/-- A success has no error. -/
theorem failsWith_ok (a : α) : FailsWith P (.ok a : Except ε α) := nofun

/-- A failure has the one error it was given. -/
theorem failsWith_error {e : ε} (he : P e) : FailsWith P (.error e : Except ε α) := by
  rintro _ ⟨⟩
  exact he

/-- A sequence fails with the errors of its steps. -/
theorem FailsWith.bind {x : Except ε α} {next : α → Except ε β} (hx : FailsWith P x)
    (hnext : ∀ a, FailsWith P (next a)) : FailsWith P (x >>= next) := by
  cases x with
  | error e => exact failsWith_error (hx e rfl)
  | ok a => exact hnext a

/-- A choice fails with the errors of its branches. -/
theorem FailsWith.ite {condition : Prop} [Decidable condition] {x y : Except ε α}
    (hx : FailsWith P x) (hy : FailsWith P y) : FailsWith P (if condition then x else y) := by
  split
  · exact hx
  · exact hy

end

/-! ## Instructions -/

/-- An error of an instruction does not say where the instruction stands. -/
def Fault.Unplaced : Fault → Prop
  | .read _ => True
  | .decode e => e.offset = none

namespace Instruction

/-- An immediate that is a number is reported without a place. -/
theorem number_unplaced {α : Type} (r : Reader ReadFault α) (bytes : List UInt8) :
    FailsWith Fault.Unplaced (number r bytes) := by
  unfold number
  split
  · exact failsWith_ok _
  · exact failsWith_error trivial

/-- A byte that is no block type is reported without a place. -/
theorem blockTypeOf_unplaced (b : UInt8) :
    FailsWith (fun e => e.offset = none) (blockTypeOf b) := by
  unfold blockTypeOf
  split <;> first | exact failsWith_ok _ | exact failsWith_error rfl

/-- A block type is reported without a place. -/
theorem blockType_unplaced (bytes : List UInt8) : FailsWith Fault.Unplaced (blockType bytes) := by
  unfold blockType
  split
  · exact failsWith_error trivial
  · rename_i b rest
    split
    · cases htype : blockTypeOf b with
      | ok type => exact failsWith_ok _
      | error e => exact failsWith_error (blockTypeOf_unplaced b e htype)
    · cases hnumber : number Leb128.s33 (b :: rest) with
      | error e => exact failsWith_error (number_unplaced _ _ e hnumber)
      | ok p => exact FailsWith.ite (failsWith_error rfl) (failsWith_error rfl)

/-- The labels of a table are reported without a place. -/
theorem tableLabels_unplaced (n : Nat) (bytes : List UInt8) :
    FailsWith Fault.Unplaced (tableLabels n bytes) := by
  induction n generalizing bytes with
  | zero => exact failsWith_ok _
  | succ n ih => exact (number_unplaced _ _).bind fun p => (ih p.2).bind fun _ => failsWith_ok _

/-- A reserved byte is reported without a place. -/
theorem reserved_unplaced (what feature : String) (bytes : List UInt8) :
    FailsWith Fault.Unplaced (reserved what feature bytes) := by
  unfold reserved
  split
  · exact failsWith_error trivial
  · exact (failsWith_ok _).ite (failsWith_error rfl)

/-- Whatever an opcode's immediates are, their errors have no place. -/
theorem immediates_unplaced (op : Opcode) (bytes : List UInt8) :
    FailsWith Fault.Unplaced (immediates op bytes) := by
  have hnumber {α β : Type} (r : Reader ReadFault α) (bytes : List UInt8)
      (next : α × List UInt8 → Except Fault β) (hnext : ∀ p, FailsWith Fault.Unplaced (next p)) :
      FailsWith Fault.Unplaced (number r bytes >>= next) := (number_unplaced r bytes).bind hnext
  have hreserved {β : Type} (what feature : String) (bytes : List UInt8)
      (next : List UInt8 → Except Fault β) (hnext : ∀ p, FailsWith Fault.Unplaced (next p)) :
      FailsWith Fault.Unplaced (reserved what feature bytes >>= next) :=
    (reserved_unplaced what feature bytes).bind hnext
  cases op with
  | block => exact (blockType_unplaced _).bind fun _ => failsWith_ok _
  | loop => exact (blockType_unplaced _).bind fun _ => failsWith_ok _
  | ifThen => exact (blockType_unplaced _).bind fun _ => failsWith_ok _
  | brTable =>
    refine hnumber _ _ _ fun p => FailsWith.ite (failsWith_error trivial) ?_
    exact (tableLabels_unplaced _ _).bind fun _ => hnumber _ _ _ fun _ => failsWith_ok _
  | callIndirect => exact hnumber _ _ _ fun _ => hreserved _ _ _ _ fun _ => failsWith_ok _
  | load => exact hnumber _ _ _ fun _ => hnumber _ _ _ fun _ => failsWith_ok _
  | store => exact hnumber _ _ _ fun _ => hnumber _ _ _ fun _ => failsWith_ok _
  | memorySize => exact hreserved _ _ _ _ fun _ => failsWith_ok _
  | memoryGrow => exact hreserved _ _ _ _ fun _ => failsWith_ok _
  | const width => cases width <;> exact hnumber _ _ _ fun _ => failsWith_ok _
  | _ => first | exact failsWith_ok _ | exact hnumber _ _ _ fun _ => failsWith_ok _

/-- A refused opcode is reported without a place by the reader of instructions. -/
theorem refusal_unplaced (opcode : UInt8) : (refusal none opcode).offset = none := by
  unfold refusal
  split <;> rfl

/-- Also one of the two-byte opcodes. -/
theorem refuseByte_unplaced (opcode : UInt8) (rest : List UInt8) :
    (refuseByte opcode rest).Unplaced := by
  unfold refuseByte
  split
  · cases hnumber : number Leb128.u32 rest with
    | error e => exact number_unplaced _ _ e hnumber
    | ok p => exact rfl
  · exact refusal_unplaced opcode

/-- An instruction that cannot be read is reported without a place. -/
theorem ofBytes_unplaced (bytes : List UInt8) : FailsWith Fault.Unplaced (ofBytes bytes) := by
  unfold ofBytes
  -- Any lookup will do, and to look a byte up the kernel would have to build the table of opcodes.
  generalize Opcode.ofByte? = find
  as_aux_lemma =>
    split
    · exact failsWith_error trivial
    · split
      · exact failsWith_error (refuseByte_unplaced _ _)
      · exact (immediates_unplaced _ _).bind fun _ => failsWith_ok _

end Instruction

/-! ## Bodies -/

namespace Body

/-- What is left of code behind whole instructions of it. -/
inductive Reaches (code : List UInt8) : List UInt8 → Prop
  | start : Reaches code code
  | next {bytes rest : List UInt8} {i : Instruction} (hreach : Reaches code bytes)
      (hread : Instruction.ofBytes bytes = .ok (i, rest)) : Reaches code rest

/-- An error in code is reported at an instruction of it, or at its end because an instruction is
missing there. -/
structure FailsAt (code : List UInt8) (fault : Fault) (position : Nat) : Prop where
  unplaced : fault.Unplaced
  position : (∃ rest, Reaches code rest ∧ rest ≠ [] ∧ position = code.length - rest.length) ∨
    fault = .read .truncated ∧ position = code.length

/-- The check of a body fails at an instruction it has reached, with an error that stands there. By
induction on the number of instructions. -/
theorem checkFrom_fails {scope : Scope} {code rest : List UInt8} (hreach : Reaches code rest)
    (fuel : Nat) (s : Checker) :
    FailsWith (fun e => FailsAt code e.1 e.2) (checkFrom scope code.length fuel rest s) := by
  -- At the end of the code there is no instruction, and only a truncation can fail there.
  have hhere {rest : List UInt8} {fault : Fault} (hreach : Reaches code rest)
      (hfault : fault.Unplaced) (hend : rest = [] → fault = .read .truncated) :
          FailsAt code fault (code.length - rest.length) := by
    by_cases hrest : rest = []
    · exact ⟨hfault, .inr ⟨hend hrest, by simp [hrest]⟩⟩
    · exact ⟨hfault, .inl ⟨rest, hreach, hrest, rfl⟩⟩
  induction fuel generalizing rest s with
  | zero => exact failsWith_error (hhere hreach trivial fun _ => rfl)
  | succ fuel ih =>
    cases hread : Instruction.ofBytes rest with
    | error fault =>
      rw [Structured.checkFrom_of_error hread]
      refine failsWith_error (hhere hreach (Instruction.ofBytes_unplaced rest fault hread) ?_)
      rintro rfl
      exact (Except.error.inj hread).symm
    | ok p =>
      obtain ⟨i, later⟩ := p
      have hrest : rest ≠ [] := by
        rintro rfl
        cases hread
      rw [Structured.checkFrom_of_read hread]
      cases hop : i.op? with
      | none =>
        simp only
        exact failsWith_error
          (hhere hreach (Instruction.refusal_unplaced _) fun h => absurd h hrest)
      | some op =>
        simp only
        cases hstep : s.step scope op i later.isEmpty with
        | error rule => exact failsWith_error (hhere hreach rfl fun h => absurd h hrest)
        | ok progress =>
          cases progress with
          | done body => exact failsWith_ok _
          | more s => exact ih (hreach.next hread) s

end Body

/-- An error is reported at an instruction of a body, at the start of its code because it has too
many locals, or at its end because an instruction is missing there. -/
def FuncBody.Places (f : FuncBody) (e : DecodeError) : Prop :=
  (∃ rest, Body.Reaches f.code rest ∧ rest ≠ [] ∧
    e.offset = some (f.offset + (f.code.length - rest.length))) ∨
  (e.offset = some f.offset ∧ ∃ function locals,
    e.cause = some (.violation (.tooManyLocals function locals))) ∨
  (e.offset = some (f.offset + f.code.length) ∧ e.kind = .truncated)

/-- Where an error of a body is placed lies within its code. -/
theorem FuncBody.Places.inside {f : FuncBody} {e : DecodeError} (hplaces : f.Places e) :
    ∃ k, e.offset = some k ∧ f.offset ≤ k ∧ k ≤ f.offset + f.code.length := by
  rcases hplaces with ⟨rest, -, -, hoffset⟩ | ⟨hoffset, -⟩ | ⟨hoffset, -⟩
  · exact ⟨_, hoffset, by omega, by omega⟩
  · exact ⟨_, hoffset, by omega, by omega⟩
  · exact ⟨_, hoffset, by omega, by omega⟩

namespace Body

/-- The check of a body places every error. -/
theorem check_places (scope : Scope) (results : List ValueType) (f : FuncBody) :
    FailsWith f.Places (check scope results f.offset f.code) := by
  have hfails : FailsWith (fun e => FailsAt f.code e.1 e.2)
      (checkFrom scope f.code.length (f.code.length + 1) f.code
          (Checker.openBlock {} .function results)) :=
    checkFrom_fails .start _ _
  cases hcheck : checkFrom scope f.code.length (f.code.length + 1) f.code
    (Checker.openBlock {} .function results) with
  | ok body =>
    simp only [check, hcheck]
    exact failsWith_ok _
  | error p =>
    obtain ⟨fault, position⟩ := p
    obtain ⟨hunplaced, hposition⟩ := hfails _ hcheck
    have hoffset : (fault.toDecodeError (some (f.offset + position))).offset =
        some (f.offset + position) := by
      cases fault with
      | read fault => exact Fault.offset_classify _ _ _
      | decode e => simp [Fault.toDecodeError, Fault.labelled, show e.offset = none from hunplaced]
    simp only [check, hcheck]
    refine failsWith_error ?_
    rcases hposition with ⟨rest, hreach, hrest, rfl⟩ | ⟨rfl, rfl⟩
    · exact .inl ⟨rest, hreach, hrest, hoffset⟩
    · exact .inr (.inr ⟨hoffset, rfl⟩)

end Body

namespace Module

/-! ## Rules -/

/-- An error that has no place. -/
abbrev Unplaced (e : InvalidModule) : Prop := e.error.offset = none

/-- A rule of the module is reported without a place. -/
theorem require_unplaced (condition : Bool) (rule : Violation) :
    FailsWith Unplaced (require condition rule) :=
  FailsWith.ite (failsWith_ok _) (failsWith_error rfl)

/-- A check of a list fails as the check of one of its entries does. -/
theorem FailsWith.forEachFrom {α : Type} {P : InvalidModule → Prop}
    {check : Nat → α → Except InvalidModule Unit} (i : Nat) {entries : List α}
    (hcheck : ∀ i, ∀ a ∈ entries, FailsWith P (check i a)) :
    FailsWith P (forEachFrom check i entries) := by
  induction entries generalizing i with
  | nil => exact failsWith_ok _
  | cons a entries ih =>
    exact (hcheck i a (by simp)).bind fun _ => ih (i + 1) fun j b hb => hcheck j b (by simp [hb])

/-- Limits are checked without a place. -/
theorem checkLimits_unplaced (what : String) (l : Limits) (bound : Nat) :
    FailsWith Unplaced (checkLimits what l bound) :=
  (require_unplaced _ _).bind fun _ => require_unplaced _ _

/-- Imports are checked without a place. -/
theorem checkImports_unplaced (m : Module) : FailsWith Unplaced m.checkImports := by
  refine FailsWith.forEachFrom 0 fun _ i _ => ?_
  split
  · exact require_unplaced _ _
  · exact checkLimits_unplaced _ _ _
  · exact failsWith_ok _

/-- Functions' types are checked without a place. -/
theorem checkFunctions_unplaced (m : Module) : FailsWith Unplaced m.checkFunctions :=
  (require_unplaced _ _).bind fun _ => FailsWith.forEachFrom 0 fun _ _ _ => require_unplaced _ _

/-- Tables are checked without a place. -/
theorem checkTables_unplaced (m : Module) : FailsWith Unplaced m.checkTables := by
  refine (require_unplaced _ _).bind fun _ => ?_
  split
  · exact failsWith_ok _
  · exact checkLimits_unplaced _ _ _

/-- Memories are checked without a place. -/
theorem checkMemories_unplaced (m : Module) : FailsWith Unplaced m.checkMemories := by
  refine (require_unplaced _ _).bind fun _ => ?_
  split
  · exact failsWith_ok _
  · exact checkLimits_unplaced _ _ _

/-- An instruction of a constant expression is checked without a place. -/
theorem checkConstInstruction_unplaced (globals : List GlobalType) (i : Instruction) :
    FailsWith (fun e => e.offset = none) (checkConstInstruction globals i) := by
  rw [checkConstInstruction]
  generalize Instruction.op? = find
  as_aux_lemma =>
    split
    · exact failsWith_ok _
    · exact failsWith_ok _
    · split
      · exact FailsWith.ite (failsWith_error rfl) (failsWith_ok _)
      · exact failsWith_error rfl
    · exact failsWith_error rfl

/-- So are all of them. -/
theorem checkConstInstructions_unplaced (globals : List GlobalType)
    (instructions : List Instruction) :
    FailsWith (fun e => e.offset = none) (checkConstInstructions globals instructions) := by
  induction instructions with
  | nil => exact failsWith_ok _
  | cons i rest ih =>
    rw [checkConstInstructions]
    exact (checkConstInstruction_unplaced globals i).bind fun _ => ih

/-- Constant expressions are checked without a place. -/
theorem inPart_unplaced (part : String) (globals : List GlobalType) (expected : ValueType)
    (expr : List UInt8) : FailsWith Unplaced (inPart part (checkConst globals expected expr)) := by
  have hconst : FailsWith (fun e => e.offset = none) (checkConst globals expected expr) := by
    unfold checkConst
    split
    · exact failsWith_error rfl
    · exact checkConstInstructions_unplaced _ _
  unfold inPart
  cases hcheck : checkConst globals expected expr with
  | ok u => exact failsWith_ok _
  | error e => exact failsWith_error (hconst e hcheck)

/-- Globals are checked without a place. -/
theorem checkGlobals_unplaced (m : Module) : FailsWith Unplaced m.checkGlobals :=
  FailsWith.forEachFrom 0 fun _ _ _ => inPart_unplaced _ _ _ _

/-- Element segments are checked without a place. -/
theorem checkElements_unplaced (m : Module) : FailsWith Unplaced m.checkElements :=
  FailsWith.forEachFrom 0 fun _ _ _ => (require_unplaced _ _).bind fun _ =>
    (inPart_unplaced _ _ _ _).bind fun _ => FailsWith.forEachFrom 0 fun _ _ _ =>
      require_unplaced _ _

/-- Data segments are checked without a place. -/
theorem checkData_unplaced (m : Module) : FailsWith Unplaced m.checkData :=
  FailsWith.forEachFrom 0 fun _ _ _ => (require_unplaced _ _).bind fun _ => inPart_unplaced _ _ _ _

/-- The start function is checked without a place. -/
theorem checkStart_unplaced (m : Module) : FailsWith Unplaced m.checkStart := by
  unfold checkStart
  split
  · exact failsWith_ok _
  · split
    · exact failsWith_error rfl
    · exact require_unplaced _ _

/-- Exports are checked without a place. -/
theorem checkExports_unplaced (m : Module) : FailsWith Unplaced m.checkExports := by
  have hfrom (entries : List Export) (seen : List String) :
      FailsWith Unplaced (m.checkExportsFrom seen entries) := by
    induction entries generalizing seen with
    | nil => exact failsWith_ok _
    | cons e entries ih =>
      exact (require_unplaced _ _).bind fun _ => (require_unplaced _ _).bind fun _ => ih _
  exact hfrom _ _

/-- A body's error is kept as the module's. -/
theorem checkedBody_places (scope : Scope) (results : List ValueType) (f : FuncBody) :
    FailsWith (fun e : InvalidModule => f.Places e.error)
      (match Body.check scope results f.offset f.code with
        | .ok _ => .ok ()
        | .error error => .error { error } : Except InvalidModule Unit) := by
  cases hcheck : Body.check scope results f.offset f.code with
  | ok body => exact failsWith_ok _
  | error e => exact failsWith_error (Body.check_places _ _ f e hcheck)

/-- A body places every error, also that it has too many locals. -/
theorem checkBody_places (m : Module) (function : Nat) (type : FuncType) (f : FuncBody) :
    FailsWith (fun e => f.Places e.error) (m.checkBody function type f) := by
  have hbody := checkedBody_places (m.scope (localGroups type f)) type.results f
  exact FailsWith.ite ((failsWith_error (.inr (.inl ⟨rfl, _, _, rfl⟩))).bind fun _ => hbody) hbody

/-- Validation reports no place, or one in a body of the module. -/
theorem validate_places (m : Module) :
    FailsWith (fun e => e.error.offset = none ∨ ∃ f ∈ m.code.getD [], f.Places e.error)
      m.validate := by
  have hunplaced {x : Except InvalidModule Unit} (hx : FailsWith Unplaced x) :
      FailsWith (fun e => e.error.offset = none ∨ ∃ f ∈ m.code.getD [], f.Places e.error) x :=
    fun e he => .inl (hx e he)
  refine (hunplaced m.checkImports_unplaced).bind fun _ =>
    (hunplaced m.checkFunctions_unplaced).bind fun _ =>
        (hunplaced m.checkTables_unplaced).bind fun _ =>
    (hunplaced m.checkMemories_unplaced).bind fun _ =>
        (hunplaced m.checkGlobals_unplaced).bind fun _ =>
    (hunplaced m.checkElements_unplaced).bind fun _ =>
        (hunplaced m.checkData_unplaced).bind fun _ =>
    (hunplaced m.checkStart_unplaced).bind fun _ =>
      (hunplaced m.checkExports_unplaced).bind fun _ => ?_
  refine FailsWith.forEachFrom 0 fun i entry hentry e he => .inr ⟨entry.2, ?_, ?_⟩
  · exact (List.of_mem_zip hentry).2
  · exact checkBody_places m _ _ entry.2 e he

/-- A binary is loaded, or refused by decoding at a place in it, or by validation without a place or
at one in the code of a body. -/
theorem load_places (b : List UInt8) :
    (∃ m, load b .eof = .ok m) ∨ ∃ e, load b .eof = .error e ∧
      ((decode b .eof = .error e.error ∧ ∃ k, e.error.offset = some k ∧ k ≤ b.length) ∨
        ∃ m, decode b .eof = .ok m ∧ m.validate = .error e ∧ (e.error.offset = none ∨
          ∃ f ∈ m.code.getD [], f.Places e.error ∧
            ∃ k, e.error.offset = some k ∧ f.offset ≤ k ∧ k ≤ f.offset + f.code.length)) := by
  unfold load
  cases hdecode : decode b .eof with
  | error e => exact .inr ⟨_, rfl, .inl ⟨rfl, placedBy_decode hdecode⟩⟩
  | ok m =>
    cases hvalidate : m.validate with
    | ok u => exact .inl ⟨m, by simp [hvalidate]⟩
    | error e =>
      refine .inr ⟨e, by simp [hvalidate], .inr ⟨m, rfl, hvalidate, ?_⟩⟩
      rcases validate_places m e hvalidate with hnone | ⟨f, hf, hplaces⟩
      · exact .inl hnone
      · exact .inr ⟨f, hf, hplaces, hplaces.inside⟩

end Module

end IntWasm
