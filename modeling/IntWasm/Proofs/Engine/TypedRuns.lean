import IntWasm.Proofs.Engine.Globals

/-!
# Runs stay typed

Below every activation of a run there is the one that has called it, which waits for the results of
the called function, and below all of them are the operands of the run itself. A run begins with
arguments of the right types and its code keeps every activation typed, so all of them stay typed to
the end of the run, and every function is called with arguments of the right types. Functions of the
embedder cannot change this, whatever they leave as their result. Main statement:
`Instance.Visits.layered`.
-/

namespace IntWasm

open Structured

variable {H σ : Type}

/-! ## The layers of a run -/

/-- Activations lie on top of each other and on the operands `outer`, where the results of the types
`results` are left in the end. The innermost activation goes on with operands of the types
`pending`, and each activation that has called another one waits for its results. -/
inductive Layered (P : List ValueType → Activation → Prop) (results : List ValueType)
    (outer : List UInt64) : List ValueType → List Activation → Prop
  | outermost {pending rest} (hresults : results = pending ++ rest) (hwords : Admitted rest outer) :
    Layered P results outer pending []
  | activation {pending f callers} (hinner : P pending f)
      (hcallers : Layered P results outer f.function.type.results callers) :
    Layered P results outer pending (f :: callers)

/-- The activations of a machine lie on top of each other. -/
def Machine.Layered (P : List ValueType → Activation → Prop) (results pending : List ValueType)
    (machine : Machine) : Prop :=
  IntWasm.Layered P results machine.outer pending machine.frames

/-- The activations of a run lie on top of each other. The arguments of a function of the embedder
that is called are still on top of the operands, and it gives at most one result. -/
def State.Layered (P : List ValueType → Activation → Prop) (results : List ValueType)
    (s : State H σ) :
    Progress H → Prop
  | .done | .more => s.machine.Layered P results []
  | .host c => Admitted c.type.params c.args ∧ c.type.results.length ≤ 1 ∧ ∃ rest,
      s.machine.operands = c.args.reverse ++ rest ∧
      (s.machine.setOperands rest).Layered P results c.type.results

section

variable {P Q : List ValueType → Activation → Prop} {results pending : List ValueType}
  {outer words : List UInt64} {frames : List Activation} {machine : Machine}

/-- Activations that have a property have a weaker one. -/
theorem Layered.mono (hlayered : Layered P results outer pending frames)
    (hle : ∀ pending f, P pending f → Q pending f) : Layered Q results outer pending frames := by
  induction hlayered with
  | outermost hresults hwords => exact .outermost hresults hwords
  | activation hinner _ ih => exact .activation (hle _ _ hinner) ih

/-- So do those of a state. -/
theorem State.Layered.mono {s : State H σ} {next : Progress H} (hlayered : s.Layered P results next)
    (hle : ∀ pending f, P pending f → Q pending f) : s.Layered Q results next := by
  cases next with
  | done | more => exact IntWasm.Layered.mono hlayered hle
  | host c =>
    obtain ⟨hargs, hcount, rest, hoperands, hbelow⟩ := hlayered
    exact ⟨hargs, hcount, rest, hoperands, IntWasm.Layered.mono hbelow hle⟩

/-- The innermost activation goes on with the operands that it waits for. -/
theorem Machine.Layered.resume (hlayered : machine.Layered P results pending)
    (hwords : Admitted pending words)
    (hresume : ∀ f, P pending f → P [] { f with operands := words ++ f.operands }) :
    (machine.setOperands (words ++ machine.operands)).Layered P results [] := by
  obtain ⟨frames, outer, slot⟩ := machine
  simp only [Machine.Layered] at hlayered
  cases hlayered with
  | outermost hresults hrest =>
    have hnone : results = [] ++ results := rfl
    refine .outermost hnone ?_
    rw [hresults]
    exact List.rel_append hwords hrest
  | activation hinner hcallers => exact .activation (hresume _ hinner) hcallers

/-- A word that was pushed is on top. -/
theorem Machine.push_eq_ok {machine' : Machine} {config : Config} {v : UInt64}
    (hok : machine.push config v = .ok machine') :
    machine' = machine.setOperands (v :: machine.operands) := by
  obtain ⟨frames, outer, slot⟩ := machine
  cases frames with
  | nil =>
    simp only [push] at hok
    split at hok
    · exact (Except.ok.inj hok).symm
    · cases hok
  | cons f callers =>
    simp only [push, except_bind_eq_ok, except_pure_eq_ok] at hok
    obtain ⟨f', hpush, rfl⟩ := hok
    rw [Activation.push_eq_ok hpush]
    rfl

/-- Operands that are set to what they are. -/
theorem Machine.setOperands_operands (machine : Machine) :
    machine.setOperands machine.operands = machine := by
  obtain ⟨frames, outer, slot⟩ := machine
  cases frames <;> rfl

/-- A function of the embedder leaves a result in place of its arguments that can stand for a value
of its type. -/
theorem Machine.finishHostCall_eq_ok {machine' : Machine} {config : Config} {type : FuncType}
    {written : Option UInt64} (hcount : type.results.length ≤ 1)
    (hok : machine.finishHostCall config type written = .ok machine') : ∃ words slot,
      Admitted type.results words ∧
      machine' = Machine.setOperands
        { machine.setOperands (machine.operands.drop type.params.length) with slot }
        (words ++ (machine.setOperands (machine.operands.drop type.params.length)).operands) := by
  unfold finishHostCall at hok
  generalize machine.setOperands (machine.operands.drop type.params.length) = below at hok ⊢
  simp only at hok
  split at hok
  · rename_i hresults
    obtain rfl := Except.ok.inj hok
    exact ⟨[], below.slot, hresults ▸ .nil, below.setOperands_operands.symm⟩
  · rename_i t types hresults
    obtain rfl : types = [] := by
      rw [hresults, List.length_cons] at hcount
      exact List.length_eq_zero_iff.mp (by omega)
    refine ⟨[Value.word t (written.getD below.slot)], written.getD below.slot, ?_, push_eq_ok hok⟩
    rw [hresults]
    exact .cons (Value.admits_word t _) .nil

end

/-! ## Activations of functions of a module -/

/-- A function of a module with its type and its body. -/
def Module.declared? (m : Module) (function : Nat) : Option (FuncType × FuncBody) := do
  let type ← m.type? (← (m.functions.getD [])[function]?)
  let body ← (m.code.getD [])[function]?
  return (type, body)

/-- What the body of a function sees. -/
abbrev Module.bodyScope (m : Module) (type : FuncType) (body : FuncBody) : Scope :=
  m.scope (localGroups type body)

/-- The types of the operands at the instructions of the body of a function, the topmost first. -/
abbrev Module.bodyChart (m : Module) (type : FuncType) (body : FuncBody) :
    Nat → Option (List ValueType) :=
  Body.chart (m.bodyScope type body) type.results body.code

/-- The function at a place of an instance stands for one that a module declares, with the body of
that. -/
structure Module.Declares (m : Module) (inst : Instance H) (place : Nat) (fn : Function)
    (body : FuncBody) : Prop where
  function_eq : inst.functions[place]? = some fn
  declared_eq : m.declared? place = some (fn.type, body)
  locals_eq : fn.locals = LocalGroup.total (Module.localGroups fn.type body)

/-- An activation of a function of an instance has operands and locals of the types that its module
gives them, and goes on with operands of the types `pending`. -/
def Activation.TypedIn (m : Module) (inst : Instance H) (pending : List ValueType)
    (f : Activation) : Prop :=
  ∃ place body ints, m.Declares inst place f.function body ∧ pending = ints.map IntType.valueType ∧
    Typed (m.bodyChart f.function.type body) (m.bodyScope f.function.type body) ints f

/-- A local that is a parameter has its type. -/
theorem LocalGroup.typeAt_params {types : List ValueType} {groups : List LocalGroup} {i : Nat}
    {t : ValueType} (htype : typeAt (types.map ({ count := 1, type := · }) ++ groups) i = some t)
    (hi : i < types.length) : types[i]? = some t := by
  induction types generalizing i with
  | nil => cases hi
  | cons t' types ih =>
    have hone : (1 : UInt32).toNat = 1 := rfl
    simp only [List.map_cons, List.cons_append, typeAt, hone] at htype
    cases i with
    | zero => simpa using htype
    | succ i => exact ih (by simpa using htype) (by simpa using hi)

/-- The arguments of a function and the zeros of its other locals can stand for values of their
types. -/
theorem exists_local {type : FuncType} {body : FuncBody} {args : List UInt64} {i : Nat}
    {t : ValueType} (hargs : Admitted type.params args)
    (htype : LocalGroup.typeAt (Module.localGroups type body) i = some t) :
    ∃ w, (args ++ List.replicate
      (LocalGroup.total (Module.localGroups type body) - args.length) 0)[i]? =
      some w ∧ t.Admits w := by
  by_cases hi : i < args.length
  · have hparam := LocalGroup.typeAt_params htype (hargs.length_eq ▸ hi)
    obtain ⟨w, hat, hw⟩ := forall₂_getElem? hargs.flip hparam
    exact ⟨w, by rw [List.getElem?_append_left hi, hat], hw⟩
  · have hlt := LocalGroup.lt_total_of_typeAt htype
    refine ⟨0, ?_, t.admits_zero⟩
    rw [List.getElem?_append_right (Nat.not_lt.mp hi), List.getElem?_replicate, if_pos (by omega)]

/-! ## The machine of a run -/

namespace Run

variable {inst : Instance H} {s s' : State H σ} {function : UInt32}

/-- Tracing leaves the machine as it is. -/
theorem machine_traced (config : Config) (s : State H σ) (act : Thread → Sink → Thread × Sink) :
    (traced config s act).machine = s.machine := by
  obtain ⟨traces, out, htraced⟩ := traced_eq config s act
  rw [htraced]

/-- Opening a function's trace does not touch the machine. -/
theorem openFunction_eq_ok {name : String} {type : FuncType} {u : Unit}
    (hok : openFunction inst name function type s = .ok u s') : s'.machine = s.machine := by
  unfold openFunction at hok
  split at hok
  · cases hok
  · obtain ⟨-, rfl⟩ := EStateM.Result.ok.inj hok
    exact machine_traced _ _ _

/-- A function that was entered is the machine's innermost. -/
theorem enterFunction_eq_ok {fn : Function} {u : Unit} (hok : enterFunction inst fn s = .ok u s') :
    s'.machine = s.machine.enter inst.config fn := by
  simp only [enterFunction, estate_bind_eq_ok, estate_get_eq_ok] at hok
  obtain ⟨_, _, ⟨rfl, rfl⟩, hok⟩ := hok
  split at hok
  · simp [estate_bind_eq_ok] at hok
  · simp only [estate_bind_eq_ok, estate_modify_eq_ok] at hok
    obtain ⟨_, t, hopen, rfl⟩ := hok
    simp only [openFunction_eq_ok hopen]

/-- A call of the host has the topmost operands as arguments, in order, and one result at most. -/
theorem beginHostCall_eq_ok {f : ImportedFunction H} {c : HostCall H}
    (hok : beginHostCall inst function f s = .ok c s') : s'.machine = s.machine ∧
      c.type = f.type ∧ c.args = (s.machine.operands.take f.type.params.length).reverse ∧
      f.type.results.length ≤ 1 := by
  obtain ⟨_, t, hopen, hok⟩ := estate_bind_eq_ok.mp hok
  simp only at hok
  split at hok
  · cases hok
  · rename_i hfits
    obtain ⟨rfl, rfl⟩ := EStateM.Result.ok.inj hok
    have hmachine := openFunction_eq_ok hopen
    exact ⟨hmachine, rfl, by rw [hmachine], by omega⟩

end Run

/-! ## Calls -/

section

variable {m : Module} {inst : Instance H} {results : List ValueType} {s s' : State H σ}
  {function : UInt32} {type : FuncType} {args rest : List UInt64} {next : Progress H}

/-- A function that is entered with arguments of the right types is typed. -/
theorem Instance.Implements.typedIn_enter (himpl : inst.Implements m) (hvalid : m.Valid)
    {index : Nat} {f : Activation} (hfunction : inst.functions[index]? = some f.function)
    (hargs : Admitted f.function.type.params args) (hip : f.ip = 0) (hoperands : f.operands = [])
    {l : Label} (hlabels : f.labels = [l])
    (hlocals : f.locals = (args ++ List.replicate (f.function.locals - args.length) 0).toArray) :
    f.TypedIn m inst [] := by
  obtain ⟨typeIndex, body, hindex, hbody, htype, hcount, hcheck⟩ :=
    himpl.exists_body hvalid.length_eq hfunction
  have hplain := hvalid.plain.type? htype
  have hbodyPlain := hvalid.plain.code body (List.mem_of_getElem? hbody)
  have hproper := hvalid.plain.scope_proper (Module.isInt_of_mem_localGroups hplain hbodyPlain)
  obtain ⟨code, first, hspells, hbytes⟩ := exists_code_of_check hcheck
  obtain ⟨result, hresult⟩ := hplain.exists_result
  have hlength := hbodyPlain.length_lt
  rw [hbytes, List.length_append] at hlength
  rw [hresult, hbytes] at hcheck
  have hcharts := charts_of_check hproper (hvalid.plain.scope_narrow _) hspells (by omega) hcheck
  refine ⟨index, body, [],
    ⟨hfunction, by simp [Module.declared?, hindex, htype, hbody], hcount⟩, rfl, ?_⟩
  rw [Module.bodyChart, hresult, hbytes]
  refine hcharts.typed hresult hip hoperands hlabels fun {i t} hlocal => ?_
  rw [hlocals, List.getElem?_toArray, hcount]
  exact exists_local hargs hlocal

/-- Calling a function with arguments of the right types. -/
theorem Instance.Implements.layered_call (himpl : inst.Implements m) (hvalid : m.Valid)
    (hsignature : inst.signature? function = some type) (hargs : Admitted type.params args)
    (hok : Run.call inst function s = .ok next s')
    (hoperands : s.machine.operands = args.reverse ++ rest)
    (hbelow : (s.machine.setOperands rest).Layered (Activation.TypedIn m inst) results
      type.results) :
    s'.Layered (Activation.TypedIn m inst) results next := by
  have hlength : args.length = type.params.length := hargs.length_eq.symm
  have htake := take_arguments hoperands
  have hdrop := drop_arguments hoperands
  unfold Run.call at hok
  unfold Instance.signature? at hsignature
  cases himport : inst.imports[function.toNat]? with
  | some f =>
    simp only [himport, Option.some.injEq] at hsignature
    subst hsignature
    simp only [himport, estate_bind_eq_ok, estate_pure_eq_ok] at hok
    obtain ⟨c, t, hbegin, rfl, rfl⟩ := hok
    obtain ⟨hmachine, htype, hcargs, hcount⟩ := Run.beginHostCall_eq_ok hbegin
    rw [← hlength, htake] at hcargs
    simp only [State.Layered, hmachine, htype, hcargs]
    exact ⟨hargs, hcount, rest, hoperands, hbelow⟩
  | none =>
    simp only [himport, Option.map_eq_some_iff] at hsignature
    obtain ⟨fn, hfunction, rfl⟩ := hsignature
    simp only [himport, hfunction, estate_bind_eq_ok, estate_pure_eq_ok] at hok
    obtain ⟨_, t, henter, rfl, rfl⟩ := hok
    rw [State.Layered, Run.enterFunction_eq_ok henter]
    simp only [Machine.enter, ← hlength, htake, hdrop, Nat.sub_self, List.replicate_zero,
      List.nil_append]
    exact .activation (himpl.typedIn_enter hvalid hfunction hargs rfl rfl rfl rfl) hbelow

/-! ## Steps -/

/-- A list of one entry at most is its own reverse. -/
theorem reverse_of_length_le_one {α : Type} {as : List α} (hle : as.length ≤ 1) :
    as.reverse = as := by
  match as, hle with
  | [], _ | [_], _ => rfl

/-- An activation goes on with the operands that it waits for. -/
theorem Activation.TypedIn.resume {f : Activation} {pending : List ValueType} {words : List UInt64}
    (htyped : f.TypedIn m inst pending) (hwords : Admitted pending words) :
    { f with operands := words ++ f.operands }.TypedIn m inst [] := by
  obtain ⟨index, body, ints, hdeclares, rfl, hf⟩ := htyped
  exact ⟨index, body, [], hdeclares, rfl, hf.resume hwords⟩

/-- Carrying out what an instruction of a typed activation asks for. -/
theorem Instance.Implements.layered_follow (himpl : inst.Implements m) (hvalid : m.Valid)
    {f : Activation} {index : Nat} {body : FuncBody}
    (hdeclares : m.Declares inst index f.function body) {asked : Next}
    (hyields : Yields (m.bodyChart f.function.type body)
      (m.bodyScope f.function.type body) inst f asked)
    (hok : Run.follow inst asked s = .ok next s')
    (hcallers : Machine.Layered (Activation.TypedIn m inst) results f.function.type.results
      { s.machine with frames := s.machine.frames.tail }) :
    s'.Layered (Activation.TypedIn m inst) results next := by
  cases hyields with
  | @go f' hfunction htyped =>
    simp only [Run.follow, estate_bind_eq_ok, estate_modify_eq_ok, estate_pure_eq_ok] at hok
    obtain ⟨_, _, rfl, rfl, rfl⟩ := hok
    refine .activation ⟨index, body, [], hfunction ▸ hdeclares, rfl, ?_⟩ (hfunction ▸ hcallers)
    rw [hfunction]
    exact htyped
  | @leave words hwords =>
    simp only [Run.follow, Run.closeFunction, estate_bind_eq_ok, estate_modify_eq_ok,
      estate_pure_eq_ok] at hok
    obtain ⟨_, _, rfl, _, _, rfl, rfl, rfl⟩ := hok
    rw [State.Layered, Run.machine_traced]
    exact hcallers.resume hwords fun f htyped => htyped.resume hwords
  | @call f' function params given args rest hfunction hsignature hoperands hargs htyped =>
    simp only [Run.follow, estate_bind_eq_ok, estate_modify_eq_ok] at hok
    obtain ⟨_, _, rfl, hok⟩ := hok
    have hle := (hvalid.plain.functionType?
      ((himpl.signature?_eq hvalid function).symm.trans hsignature)).results_le
    rw [FuncType.ofInts, List.length_map] at hle
    rw [reverse_of_length_le_one hle, ← hfunction] at htyped
    rw [← hfunction] at hdeclares hcallers
    refine himpl.layered_call hvalid hsignature hargs hok hoperands ?_
    exact .activation ⟨index, body, given, hdeclares, rfl, htyped⟩ hcallers

/-- One instruction of the innermost activation. -/
theorem Instance.Implements.layered_advance (himpl : inst.Implements m) (hvalid : m.Valid)
    (hglobals : ∀ locals, SoundGlobals (m.scope locals) inst s.store)
    (hlayered : s.machine.Layered (Activation.TypedIn m inst) results [])
    (hok : Run.advance inst s = .ok next s') :
    s'.Layered (Activation.TypedIn m inst) results next := by
  obtain ⟨store, thread, ⟨frames, outer, slot⟩⟩ := s
  simp only [Machine.Layered] at hlayered
  cases hlayered with
  | outermost hresults hwords =>
    obtain ⟨rfl, rfl⟩ := EStateM.Result.ok.inj hok
    exact .outermost hresults hwords
  | @activation _ f callers hinner hcallers =>
    obtain ⟨index, body, ints, hdeclares, hpending, htyped⟩ := hinner
    obtain rfl := List.map_eq_nil_iff.mp hpending.symm
    cases hat : f.function.body.instructions[f.ip]? with
    | none =>
      rw [Run.advance_of_none hat] at hok
      cases hok
    | some i =>
      obtain ⟨traces, out, htraced⟩ := Run.traced_eq inst.config
        ⟨store, thread, ⟨f :: callers, outer, slot⟩⟩ (·.instruction f.ip i f.operands.length)
      cases hstep : Activation.step inst { f with ip := f.ip + 1 } i { store with traces } with
      | error stop store' =>
        rw [Run.advance_of_error hat htraced hstep] at hok
        cases hok
      | ok asked store' =>
        rw [Run.advance_of_ok hat htraced hstep] at hok
        have hsound : SoundGlobals (m.bodyScope f.function.type body) inst { store with traces } :=
          hglobals _
        have hyields := htyped.step (himpl.links hvalid hdeclares.locals_eq) hsound hat hstep
        exact himpl.layered_follow hvalid hdeclares hyields hok hcallers

/-- A function of the embedder leaves a result of the right type. -/
theorem State.Layered.perform {host : Host H σ} {invoker : Invoker H σ} {c : HostCall H} {u : Unit}
    (hlayered : s.Layered (Activation.TypedIn m inst) results (.host c))
    (hok : Run.performHostCall host invoker inst c s = .ok u s') :
    s'.machine.Layered (Activation.TypedIn m inst) results [] := by
  obtain ⟨hargs, hcount, rest, hoperands, hbelow⟩ := hlayered
  obtain ⟨store, thread, machine⟩ := s
  have hdrop := drop_arguments hoperands
  rw [← hargs.length_eq] at hdrop
  unfold Run.performHostCall at hok
  simp only at hok
  cases hcall : host.call invoker c store with
  | error fault t => simp [hcall] at hok
  | ok written t =>
    obtain ⟨traces, out, htraced⟩ := Run.traced_eq inst.config ⟨t, thread, machine⟩ Thread.leave
    simp only [hcall, htraced] at hok
    cases hfinish : machine.finishHostCall inst.config c.type written with
    | error stop => simp [hfinish] at hok
    | ok machine' =>
      simp only [hfinish] at hok
      obtain ⟨-, rfl⟩ := EStateM.Result.ok.inj hok
      obtain ⟨words, result, hwords, rfl⟩ := Machine.finishHostCall_eq_ok hcount hfinish
      simp only at hdrop hbelow
      rw [hdrop]
      have hslot : Machine.Layered (Activation.TypedIn m inst) results c.type.results
          { machine.setOperands rest with slot := result } := hbelow
      exact hslot.resume hwords fun f htyped => htyped.resume hwords

/-! ## Runs -/

/-- All activations of a run that begins with arguments of the right types are typed, in every
state. -/
theorem Instance.Visits.layered {host : Host H σ} {invoker : Invoker H σ} {store : Store H σ}
    {slot : UInt64} (hvisits : inst.Visits host invoker function args store slot next s)
    (hvalid : m.Valid) (himpl : inst.Implements m)
    (hsignature : inst.signature? function = some type) (hargs : Admitted type.params args)
    (hglobals : ∀ {next s}, inst.Visits host invoker function args store slot next s →
      ∀ locals, SoundGlobals (m.scope locals) inst s.store) :
    s.Layered (Activation.TypedIn m inst) type.results next := by
  induction hvisits with
  | start _ hcall =>
    refine himpl.layered_call hvalid hsignature hargs hcall (List.append_nil _).symm ?_
    exact .outermost (List.append_nil _).symm .nil
  | advance hvisits hadvance ih => exact himpl.layered_advance hvalid (hglobals hvisits) ih hadvance
  | perform _ hperform ih => exact State.Layered.perform ih hperform

end

end IntWasm
