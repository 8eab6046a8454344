import IntWasm.Proofs.Engine.Limits
import IntWasm.Proofs.Engine.TypedRuns
import IntWasm.Proofs.Module.Checked

/-!
# Zero extension

Every operand, local and global is a word of 64 bits, also where the checker and the declarations
say that it is a 32-bit integer. Then its high half is zero in every state of every run, as long as
the arguments of the run and the globals that an embedder adds were built in the ways there are for
it. Whatever word a function of the embedder leaves as its result, and whatever it does in the
meantime, this stays so. Main statement: `runs_zero_extend`.
-/

namespace IntWasm

variable {H σ : Type}

/-! ## Static types -/

namespace Module

/-- The types of the operands at an instruction of a function, the topmost first, as the checker
finds them. -/
def operandTypes? (m : Module) (function ip : Nat) : Option (List ValueType) :=
  (m.declared? function).bind fun declared => m.bodyChart declared.1 declared.2 ip

/-- The type of a local of a function, as its signature or its body declares it. -/
def localType? (m : Module) (function i : Nat) : Option ValueType :=
  (m.declared? function).bind fun declared =>
    LocalGroup.typeAt (localGroups declared.1 declared.2) i

end Module

/-- Every operand and every local of an activation can stand for a value of its static type. The
activation goes on with operands of the types `pending`, which are not yet there. -/
def Activation.Sound (m : Module) (inst : Instance H) (pending : List ValueType)
    (f : Activation) : Prop :=
  ∃ place, inst.functions[place]? = some f.function ∧
    (∃ stack, m.operandTypes? place f.ip = some (pending ++ stack) ∧ Admitted stack f.operands) ∧
    ∀ {i : Nat} {type : ValueType}, m.localType? place i = some type →
      ∃ w, f.locals[i]? = some w ∧ type.Admits w

/-- A function of a loaded module has so few locals that each has an index. -/
theorem Module.Loaded.total_le {m : Module} (hloaded : m.Loaded) {function : Nat} {type : FuncType}
    {body : FuncBody} (hdeclared : m.declared? function = some (type, body)) :
    LocalGroup.total (Module.localGroups type body) ≤ Module.maxLocals := by
  obtain ⟨bytes, ending, hload⟩ := hloaded
  simp only [Module.declared?, bind, pure, Option.bind_eq_some_iff, Option.some.injEq,
    Prod.mk.injEq]
    at hdeclared
  obtain ⟨index, hindex, _, htype, _, hbody, rfl, rfl⟩ := hdeclared
  exact Module.total_le_of_load hload hindex hbody htype

/-- Typed activations of functions of a loaded module are sound. -/
theorem Activation.TypedIn.sound {m : Module} (hloaded : m.Loaded) {inst : Instance H}
    {pending : List ValueType} {f : Activation} (htyped : f.TypedIn m inst pending) :
    f.Sound m inst pending := by
  obtain ⟨place, body, ints, hdeclares, rfl, hf⟩ := htyped
  obtain ⟨stack, htypes, hwords⟩ := hf.exists_stack
  refine ⟨place, hdeclares.function_eq, ⟨stack, ?_, hwords⟩, fun {i type} htype => ?_⟩
  · rw [Module.operandTypes?, hdeclares.declared_eq, Option.bind_some]
    exact htypes
  · rw [Module.localType?, hdeclares.declared_eq, Option.bind_some] at htype
    have hlt := LocalGroup.lt_total_of_typeAt htype
    have hle := hloaded.total_le hdeclares.declared_eq
    have hindex : (UInt32.ofNat i).toNat = i := by
      refine UInt32.toNat_ofNat_of_lt' (Nat.lt_of_lt_of_le hlt (Nat.le_trans hle ?_))
      decide
    rw [← hindex] at htype ⊢
    exact hf.exists_local htype

/-! ## Arguments -/

/-- A value that was built in one of the ways there are. -/
inductive Value.Built : Value → Prop
  | ofI32 (v : Int32) : Built (.ofI32 v)
  | ofI64 (v : Int64) : Built (.ofI64 v)
  | ofBits (type : ValueType) (bits : UInt64) : Built (.ofBits type bits)

/-- A value that was built has a word of its type. -/
theorem Value.Built.admits {v : Value} (hbuilt : v.Built) : v.type.Admits v.bits := by
  cases hbuilt with
  | ofI32 v => exact ValueType.admits_toUInt64 .i32 v.toUInt32
  | ofI64 v => exact ValueType.admits_i64 v.toUInt64
  | ofBits type bits => exact Value.admits_word type bits

/-- The words of built values can stand for values of the types of the parameters. -/
theorem Instance.admitted_of_checkArgs {name : String} {i : Nat} {types : List ValueType}
    {args : List Value} {words : List UInt64} (hlength : args.length = types.length)
    (hargs : ∀ v ∈ args, v.Built) (hok : checkArgs name i types args = .ok words) :
    Admitted types words := by
  induction types generalizing i args words with
  | nil =>
    simp only [checkArgs] at hok
    obtain rfl := Except.ok.inj hok
    exact .nil
  | cons t types ih =>
    cases args with
    | nil => cases hlength
    | cons v args =>
      unfold checkArgs at hok
      split at hok
      · rename_i htype
        simp only [except_bind_eq_ok, except_pure_eq_ok] at hok
        obtain ⟨rest, hrest, rfl⟩ := hok
        refine .cons ?_ (ih (by simpa using hlength) (fun v hv => hargs v (by simp [hv])) hrest)
        rw [← htype]
        exact (hargs v (by simp)).admits
      · cases hok

/-! ## Runs -/

/-- A state of a run of code of a module, which was instantiated from the store `s₀` on, with what
is done next and the type of the function that is run: an exported function that is invoked with
built values at some later moment, or the start function. -/
inductive Module.Runs (host : Host H σ) (fuel : Nat) (m : Module) (resolver : Option (Resolver H σ))
    (s₀ : Store H σ) : Instance H → FuncType → Progress H → State H σ → Prop
  | invoke {nesting depth place function slot} {config : Config} {s₁ s : Store H σ}
      {inst : Instance H} {name : String} {args : List Value} {type : FuncType}
      {words : List UInt64} {next : Progress H} {state : State H σ}
      (hinstance : Engine.instantiate host fuel nesting m resolver config s₀ = .ok place s₁)
      (hpasses : s₁.Passes host fuel Action.MakesGlobals s) (hat : s.instances[place]? = some inst)
      (hargs : ∀ v ∈ args, v.Built)
      (hprepare : inst.prepare name args = .ok (function, type, words))
      (hvisits : inst.Visits host (Engine.invoke host fuel depth) function words
        (Engine.begun inst place s) slot next state) :
    Runs host fuel m resolver s₀ inst type next state
  | start {nesting function slot} {config c : Config} {type : FuncType} {l : Linking H σ}
      {next : Progress H} {state : State H σ} (hcheck : config.check = .ok c)
      (hassemble : Link.assemble m resolver (Engine.placeAllocator c s₀).1
        ⟨(Engine.placeAllocator c s₀).2, { config := c }⟩ = .ok () l)
      (hstart : m.start = some function) (htype : m.functionType? function = some type)
      (hvisits : l.inst.Visits host (Engine.invoke host fuel nesting) function [] l.store
        slot next state) :
    Runs host fuel m resolver s₀ l.inst type next state

section

variable {host : Host H σ} {fuel nesting : Nat} {m : Module} {inst : Instance H} {function : UInt32}
  {type : FuncType} {args : List UInt64} {store : Store H σ} {slot : UInt64} {next : Progress H}
  {state : State H σ}

/-- A call of a function with arguments of the right types in a store whose globals were made. -/
theorem Instance.Carries.visits (hcarries : inst.Carries m store) (hmade : store.GlobalsMade)
    (hloaded : m.Loaded) (hacts : host.Acts fuel Action.MakesGlobals)
    (htype : m.functionType? function = some type) (hargs : Admitted type.params args)
    (hvisits : inst.Visits host (Engine.invoke host fuel nesting) function args store
      slot next state) :
    state.Layered (Activation.Sound m inst) type.results next ∧
      ∀ {p : Nat} {g : Global}, state.store.globals[p]? = some g → g.type.type.Admits g.bits := by
  obtain ⟨bytes, ending, hload⟩ := hloaded
  have hvalid := Module.valid_of_load hload
  have hupholds {next state} (hvisits : inst.Visits host (Engine.invoke host fuel nesting) function
      args store slot next state) : store.Upholds 0 state.store :=
    hvisits.moves (inst.allows_upholds 0) (hacts.upholds 0 nesting)
  have hsignature := (hcarries.implements.signature?_eq hvalid function).trans htype
  have hlayered := hvisits.layered hvalid hcarries.implements hsignature hargs fun hvisits locals =>
    (hcarries.mono (hupholds hvisits).toExtends).soundGlobals ((hupholds hvisits).made hmade) locals
  exact ⟨hlayered.mono fun pending f htyped => htyped.sound ⟨bytes, ending, hload⟩,
    fun hg => ((hupholds hvisits).made hmade hg).admits⟩

end

/-- Words of 32-bit integers are zero-extended. Take a loaded module that is instantiated with a
resolver that answers with what is there, in a store whose globals were made for it, and an embedder
that does whatever it likes but makes all globals which it adds. Then the following holds in every
state of every run of the module whose arguments are built values. All operands and locals of all
its activations can stand for values of their static types, and so can the arguments that are handed
to a function of the embedder and the words of all globals: the high half is zero where the type is
that of 32-bit integers. -/
theorem runs_zero_extend {host : Host H σ} {fuel : Nat} {m : Module} (hloaded : m.Loaded)
    {resolver : Option (Resolver H σ)} {s₀ : Store H σ}
    (hgrounded : ∀ r, resolver = some r → r.Grounded s₀.memories.size) (hmade : s₀.GlobalsMade)
    (hacts : host.Acts fuel Action.MakesGlobals) {inst : Instance H} {type : FuncType}
    {next : Progress H} {state : State H σ}
    (hruns : m.Runs host fuel resolver s₀ inst type next state) :
    state.Layered (Activation.Sound m inst) type.results next ∧
      ∀ {p : Nat} {g : Global}, state.store.globals[p]? = some g → g.type.type.Admits g.bits := by
  obtain ⟨bytes, ending, hload⟩ := hloaded
  have hvalid := Module.valid_of_load hload
  cases hruns with
  | @invoke nesting depth place function slot config s₁ s inst name args type words next state
      hinstance hpasses hat hargs hprepare hvisits =>
    have hinstantiated : s₀.Upholds place
        (finalState (Engine.instantiate host fuel nesting m resolver config s₀)) :=
      Engine.instantiate_upholds m resolver config s₀ (hacts.upholds place nesting)
    rw [hinstance] at hinstantiated
    have hbegun : s₁.Upholds place (Engine.begun inst place s) :=
      (hpasses.upholds hacts).trans (Engine.begun_upholds inst place s)
    obtain ⟨inst₁, hinst₁, -, hcarries⟩ := Engine.instantiate_carries hvalid hgrounded
      (fun call s => (hacts.upholds 0 nesting call s).toExtends) hinstance
    obtain ⟨memory, idle, closed, hat'⟩ := (hpasses.upholds hacts).code hinst₁
    obtain rfl := Option.some.inj (hat'.symm.trans hat)
    obtain ⟨hsignature, hlength, hchecked⟩ := Instance.exists_words_of_prepare hprepare
    have hready := (hcarries.closed memory idle closed).mono hbegun.toExtends
    refine hready.visits (hbegun.made (hinstantiated.made hmade)) ⟨bytes, ending, hload⟩ hacts ?_
      (Instance.admitted_of_checkArgs hlength hargs hchecked) hvisits
    rw [← hready.implements.signature?_eq hvalid, hsignature]
  | @start nesting function slot config c type l next state hcheck hassemble hstart htype hvisits =>
    have hcarries := Engine.assemble_carries hvalid hgrounded hassemble
    have hassembled : s₀.Upholds 0 l.store := Engine.assemble_upholds hacts hassemble
    have hnone := ((Module.checked_of_load hload).start hstart htype).1
    refine hcarries.visits (hassembled.made hmade) ⟨bytes, ending, hload⟩ hacts htype ?_ hvisits
    rw [hnone]
    exact .nil

/-! ## A result that is too wide -/

/-- A module whose function `g` passes its argument on to the imported function `e.f`. -/
def relaying : List UInt8 :=
  [0, 0x61, 0x73, 0x6d, 1, 0, 0, 0, 1, 6, 1, 0x60, 1, 0x7f, 1, 0x7f, 2, 7, 1, 1, 0x65, 1, 0x66, 0,
    0, 3, 2, 1, 0, 7, 5, 1, 1, 0x67, 0, 1, 10, 8, 1, 6, 0, 0x20, 0, 0x10, 0, 0x0b]

/-- An embedder whose functions leave a word as their result that no 32-bit integer has. -/
def wideHost : Host Unit Unit where
  call _ _ s := .ok (some 0xfedcba9876543210) s

/-- The function that the module imports. -/
def relay : Resolver Unit Unit :=
  Bindings.resolver { functions := [("e.f", ⟨{ params := [.i32], results := [.i32] }, ()⟩)] }

/-- The host of this case does not act on the store. -/
theorem wideHost_acts (fuel : Nat) (P : Action Unit Unit → Prop) : wideHost.Acts fuel P :=
  fun _ _ _ => .refl

/-- Whether the machine goes on with the next instruction. -/
def Progress.isMore : Progress H → Bool
  | .more => true
  | _ => false

/-- The call of a function of the embedder that is next. -/
def Progress.call? : Progress H → Option (HostCall H)
  | .host c => some c
  | _ => none

/-- There is more to do. -/
theorem Progress.isMore_eq_true {next : Progress H} : next.isMore = true ↔ next = .more := by
  cases next <;> simp [isMore]

/-- There is a call to make. -/
theorem Progress.call?_eq_some {next : Progress H} {c : HostCall H} :
    next.call? = some c ↔ next = .host c := by
  cases next <;> simp [call?]

/-- Whether the following comes about. The function is invoked with -1, and after two instructions
this is the argument of the imported function, of whose result the low half is left. -/
def relaysWide : Bool :=
  (Module.load relaying .eof).toOption.any fun m =>
    (succeeded (Engine.instantiate wideHost 100 1 m (some relay) {} { host := () })).any fun made =>
      (made.2.instances[made.1]?).any fun inst =>
        (inst.prepare "g" [.ofI32 (-1)]).toOption.any fun prepared =>
          prepared.2.1 == { params := [.i32], results := [.i32] } &&
          decide (¬ inst.config.maxOperandStack < prepared.2.2.length) &&
          (succeeded (Run.call inst prepared.1
            ⟨Engine.begun inst made.1 made.2, inst.newThread,
              { outer := prepared.2.2.reverse }⟩)).any
            fun entered => entered.1.isMore &&
              (succeeded (Run.advance inst entered.2)).any fun pushed => pushed.1.isMore &&
                (succeeded (Run.advance inst pushed.2)).any fun called =>
                called.1.call?.any fun c =>
                  c.args == [0xffffffff] &&
                  (succeeded (Run.performHostCall wideHost (Engine.invoke wideHost 100 1) inst c
                    called.2)).any fun answered => answered.2.machine.operands == [0x76543210]

/-- A host that answers with a wide word, whose upper half is gone when it is relayed. -/
theorem runs_zero_extend_relaying : ∃ m inst, ∃ state : State Unit Unit, m.Loaded ∧
    m.Runs wideHost 100 (some relay) { host := () } inst { params := [.i32], results := [.i32] }
      .more state ∧
    state.machine.operands = [0x76543210] ∧
    state.Layered (Activation.Sound m inst) [.i32] .more := by
  have hrelays : relaysWide = true := by decide +kernel
  simp only [relaysWide, Option.any_eq_true, Bool.and_eq_true, succeeded_eq_some, beq_iff_eq,
    decide_eq_true_eq, except_toOption_eq_some, Progress.isMore_eq_true, Progress.call?_eq_some]
    at hrelays
  obtain ⟨m, hload, ⟨place, s₁⟩, hinstance, inst, hat, ⟨function, type, words⟩, hprepare,
    ⟨rfl, hroom⟩, ⟨_, entered⟩, hcall, rfl, ⟨_, pushed⟩, hget, rfl, ⟨_, called⟩, hrelay, c, rfl, -,
    ⟨_, answered⟩, hperform, hoperands⟩ := hrelays
  have hloaded : m.Loaded := ⟨_, _, hload⟩
  have hgrounded : ∀ r, some relay = some r →
      r.Grounded (Store.memories ({ host := () } : Store Unit Unit)).size := by
    rintro _ ⟨⟩
    exact Bindings.resolver_grounded fun d hd => by cases hd
  have hmade : Store.GlobalsMade ({ host := () } : Store Unit Unit) := fun p g hg => by cases hg
  have hbuilt : ∀ v ∈ [Value.ofI32 (-1)], v.Built := fun v hv => by
    obtain rfl := List.mem_singleton.mp hv
    exact .ofI32 (-1)
  have hruns := Module.Runs.invoke hinstance .here hat hbuilt hprepare
    ((((Instance.Visits.start hroom hcall).advance hget).advance hrelay).perform hperform)
  exact ⟨m, inst, answered, hloaded, hruns, hoperands,
    (runs_zero_extend hloaded hgrounded hmade (wideHost_acts 100 _) hruns).1⟩

end IntWasm
