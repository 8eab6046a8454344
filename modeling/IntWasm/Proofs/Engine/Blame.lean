import IntWasm.Proofs.Engine.Globals
import IntWasm.Proofs.Engine.Staying
import IntWasm.Proofs.Structured.Widths
import IntWasm.Proofs.Trace.Rereading

/-!
# Where traps are raised

A machine moves on to the next instruction before it carries one out, and it enters and leaves
functions within an instruction. Still, a trap that comes without a place is reported with the
function of the innermost activation and the instruction that this activation was at, which is a
call if a function could not be entered or a function of the embedder has failed. Main statement:
`invoke_blames_instruction`.
-/

namespace IntWasm

open Structured

variable {H σ : Type}

/-! ## Calls -/

/-- An instruction that calls a function. -/
def Instruction.Calls (i : Instruction) : Prop := i.op? = some .call ∨ i.op? = some .callIndirect

/-- A sequence whose second step never succeeds like this does not succeed like this. -/
theorem except_bind_ne_ok {ε α β : Type} {x : Except ε α} {f : α → Except ε β} {b : β}
    (hf : ∀ a, f a ≠ .ok b) : x >>= f ≠ .ok b := by
  cases x with
  | error e => exact nofun
  | ok a => exact hf a

namespace Activation

variable {f g : Activation} {function : UInt32}

/-- Going on is no call. -/
theorem go_ne_call {ε α : Type} {x : Except ε α} {next : α → Activation} :
    (do return Next.go (next (← x))) ≠ .ok (.call g function) :=
  except_bind_ne_ok fun _ hok => by cases hok

/-- Leaving a function calls nothing. -/
theorem leave_ne_call : (do return Next.leave (← f.results)) ≠ .ok (.call g function) :=
  except_bind_ne_ok nofun

/-- A branch calls nothing. -/
theorem branch_ne_call (depth : Int) : f.branch depth ≠ .ok (.call g function) := by
  unfold branch
  by_cases hnegative : depth < 0
  · rw [if_pos hnegative]
    exact nofun
  · rw [if_neg hnegative]
    by_cases hlast : depth.toNat + 1 = f.labels.length
    · rw [if_pos hlast]
      exact leave_ne_call
    · rw [if_neg hlast]
      cases f.labels[depth.toNat]? with
      | none => exact nofun
      | some l =>
        by_cases hshort : f.operands.length < l.height + l.arity
        · simp only [if_pos hshort]
          exact nofun
        · simp only [if_neg hshort]
          exact nofun

/-- An end calls nothing. -/
theorem close_ne_call : f.close ≠ .ok (.call g function) := by
  unfold close
  cases f.labels with
  | nil => exact nofun
  | cons l labels =>
    by_cases hheight : f.operands.length ≠ l.height + l.arity
    · simp only [if_pos hheight]
      exact nofun
    · simp only [if_neg hheight]
      by_cases hempty : labels.isEmpty = true
      · simp only [if_pos hempty]
        exact leave_ne_call
      · simp only [if_neg hempty]
        exact nofun

/-- A constant calls nothing. -/
theorem constant_ne_call (v : UInt64) :
    f.constant v ≠ .ok (.call g function) := except_bind_ne_ok nofun

/-- An operation on one operand calls nothing. -/
theorem unary_ne_call (op : UInt64 → UInt64) : f.unary op ≠ .ok (.call g function) :=
  except_bind_ne_ok fun _ => except_bind_ne_ok nofun

/-- An operation on two operands calls nothing. -/
theorem binary_ne_call (op : UInt64 → UInt64 → Except Trap UInt64) :
    f.binary op ≠ .ok (.call g function) := by
  refine except_bind_ne_ok fun p => ?_
  obtain ⟨a, b, f'⟩ := p
  simp only
  cases op a b with
  | ok v => exact except_bind_ne_ok nofun
  | error t => exact nofun

/-- An instruction that concerns the activation alone calls nothing. -/
theorem stepLocal_ne_call (op : Opcode) (i : Instruction) :
    f.stepLocal op i ≠ .ok (.call g function) := by
  cases op
  -- Calls are the one thing that an activation cannot do alone; every other instruction ends in one
  -- of the operations that have their own lemma above.
  case unreachable | nop =>
    intro hok
    cases hok
  case block | loop => exact go_ne_call
  case ifThen =>
    refine except_bind_ne_ok fun p => ?_
    obtain ⟨condition, f'⟩ := p
    by_cases hcondition : condition.toUInt32 ≠ 0
    · simp only [if_pos hcondition]
      exact go_ne_call
    · simp only [if_neg hcondition]
      refine except_bind_ne_ok fun other => ?_
      by_cases hother : other ≠ 0
      · simp only [if_pos hother]
        exact go_ne_call
      · simp only [if_neg hother]
        exact go_ne_call
  case otherwise =>
    intro hok
    simp only [stepLocal, except_bind_eq_ok] at hok
    obtain ⟨next, hclose, hok⟩ := hok
    cases next with
    | go f' => exact go_ne_call hok
    | leave => cases hok
    | call => exact close_ne_call hclose
  case close => exact close_ne_call
  case br => exact branch_ne_call i.index.toNat
  case brIf =>
    refine except_bind_ne_ok fun p => ?_
    obtain ⟨condition, f'⟩ := p
    by_cases hcondition : condition.toUInt32 ≠ 0
    · simp only [if_pos hcondition]
      exact branch_ne_call _
    · simp only [if_neg hcondition]
      intro hok
      cases hok
  case brTable =>
    refine except_bind_ne_ok fun p => ?_
    obtain ⟨index, f'⟩ := p
    simp only
    split <;> exact branch_ne_call _
  case ret => exact leave_ne_call
  case drop => exact go_ne_call
  case select => exact except_bind_ne_ok fun _ => binary_ne_call _
  case localGet => exact except_bind_ne_ok fun _ => constant_ne_call _
  case localSet | localTee => exact except_bind_ne_ok fun _ => go_ne_call
  case const type => cases type <;> exact constant_ne_call _
  case eqz | count | wrap | extend | extendPart | extendWord => exact unary_ne_call _
  case compare type relation =>
    exact binary_ne_call fun a b => .ok (Numeric.compareWord type relation a b)
  case arith type operation => exact binary_ne_call (Numeric.arithWord type operation)
  all_goals
    intro hok
    cases hok

end Activation

/-- An activation that calls a function after an instruction has carried out a call. It goes on
behind it. -/
def Next.CallsAfter (f : Activation) (i : Instruction) : Next → Prop
  | .call g _ => i.Calls ∧ g.function = f.function ∧ g.ip = f.ip
  | .go _ | .leave _ => True

/-- What is no call is no call of another function. -/
theorem Next.callsAfter_of_ne {next : Next} (hnext : ∀ g function, next ≠ .call g function)
    (f : Activation) (i : Instruction) : next.CallsAfter f i := by
  cases next with
  | call g function => exact absurd rfl (hnext g function)
  | go | leave => trivial

/-- A computation that succeeds with a property in the activation does so in the store. -/
theorem Exec.leads_lift {α : Type} {P : α → Prop} {r : Except Stop α} (hr : ∀ a, r = .ok a → P a)
    (s : Store H σ) : Leads (lift r : Exec H σ α) s (fun a _ => P a) fun _ _ => True := by
  cases r with
  | error stop => trivial
  | ok a => exact hr a rfl

/-- Only calls call functions. -/
theorem Activation.step_calls (inst : Instance H) (f : Activation) (i : Instruction)
    (s : Store H σ) :
    Leads (step inst f i) s (fun next _ => next.CallsAfter f i) fun _ _ => True := by
  have hany {α : Type} (x : Exec H σ α) (t : Store H σ) :
      Leads x t (fun _ _ => True) fun _ _ => True := by
    unfold Leads
    split <;> trivial
  have hconstant (g : Activation) (v : UInt64) (t : Store H σ) :
      Leads (Exec.lift (g.constant v) : Exec H σ Next) t (fun next _ => next.CallsAfter f i)
        fun _ _ => True :=
    Exec.leads_lift (fun next hnext => Next.callsAfter_of_ne
      (fun g' function hcall => constant_ne_call v (hcall ▸ hnext)) f i) t
  rw [step]
  split
  · trivial
  · next hop => exact ⟨.inl hop, rfl, rfl⟩
  · next hop =>
    refine (Exec.leads_lift (P := fun p => p.2.function = f.function ∧ p.2.ip = f.ip)
      (fun p hp => ?_) s).bind
      fun p t hp => (hany _ t).bind fun _ _ _ => ⟨.inr hop, hp⟩
    obtain ⟨operands, -, heq⟩ := @pop_eq_ok f p.2 p.1 hp
    rw [heq]
    exact ⟨rfl, rfl⟩
  · exact (hany _ s).bind fun v t _ => hconstant f v t
  · exact (hany _ s).bind fun _ t _ => (hany _ t).bind fun _ _ _ => trivial
  · exact (hany _ s).bind fun _ t _ => (hany _ t).bind fun _ u _ => hconstant _ _ u
  · exact (hany _ s).bind fun _ t _ => (hany _ t).bind fun _ _ _ => trivial
  · exact (hany _ s).bind fun v t _ => hconstant f v t
  · exact (hany _ s).bind fun _ t _ => (hany _ t).bind fun _ u _ => hconstant _ _ u
  · exact Exec.leads_lift (fun next hnext => Next.callsAfter_of_ne
      (fun g function hcall => stepLocal_ne_call _ i (hcall ▸ hnext)) f i) s

/-! ## Where a run has got to -/

/-- Where a machine is stopped: the function of the innermost activation, and the instruction in its
body that was carried out. -/
structure Site where
  function : Function
  ip : Nat
  instruction : Instruction

/-- The index of the function and the index in its body. -/
def Site.place (x : Site) : Int × Int := (x.function.index.toNat, x.ip)

/-- A machine that was stopped has no activation, or the innermost one is behind the instruction
that was carried out. -/
def Machine.StoppedAt (machine : Machine) : Option Site → Prop
  | none => machine.frames = []
  | some x => ∃ f callers, machine.frames = f :: callers ∧ f.function = x.function ∧
      f.ip = x.ip + 1 ∧
      x.function.body.instructions[x.ip]? = some x.instruction

/-- The place that is found on the machine is that of the instruction. -/
theorem Machine.StoppedAt.place?_eq {machine : Machine} {site : Option Site}
    (hstopped : machine.StoppedAt site) : machine.place? = site.map Site.place := by
  cases site with
  | none =>
    rw [StoppedAt] at hstopped
    rw [place?, hstopped]
    rfl
  | some x =>
    obtain ⟨f, callers, hframes, hfunction, hip, -⟩ := hstopped
    simp [place?, hframes, Site.place, hfunction, hip]

/-- The activations of a machine are of functions of the instance. If a function of the embedder is
called next, the innermost one is behind the call. -/
structure Instance.Located (inst : Instance H) (next : Progress H) (s : State H σ) : Prop where
  owned : ∀ fn ∈ s.machine.frames.map (·.function), inst.Owns fn
  called : ∀ c, next = .host c → ∀ f fs, s.machine.frames = f :: fs →
    ∃ (ip : Nat) (i : Instruction), f.ip = ip + 1 ∧ f.function.body.instructions[ip]? =
    some i ∧ i.Calls

section

variable {inst : Instance H}

/-- Every function of an instance has the index that it is called by. -/
def Instance.Indexed (inst : Instance H) : Prop :=
  ∀ {i fn}, inst.functions[i]? = some fn → fn.index = UInt32.ofNat (inst.imports.size + i)

/-- Opening a function's trace does not touch the machine. -/
theorem Run.openFunction_stops (name : String) (function : UInt32) (type : FuncType)
    (s : State H σ) :
    Leads (Run.openFunction inst name function type) s (fun _ s' => s'.machine = s.machine)
      fun _ s' => s'.machine = s.machine := by
  unfold Leads Run.openFunction
  by_cases hfull : s.thread.isFull = true
  · rw [if_pos hfull]
  · rw [if_neg hfull]
    obtain ⟨traces, out, htraced⟩ := Run.traced_eq inst.config s (·.opened name function type)
    rw [htraced]

/-- A function that is called is one of the embedder, or it is entered. If it cannot be called, the
machine is left as it was. -/
theorem Run.call_stops (hindexed : inst.Indexed) (function : UInt32) (s : State H σ) :
    Leads (Run.call inst function) s
      (fun next s' => (∃ c, next = .host c ∧ s'.machine = s.machine) ∨
        ∃ fn, next = .more ∧ inst.Owns fn ∧ s'.machine = s.machine.enter inst.config fn)
      fun _ s' => s'.machine = s.machine := by
  unfold Run.call
  cases himport : inst.imports[function.toNat]? with
  | some f =>
    have hbegun : Leads (Run.beginHostCall inst function f) s
        (fun _ s' => s'.machine = s.machine) fun _ s' => s'.machine = s.machine := by
      refine (Run.openFunction_stops f.moduleName function f.type s).bind fun _ t ht => ?_
      unfold Leads
      by_cases hlacks : t.machine.operands.length < f.type.params.length ∨ 1 < f.type.results.length
      · simp only [if_pos hlacks]
        exact ht
      · simp only [if_neg hlacks]
        exact ht
    exact hbegun.bind fun c t ht => .inl ⟨c, rfl, ht⟩
  | none =>
    cases hfunction : inst.functions[function.toNat - inst.imports.size]? with
    | none => rfl
    | some fn =>
      have howns := Instance.owns_of_index_eq hindexed himport hfunction
      have hentered : Leads (Run.enterFunction inst fn) s
          (fun _ s' => s'.machine = s.machine.enter inst.config fn)
          fun _ s' => s'.machine = s.machine := by
        unfold Run.enterFunction
        refine Leads.after (estate_get s) ?_
        by_cases hadmits : s.machine.admits inst.config fn = true
        · simp only [hadmits, not_true_eq_false, if_false]
          refine (Run.openFunction_stops inst.name fn.index fn.type s).bind fun _ t ht => ?_
          exact congrArg (·.enter inst.config fn) ht
        · simp only [hadmits]
          rfl
      exact hentered.bind fun _ t ht => .inr ⟨fn, rfl, howns, ht⟩

/-- A function that is entered belongs to the instance as the others do. -/
theorem Instance.owns_enter {machine : Machine} {fn : Function} (howns : inst.Owns fn)
    (howned : ∀ fn ∈ machine.frames.map (·.function), inst.Owns fn) :
    ∀ fn' ∈ (machine.enter inst.config fn).frames.map (·.function), inst.Owns fn' := by
  have hsame := machine.functions_setOperands (machine.operands.drop fn.type.params.length)
  refine List.forall_mem_cons.mpr ⟨howns, ?_⟩
  rw [hsame]
  exact howned

/-- What an instruction asks for is carried out. Only a call may be stopped, and then the machine is
left with the activation that has made it. -/
theorem Run.follow_stops (hindexed : inst.Indexed) {f : Activation} {callers : List Activation}
    {i : Instruction} (hat : f.function.body.instructions[f.ip]? = some i) {s : State H σ}
    (hframes : s.machine.frames = f :: callers)
    (howned : ∀ fn ∈ s.machine.frames.map (·.function), inst.Owns fn) {next : Next}
    (hstays : next.StaysIn f.function) (hcalls : next.CallsAfter { f with ip := f.ip + 1 } i) :
    Leads (Run.follow inst next) s inst.Located
      fun _ s' => s'.machine.StoppedAt (some ⟨f.function, f.ip, i⟩) ∧ i.Calls := by
  -- The activation that ran is put back on top, with its place advanced.
  have hresumed {g : Activation} (hg : g.function = f.function) :
      ∀ fn ∈ (s.machine.resume g).frames.map (·.function), inst.Owns fn := by
    rw [hframes] at howned
    rw [Machine.resume, hframes, List.map_cons, hg]
    exact howned
  cases next with
  | go g => exact ⟨hresumed hstays, fun _ hhost => by cases hhost⟩
  | leave results =>
    obtain ⟨traces, out, htraced⟩ := Run.traced_eq inst.config
      { s with machine := s.machine.leave results } Thread.leave
    have hleft : inst.Located .more
        (Run.traced inst.config { s with machine := s.machine.leave results } Thread.leave) := by
      rw [htraced]
      refine ⟨fun fn hfn => howned fn ?_, fun _ hhost => by cases hhost⟩
      simp only [Machine.functions_leave, List.map_tail] at hfn
      exact List.mem_of_mem_tail hfn
    exact hleft
  | call g function =>
    obtain ⟨hi, hfunction, hg⟩ := hcalls
    refine Leads.after (estate_modify _ s) ?_
    -- An embedder's function waits on top of the caller; an own one gets an activation.
    refine (Run.call_stops hindexed function _).weaken (fun next t ht => ?_) fun _ t hmachine => ?_
    · rcases ht with ⟨c, rfl, hmachine⟩ | ⟨fn, rfl, hfn, hmachine⟩
      · refine ⟨by rw [hmachine]; exact hresumed hfunction, fun _ _ f' fs hframes' => ?_⟩
        rw [hmachine] at hframes'
        obtain ⟨rfl, -⟩ := List.cons.inj hframes'
        exact ⟨f.ip, i, hg, by rw [hfunction]; exact hat, hi⟩
      · exact ⟨by rw [hmachine]; exact Instance.owns_enter hfn (hresumed hfunction),
          fun _ hhost => by cases hhost⟩
    · rw [hmachine]
      exact ⟨⟨g, _, rfl, hfunction, hg, hat⟩, hi⟩

/-- If an instruction of the innermost activation stops the machine, the activation is left behind
that instruction. Only calls may find no room for what they call. -/
theorem Run.advance_stops (hindexed : inst.Indexed) {s : State H σ} {f : Activation}
    {fs : List Activation} (hframes : s.machine.frames = f :: fs) {i : Instruction}
    (hat : f.function.body.instructions[f.ip]? = some i)
    (howned : ∀ fn ∈ s.machine.frames.map (·.function), inst.Owns fn) :
    Leads (Run.advance inst) s inst.Located fun stop s' =>
      s'.machine.StoppedAt (some ⟨f.function, f.ip, i⟩) ∧ (stop.OfCode ∨ i.Calls) := by
  obtain ⟨store, thread, ⟨frames, outer, slot⟩⟩ := s
  obtain rfl : frames = f :: fs := hframes
  obtain ⟨traces, out, htraced⟩ := Run.traced_eq inst.config ⟨store, thread, ⟨f :: fs, outer, slot⟩⟩
    (·.instruction f.ip i f.operands.length)
  have hstays := Activation.step_stays inst (f := { f with ip := f.ip + 1 }) rfl i
    { store with traces }
  have hcalls := Activation.step_calls inst { f with ip := f.ip + 1 } i { store with traces }
  unfold Leads
  cases hstep : Activation.step inst { f with ip := f.ip + 1 } i { store with traces } with
  | error stop store' =>
    rw [Run.advance_of_error hat htraced hstep]
    exact ⟨⟨_, _, rfl, rfl, rfl, hat⟩, .inl (hstays.of_error hstep)⟩
  | ok next store' =>
    rw [Run.advance_of_ok hat htraced hstep]
    have hfollow := Run.follow_stops hindexed hat
      (s := ⟨store', ((thread.instruction f.ip i f.operands.length) out).1, ⟨f :: fs, outer, slot⟩⟩)
      rfl
      howned (hstays.of_ok hstep) (hcalls.of_ok hstep)
    exact hfollow.weaken (fun _ _ h => h) fun _ _ hstop => ⟨hstop.1, .inr hstop.2⟩

/-- If a function of the embedder stops the machine, the activations are left as they were. It
fails, or there is no room for what it answers. -/
theorem Run.performHostCall_stops {host : Host H σ} {invoker : Invoker H σ} (c : HostCall H)
    (s : State H σ) :
    Leads (Run.performHostCall host invoker inst c) s
      (fun _ s' => s'.machine.frames.map (·.function) = s.machine.frames.map (·.function))
      fun stop s' => s'.machine.frames = s.machine.frames ∧ (stop = .outOfRange ∨ ∃ failure u,
        host.call invoker c s.store = .error failure u ∧ stop = .host failure.fault.toTrapError ∧
        s' = ⟨u, s.thread, s.machine.keepWritten c.type failure.written⟩) := by
  obtain ⟨store, thread, machine⟩ := s
  have hframes (written : Option UInt64) :
      (machine.keepWritten c.type written).frames = machine.frames := by
    unfold Machine.keepWritten
    split <;> rfl
  simp only [Leads, Run.performHostCall]
  cases hcall : host.call invoker c store with
  | error failure store' => exact ⟨hframes _, .inr ⟨failure, store', rfl, rfl, rfl⟩⟩
  | ok written store' =>
    obtain ⟨traces, out, htraced⟩ :=
      Run.traced_eq inst.config ⟨store', thread, machine⟩ Thread.leave
    simp only [htraced]
    cases hfinish : machine.finishHostCall inst.config c.type written with
    | error stop => exact ⟨hframes _, .inl (Machine.finishHostCall_error hfinish)⟩
    | ok machine' => exact Machine.functions_finishHostCall hfinish

/-- Every state of a run is located at an instruction of one of the instance's functions. -/
theorem Instance.Visits.located {host : Host H σ} {invoker : Invoker H σ} {function : UInt32}
    {args : List UInt64} {store : Store H σ} {slot : UInt64} {next : Progress H} {s : State H σ}
    (hindexed : inst.Indexed) (hvisits : inst.Visits host invoker function args store slot next s) :
    inst.Located next s := by
  induction hvisits with
  | start _ hcall =>
    have hstops := (Run.call_stops hindexed function
      (⟨store, inst.newThread, { outer := args.reverse, slot }⟩ : State H σ)).of_ok hcall
    rcases hstops with ⟨c, rfl, hmachine⟩ | ⟨fn, rfl, hfn, hmachine⟩
    · refine ⟨by rw [hmachine]; exact nofun, fun _ _ f fs hframes => ?_⟩
      rw [hmachine] at hframes
      cases hframes
    · exact ⟨by rw [hmachine]; exact Instance.owns_enter hfn nofun, nofun⟩
  | @advance s next s' _ hadvance ih =>
    obtain ⟨store, thread, ⟨frames, outer, slot⟩⟩ := s
    cases frames with
    | nil =>
      obtain ⟨rfl, rfl⟩ := EStateM.Result.ok.inj hadvance
      exact ⟨ih.owned, nofun⟩
    | cons f fs =>
      cases hat : f.function.body.instructions[f.ip]? with
      | none =>
        rw [Run.advance_of_none hat] at hadvance
        cases hadvance
      | some i =>
        exact (Run.advance_stops hindexed rfl hat ih.owned).of_ok hadvance
  | @perform c s s' _ hperform ih =>
    have hsame := (Run.performHostCall_stops c s).of_ok hperform
    exact ⟨by rw [hsame]; exact ih.owned, nofun⟩

end

/-! ## Where traps are raised -/

/-- A call of a function of an instance whose functions have the indices that they are called by.
The machine has an instruction to go on with as long as there is an activation, and room for what
functions of the embedder answer. -/
structure Instance.Steady (inst : Instance H) (host : Host H σ) (invoker : Invoker H σ)
    (function : UInt32) (args : List UInt64) (store : Store H σ) (slot : UInt64) : Prop where
  indexed : inst.Indexed
  goes : ∀ {s f fs}, inst.Visits host invoker function args store slot .more s →
    s.machine.frames = f :: fs → ∃ i : Instruction, f.function.body.instructions[f.ip]? = some i
  answers : ∀ {c s stop s'}, inst.Visits host invoker function args store slot (.host c) s →
    Run.performHostCall host invoker inst c s = .error stop s' → stop ≠ .outOfRange

/-- The trap that a stop comes with, before a place is added to it; a breakdown is none. -/
def Stop.raised? : Stop → Option TrapError
  | .trap t => some { trap := t }
  | .host e => some e
  | .outOfRange => some { trap := .memoryOutOfBounds }
  | .crash _ => none

/-- How a call is stopped, and where if a function has been entered by then. -/
inductive Instance.Raises (inst : Instance H) (host : Host H σ) (invoker : Invoker H σ)
    (function : UInt32) (args : List UInt64) (store : Store H σ) (slot : UInt64) :
    Option Site → Stop → State H σ → Prop
  /-- There are more arguments than operands may be. -/
  | arguments (hfull : inst.config.maxOperandStack < args.length) :
    Raises inst host invoker function args store slot none (.trap .stackExhausted)
      ⟨store, inst.newThread, { slot }⟩
  /-- The function itself cannot be called. -/
  | entry {stop s} (hroom : ¬ inst.config.maxOperandStack < args.length)
      (hcall : Run.call inst function
        ⟨store, inst.newThread, { outer := args.reverse, slot }⟩ = .error stop s) :
    Raises inst host invoker function args store slot none stop s
  /-- The function itself is one of the embedder and fails. -/
  | outermost {c failure s u}
      (hvisits : inst.Visits host invoker function args store slot (.host c) s)
      (hframes : s.machine.frames = []) (hfails : host.call invoker c s.store = .error failure u) :
    Raises inst host invoker function args store slot none (.host failure.fault.toTrapError)
      ⟨u, s.thread, s.machine.keepWritten c.type failure.written⟩
  /-- An instruction cannot be carried out. If it is for want of room, it is a call. -/
  | instruction {stop s s' f fs i}
      (hvisits : inst.Visits host invoker function args store slot .more s)
      (hframes : s.machine.frames = f :: fs) (hat : f.function.body.instructions[f.ip]? = some i)
      (hadvance : Run.advance inst s = .error stop s')
      (hexhausts : stop = .trap .stackExhausted → i.Calls) :
    Raises inst host invoker function args store slot (some ⟨f.function, f.ip, i⟩) stop s'
  /-- A function of the embedder fails that the last instruction has called. -/
  | host {c failure s u f fs ip i}
      (hvisits : inst.Visits host invoker function args store slot (.host c) s)
      (hframes : s.machine.frames = f :: fs) (hip : f.ip = ip + 1)
      (hat : f.function.body.instructions[ip]? = some i) (hcalls : i.Calls)
      (hfails : host.call invoker c s.store = .error failure u) :
    Raises inst host invoker function args store slot (some ⟨f.function, ip, i⟩)
      (.host failure.fault.toTrapError) ⟨u, s.thread, s.machine.keepWritten c.type failure.written⟩

section

variable {inst : Instance H} {host : Host H σ} {invoker : Invoker H σ} {function : UInt32}
  {args : List UInt64} {store : Store H σ} {slot : UInt64}

/-- Code does not run out of room but in calls. -/
theorem Stop.OfCode.ne_exhausted {stop : Stop} (hstop : stop.OfCode) :
    stop ≠ .trap .stackExhausted := by
  rintro rfl
  have hnot : ¬ (Trap.stackExhausted ∈ Trap.ofCode ∨ Trap.stackExhausted = .heightMismatch) := by
    decide
  exact hnot hstop

/-- A call that ends early was stopped somewhere, and there the machine has been left. -/
theorem Instance.exists_raises (hsteady : inst.Steady host invoker function args store slot)
    {fuel : Nat} {stop : Stop} {s : State H σ}
    (herror : inst.runFunction host invoker fuel function args ⟨store, inst.newThread, { slot }⟩ =
      .error stop s) (hfuel : stop ≠ .crash .outOfFuel) :
    ∃ site, inst.Raises host invoker function args store slot site stop s ∧
      s.machine.StoppedAt site ∧ ∀ x, site = some x → inst.Owns x.function := by
  have hnowhere (x : Site) (hnone : none = some x) : inst.Owns x.function := by cases hnone
  rcases Instance.runFunction_error herror with
    ⟨hfull, -⟩ | ⟨hroom, hcall⟩ | hstop | ⟨t, hvisits, hadvance⟩ | ⟨c, t, hvisits, hperform⟩
  · simp only [Instance.runFunction, hfull, if_true, bind, EStateM.bind, estate_throw] at herror
    obtain ⟨rfl, rfl⟩ := EStateM.Result.error.inj herror
    exact ⟨none, .arguments hfull, rfl, hnowhere⟩
  · have hmachine := (Run.call_stops hsteady.indexed function
      (⟨store, inst.newThread, { outer := args.reverse, slot }⟩ : State H σ)).of_error hcall
    exact ⟨none, .entry hroom hcall, congrArg Machine.frames hmachine, hnowhere⟩
  · exact absurd hstop hfuel
  -- The step that was stopped leaves the activation it ran on, one place behind its instruction.
  · have hlocated := hvisits.located hsteady.indexed
    cases hframes : t.machine.frames with
    | nil =>
      obtain ⟨store', thread, ⟨frames, outer, slot'⟩⟩ := t
      obtain rfl : frames = [] := hframes
      cases hadvance
    | cons f fs =>
      obtain ⟨i, hat⟩ := hsteady.goes hvisits hframes
      obtain ⟨hstopped, hstop⟩ :=
        (Run.advance_stops hsteady.indexed hframes hat hlocated.owned).of_error hadvance
      refine ⟨some ⟨f.function, f.ip, i⟩, .instruction hvisits hframes hat hadvance fun hexhausts =>
        ?_, hstopped, ?_⟩
      · exact hstop.resolve_left fun hcode => hcode.ne_exhausted hexhausts
      · rintro x ⟨⟩
        exact hlocated.owned _ (by rw [hframes]; exact List.mem_cons_self)
  -- A function of the embedder leaves the frames alone, so the caller stands behind its `call`.
  · have hlocated := hvisits.located hsteady.indexed
    obtain ⟨hleft, hends⟩ := (Run.performHostCall_stops c t).of_error hperform
    obtain ⟨failure, u, hfails, rfl, rfl⟩ := hends.resolve_left (hsteady.answers hvisits hperform)
    cases hframes : t.machine.frames with
    | nil => exact ⟨none, .outermost hvisits hframes hfails, hleft.trans hframes, hnowhere⟩
    | cons f fs =>
      obtain ⟨ip, i, hip, hat, hcalls⟩ := hlocated.called c rfl f fs hframes
      refine ⟨some ⟨f.function, ip, i⟩, .host hvisits hframes hip hat hcalls hfails,
        ⟨f, fs, hleft.trans hframes, rfl, hip, hat⟩, ?_⟩
      rintro x ⟨⟩
      exact hlocated.owned _ (by rw [hframes]; exact List.mem_cons_self)

end

/-! ## What is reported -/

/-- An invocation reports `e` where `raised` was raised at a site. A trap that comes with a place
keeps it. One that comes without gets the place of the instruction, or it is reported without a
place if no function has been entered. -/
structure TrapError.Blames (e raised : TrapError) (site : Option Site) : Prop where
  trap_eq : e.trap = raised.trap
  cause_eq : e.cause = raised.cause
  kept : 0 ≤ raised.function → e = raised
  placed : raised.function < 0 → ∀ x, site = some x →
    e.function = x.function.index.toNat ∧ e.ip = x.ip
  unplaced : raised.function = -1 → raised.ip = -1 → site = none → e.function = -1 ∧ e.ip = -1
  untouched : site = none → e = raised

/-- A trap that is located blames the site, or nothing if there is none. -/
theorem TrapError.located_blames (raised : TrapError) (site : Option Site) :
    (raised.located (site.map Site.place)).Blames raised site := by
  cases site with
  | none => exact ⟨rfl, rfl, fun _ => rfl, fun _ => nofun,
      fun hfunction hip _ => ⟨hfunction, hip⟩, fun _ => rfl⟩
  | some x =>
    simp only [Option.map_some, located, Site.place]
    by_cases hnone : raised.function < 0
    · rw [if_pos hnone]
      refine ⟨rfl, rfl, fun hsome => absurd hnone (Int.not_lt.mpr hsome), fun _ y hy => ?_,
        fun _ _ => nofun, nofun⟩
      cases hy
      exact ⟨rfl, rfl⟩
    · rw [if_neg hnone]
      exact ⟨rfl, rfl, fun _ => rfl, fun hlt => absurd hlt hnone, fun _ _ => nofun, nofun⟩

/-- What a sink still has room for. -/
def Sink.fitting (out : Sink) (bytes : List UInt8) : List UInt8 :=
  match out.room with
  | none => bytes
  | some room => bytes.take room

/-- A sink keeps of what is written as much as fits. -/
theorem Sink.kept_put (out : Sink) (bytes : List UInt8) :
    (out.put bytes).1.kept.toList = out.kept.toList ++ out.fitting bytes := by
  obtain ⟨kept, room⟩ := out
  cases room with
  | none => simp [put, fitting]
  | some room =>
    by_cases hfits : bytes.length ≤ room
    · simp [put, fitting, hfits, List.take_of_length_le hfits]
    · simp [put, fitting, hfits]

/-- The count of a label. -/
def Tally.count (t : Tally) (label : String) : Nat :=
  ((t.filter (·.1 = label)).map (·.2)).sum

/-- One more is counted for the label, and as many as before for every other one. -/
theorem Tally.count_bump (label l : String) (t : Tally) :
    (bump label t).count l = t.count l + if l = label then 1 else 0 := by
  induction t with
  | nil => by_cases hl : l = label <;> simp [bump, count, hl, eq_comm]
  | cons entry rest ih =>
    obtain ⟨found, n⟩ := entry
    unfold bump
    by_cases hfound : label = found
    · subst hfound
      by_cases hl : l = label
      · subst hl
        simp [count]
        omega
      · simp [count, hl, Ne.symm hl]
    · by_cases hbefore : label < found
      · by_cases hl : l = label
        · subst hl
          simp [hfound, hbefore, count, Ne.symm hfound]
          omega
        · simp [hfound, hbefore, count, hl, Ne.symm hl]
      · rw [if_neg hfound, if_neg hbefore]
        by_cases hl : found = l
        · subst hl
          simp only [count, List.filter_cons, decide_true, if_true, List.map_cons,
            List.sum_cons] at ih ⊢
          omega
        · simp only [count, List.filter_cons, hl, decide_false, Bool.false_eq_true,
            if_false] at ih ⊢
          exact ih

/-- Counters after a trap of a kind was counted. -/
structure Counters.CountsTrap (before : Counters) (kind : String) (after : Counters) : Prop where
  traps : ∀ label, after.traps.count label = before.traps.count label + if label =
    kind then 1 else 0
  invocations_eq : after.invocations = before.invocations
  instantiations_eq : after.instantiations = before.instantiations
  memoryGrow_eq : after.memoryGrow = before.memoryGrow

/-- Counting a trap adds one to the tally of its kind and changes nothing else. -/
theorem Counters.countsTrap (c : Counters) (kind : String) : c.CountsTrap kind (c.trap kind) :=
  ⟨fun label => Tally.count_bump kind label c.traps, rfl, rfl, rfl⟩

/-- What is left of a trap in the store: the trace goes on with it and ends, as far as there is
room, and it is counted once. -/
structure State.Records (s : State H σ) (config : Config) (e : TrapError)
    (store : Store H σ) : Prop where
  traced : ∀ place out, config.trace = some place → s.store.traces[place]? = some out →
    s.thread.Speaks = true → ∃ out', store.traces[place]? = some out' ∧
      out'.kept.toList = out.kept.toList ++
        out.fitting ((TraceEntry.trap (Text.utf8 e.trap.text) e.ip).bytes ++
          TraceEntry.finish.bytes)
  counted : config.counted = true → s.store.counters.CountsTrap e.trap.text store.counters
  uncounted : config.counted = false → store.counters = s.store.counters

/-- What is recorded depends on the traces and the counters. -/
theorem State.Records.of_same {s : State H σ} {config : Config} {e : TrapError}
    {store store' : Store H σ} (hrecords : s.Records config e store)
    (htraces : store'.traces = store.traces) (hcounters : store'.counters = store.counters) :
    s.Records config e store' := by
  refine ⟨?_, ?_, ?_⟩
  · rw [htraces]
    exact hrecords.traced
  · rw [hcounters]
    exact hrecords.counted
  · rw [hcounters]
    exact hrecords.uncounted

/-- A thread that is told of a trap and of the end of the invocation writes both. -/
theorem Thread.trapped_close {t : Thread} (hspeaks : t.Speaks = true) (trap : Trap) (ip : Int)
    (out : Sink) :
    ((t.trapped trap ip out).1.close (t.trapped trap ip out).2).2 =
      (out.put ((TraceEntry.trap (Text.utf8 trap.text) ip).bytes ++
        TraceEntry.finish.bytes)).1 := by
  have htrapped : t.trapped trap ip out =
      ({ t with depth := 0 }).emit (.trap (Text.utf8 trap.text) ip) out := rfl
  have hspeaks' : ({ t with depth := 0 } : Thread).Speaks = true := hspeaks
  have htraced : t.traced = true := (Bool.and_eq_true _ _ ▸ hspeaks).1
  rw [htrapped, emit_spec, if_pos hspeaks', Thread.close, emit_spec, Sink.put_append]
  by_cases hfits : (out.put (TraceEntry.trap (Text.utf8 trap.text) ip).bytes).2 = true
  · have hgoes : ({ t with depth := 0, fault := (TraceEntry.trap (Text.utf8 trap.text) ip).fault } :
        Thread).Speaks = true := by
      simp [Speaks, htraced, TraceEntry.fault, TraceEntry.contents]
    simp only [hfits, if_true, hgoes]
    split <;> rfl
  · have hstops : ({ t with depth := 0, fault := some (.write .full) } : Thread).Speaks =
        false := by
      simp [Speaks]
    simp only [hfits, Bool.false_eq_true, if_false, hstops]

section

variable {inst : Instance H} {host : Host H σ} {invoker : Invoker H σ} {function : UInt32}
  {args : List UInt64} {store : Store H σ} {slot : UInt64}

/-- A stop that is a trap has been raised, and is located where it is blamed. -/
theorem Instance.trapOf_eq_ok {stop : Stop} {spot : Option (Int × Int)} {e : TrapError}
    (hok : trapOf stop spot = .ok e) :
    ∃ raised, stop.raised? = some raised ∧ e = raised.located spot := by
  cases stop with
  | crash => cases hok
  | trap | host | outOfRange =>
    cases hok
    exact ⟨_, rfl, rfl⟩

/-- Closing the trace of a trap and counting it records the trap. -/
theorem State.records_trap (s : State H σ) (config : Config) (e : TrapError) :
    s.Records config e ((Run.traced config
      (Run.traced config s fun t out => t.trapped e.trap e.ip out) Thread.close).store.count config
        (Counters.trap e.trap.text)) := by
  have hcounters (s : State H σ) (act : Thread → Sink → Thread × Sink) :
      (Run.traced config s act).store.counters = s.store.counters := by
    obtain ⟨traces, out, htraced⟩ := Run.traced_eq config s act
    rw [htraced]
  refine ⟨?_, ?_, ?_⟩
  · intro place out hplace hout hspeaks
    have hlt := (Array.getElem?_eq_some_iff.mp hout).1
    have htraces (store : Store H σ) : (store.count config (Counters.trap e.trap.text)).traces =
        store.traces := by
      unfold Store.count
      split <;> rfl
    rw [htraces, Run.traced_some hplace, Run.traced_some hplace]
    simp only [hout, Option.getD_some, Array.getElem?_setIfInBounds_self_of_lt hlt,
      Array.setIfInBounds_setIfInBounds]
    rw [Thread.trapped_close hspeaks]
    exact ⟨_, rfl, Sink.kept_put _ _⟩
  · intro hcounted
    simp only [Store.count, hcounted, if_true, hcounters]
    exact s.store.counters.countsTrap e.trap.text
  · intro huncounted
    simp only [Store.count, huncounted, Bool.false_eq_true, if_false, hcounters]

/-- A call that has trapped reports where, and records the trap that it reports. -/
theorem Instance.callOn_blames (hsteady : inst.Steady host invoker function args store slot)
    {fuel : Nat} {e : TrapError} {kept : Option UInt64} {t : Store H σ}
    (htrapped : inst.callOn host invoker fuel function args slot store =
      (⟨.error (.trapped e), kept⟩, t)) :
    ∃ site stop raised s, inst.Raises host invoker function args store slot site stop s ∧
      s.machine.StoppedAt site ∧ stop.raised? = some raised ∧
      (∀ x, site = some x → inst.Owns x.function) ∧ e.Blames raised site ∧
      s.Records inst.config e t := by
  unfold callOn at htrapped
  cases hresult : inst.runFunction host invoker fuel function args
      ⟨store, inst.newThread, { slot }⟩ with
  | ok _ s =>
    rw [hresult] at htrapped
    cases htrapped
  | error stop s =>
    rw [hresult] at htrapped
    cases htrap : trapOf stop s.machine.place? with
    | error c =>
      simp only [htrap] at htrapped
      cases htrapped
    | ok e' =>
      simp only [htrap] at htrapped
      obtain ⟨hend, rfl⟩ := Prod.mk.inj htrapped
      obtain ⟨houtcome, -⟩ := CallEnd.mk.inj hend
      obtain rfl := InvokeError.trapped.inj (Except.error.inj houtcome)
      obtain ⟨raised, hraised, rfl⟩ := trapOf_eq_ok htrap
      have hfuel : stop ≠ .crash .outOfFuel := by
        rintro rfl
        cases hraised
      obtain ⟨site, hraises, hstopped, howns⟩ := exists_raises hsteady hresult hfuel
      rw [hstopped.place?_eq] at *
      exact ⟨site, stop, raised, s, hraises, hstopped, hraised, howns, raised.located_blames site,
        s.records_trap inst.config _⟩

end

/-! ## Invocations -/

section

variable {host : Host H σ} {fuel place : Nat}

/-- An instance of a valid module still implements it at every later moment, even when it was
closed. -/
theorem Engine.exists_implements {nesting : Nat} {m : Module} (hvalid : m.Valid)
    {resolver : Option (Resolver H σ)} {config : Config} {s₀ s₁ s : Store H σ}
    (hgrounded : ∀ r, resolver = some r → r.Grounded s₀.memories.size)
    (hinstance : instantiate host fuel nesting m resolver config s₀ = .ok place s₁)
    (hacts : host.Acts fuel fun _ => True) (hpasses : s₁.Passes host fuel (fun _ => True) s) :
    ∃ inst, s.instances[place]? = some inst ∧ config.check = .ok inst.config ∧
    inst.Implements m := by
  obtain ⟨inst, hat, hcheck, hcarries⟩ := instantiate_carries hvalid hgrounded
    (hacts.moves (Store.lasting_extends.allowed host fuel) nesting).1 hinstance
  obtain ⟨memory, idle, closed, hat'⟩ := (Store.lasting_keepsCode place).passes hacts hpasses hat
  exact ⟨_, hat', hcheck, (hcarries.closed memory idle closed).implements⟩

/-- Calls of functions of a valid module are steady, whatever functions of the embedder do. -/
theorem Instance.Implements.steady {inst : Instance H} {m : Module} (himpl : inst.Implements m)
    (hvalid : m.Valid) (hpositive : inst.config.Positive) (invoker : Invoker H σ)
    {function : UInt32} {type : FuncType} (htype : inst.signature? function = some type)
    {args : List UInt64} (hargs : args.length = type.params.length) (store : Store H σ)
    (slot : UInt64) : inst.Steady host invoker function args store slot := by
  obtain ⟨codes, hrealizes⟩ := exists_realizes hvalid himpl host invoker
  have hcount := length_results_le hvalid hpositive
    ((himpl.signature?_eq hvalid function).symm.trans htype)
  have hreaches {next s} (hvisits : inst.Visits host invoker function args store slot next s) :=
    hrealizes.visits htype hargs hcount hvisits
  refine ⟨himpl.index_eq hvalid.length_eq, fun {s f fs} hvisits hframes => ?_,
    fun {c s stop s'} hvisits hperform => ?_⟩
  · obtain ⟨e, -, hmirrors⟩ := hreaches hvisits
    have hstacked := hmirrors.stacked
    rw [hframes] at hstacked
    obtain ⟨i, hat, -⟩ := hstacked.represents.1.step store
    exact ⟨i, hat⟩
  · obtain ⟨e, -, hcalls⟩ := hreaches hvisits
    have hfails := Calls.perform hcalls hcount
    rw [hperform] at hfails
    rintro rfl
    cases hfails

/-- An invocation that has trapped has called a function, and the call has trapped. -/
theorem Engine.callOn_of_invoke {depth : Nat} {inst : Instance H} {name : String}
    {args : List Value} {s t : Store H σ} {e : TrapError} (hat : s.instances[place]? = some inst)
    (htrapped : invoke host fuel (depth + 1) place name args s = .error (.trapped e) t) :
    ∃ function type words kept u, inst.prepare name args = .ok (function, type, words) ∧
      inst.callOn host (invoke host fuel depth) fuel function words (inst.idle.getD 0)
        (begun inst place s) = (⟨.error (.trapped e), kept⟩, u) ∧
      t.traces = u.traces ∧ t.counters = u.counters := by
  simp only [invoke, hat] at htrapped
  cases hprepare : inst.prepare name args with
  | error refused =>
    simp only [hprepare] at htrapped
    obtain ⟨rfl, -⟩ := EStateM.Result.error.inj htrapped
    exact absurd rfl (Instance.prepare_error hprepare e)
  | ok prepared =>
    obtain ⟨function, type, words⟩ := prepared
    simp only [hprepare] at htrapped
    -- A machine that cannot be made is no trap.
    have hcall : inst.call host (invoke host fuel depth) fuel function words (begun inst place s) =
          inst.callOn host (invoke host fuel depth) fuel function words (inst.idle.getD 0)
            (begun inst place s) ∨
        inst.call host (invoke host fuel depth) fuel function words (begun inst place s) =
          (⟨.error (.crashed .stackSize), none⟩, begun inst place s) := by
      unfold Instance.call
      cases inst.idle with
      | some slot => exact .inl rfl
      | none =>
        by_cases hfits : inst.config.stacksFit = true
        · exact .inl (by simp [hfits])
        · exact .inr (by simp [hfits])
    unfold begun at hcall ⊢
    generalize inst.call host (invoke host fuel depth) fuel function words _ =
      result at hcall htrapped
    obtain ⟨⟨outcome, kept⟩, u⟩ := result
    cases outcome with
    | ok results => cases htrapped
    | error e' =>
      obtain ⟨rfl, rfl⟩ := EStateM.Result.error.inj htrapped
      refine ⟨function, type, words, kept, u, rfl, ?_, ?_⟩
      · rcases hcall with hcall | hcall
        · exact hcall.symm
        · cases hcall
      · cases kept <;> exact ⟨rfl, rfl⟩

end

/-- Traps are blamed on the right instruction. Take an instance of a loaded module and a store that
there is at any later moment, and an embedder that does whatever it likes. If an exported function
is invoked and traps, its call was stopped in a state `s'`: with no activation on the machine, or at
an instruction of the innermost one, which is a call if there was no room for a function or one of
the embedder has failed. A trap that was raised without a place is reported with the indices of that
function and that instruction, or, in the former case, with no place; one that comes with a place
keeps it. The trace and the counters record the trap that is reported. -/
theorem invoke_blames_instruction {host : Host H σ} {fuel nesting : Nat} {m : Module}
    (hloaded : m.Loaded) {resolver : Option (Resolver H σ)} {config : Config} {s₀ s₁ s : Store H σ}
    {place : Nat} (hgrounded : ∀ r, resolver = some r → r.Grounded s₀.memories.size)
    (hinstance : Engine.instantiate host fuel nesting m resolver config s₀ = .ok place s₁)
    (hacts : host.Acts fuel fun _ => True) (hpasses : s₁.Passes host fuel (fun _ => True) s)
    {depth : Nat} {name : String} {args : List Value} {e : TrapError} {t : Store H σ}
    (htrapped : Engine.invoke host fuel (depth + 1) place name args s = .error (.trapped e) t) :
    ∃ inst function type words site stop raised s', s.instances[place]? = some inst ∧
      inst.prepare name args = .ok (function, type, words) ∧
      inst.Raises host (Engine.invoke host fuel depth) function words (Engine.begun inst place s)
        (inst.idle.getD 0) site stop s' ∧
      s'.machine.StoppedAt site ∧ stop.raised? = some raised ∧
      (∀ x, site = some x → inst.Owns x.function) ∧ e.Blames raised site ∧
      s'.Records inst.config e t := by
  obtain ⟨bytes, ending, hload⟩ := hloaded
  have hvalid := Module.valid_of_load hload
  obtain ⟨inst, hat, hcheck, himpl⟩ :=
    Engine.exists_implements hvalid hgrounded hinstance hacts hpasses
  obtain ⟨function, type, words, kept, u, hprepare, hcall, htraces, hcounters⟩ :=
    Engine.callOn_of_invoke hat htrapped
  obtain ⟨hsignature, hlength⟩ := Instance.of_prepare hprepare
  obtain ⟨site, stop, raised, s', hraises, hstopped, hraised, howns, hblames, hrecords⟩ :=
    Instance.callOn_blames
      (himpl.steady hvalid (Config.positive_of_check hcheck) _ hsignature hlength _ _) hcall
  exact ⟨inst, function, type, words, site, stop, raised, s', hat, hprepare, hraises, hstopped,
    hraised, howns, hblames, hrecords.of_same htraces hcounters⟩

/-- An embedder whose functions do nothing but fail. -/
def refusingHost : Host Bool Unit where
  call _ _ s := .error { fault := .failed (.text "no") } s

/-- A host that always refuses does not act on the store. -/
theorem refusingHost_acts (fuel : Nat) (P : Action Bool Unit → Prop) : refusingHost.Acts fuel P :=
  fun _ _ _ => .refl

/-- Whether the first instruction of function 2 is blamed when its import fails. -/
def blamesCall : Bool :=
  (Module.load asking .eof).toOption.any fun m =>
    (succeeded (Engine.instantiate refusingHost 100 1 m (some questions.resolver)
      { trace := some 0, counted := true } tracedStore)).any fun made => made.1 == 0 &&
        (failed (Engine.invoke refusingHost 100 1 0 "a" [] made.2)).any fun refused =>
          refused.1 == .trapped
            { trap := .hostFault, function := 2, ip := 0, cause := some (.text "no") }

/-- A module that asks the embedder, whose function fails; its call is blamed. -/
theorem invoke_blames_instruction_asking :
    ∃ (m : Module) (s t : Store Bool Unit) (e : TrapError) (inst : Instance Bool)
      (site : Option Site) (stop : Stop) (raised : TrapError) (s' : State Bool Unit),
      m.Loaded ∧
      Engine.instantiate refusingHost 100 1 m (some questions.resolver)
        { trace := some 0, counted := true } tracedStore = .ok 0 s ∧
      Engine.invoke refusingHost 100 1 0 "a" [] s = .error (.trapped e) t ∧
      e.function = 2 ∧ e.ip = 0 ∧
      s'.machine.StoppedAt site ∧ stop.raised? = some raised ∧ e.Blames raised site ∧
      s'.Records inst.config e t := by
  have hblames : blamesCall = true := by decide +kernel
  simp only [blamesCall, Option.any_eq_true, Bool.and_eq_true, succeeded_eq_some, failed_eq_some,
    beq_iff_eq, except_toOption_eq_some] at hblames
  obtain ⟨m, hload, ⟨place, s⟩, hinstance, rfl, ⟨_, t⟩, hinvoke, rfl⟩ := hblames
  have hloaded : m.Loaded := ⟨_, _, hload⟩
  obtain ⟨inst, function, type, words, site, stop, raised, s', -, -, -, hstopped, hraised, -,
      hblames, hrecords⟩ :=
    invoke_blames_instruction hloaded
      (by rintro _ ⟨⟩; exact Bindings.resolver_grounded (by simp [questions])) hinstance
      (refusingHost_acts 100 _) .here hinvoke
  exact ⟨m, s, t, _, inst, site, stop, raised, s', hloaded, hinstance, hinvoke, rfl, rfl, hstopped,
    hraised, hblames, hrecords⟩

end IntWasm
