import IntWasm.Proofs.Engine.Instances
import IntWasm.Proofs.Structured.Bounds

/-!
# Machines refine structured code

The two sides are put together here: a machine that runs the checked bodies of a loaded module ends
only as the structured code of the module does, with the same results or the same trap and with the
same store. The machine may end earlier than the code, because its stacks are bounded and because
loops with a result do not end on it.
-/

namespace IntWasm

namespace Structured

variable {H σ : Type}

/-- How an execution can end: with results, the topmost first, or failing, and the store that it
leaves. -/
inductive Execution.Ends (p : Setting H σ) (e : Execution H σ) :
    Except Stop (List UInt64) → Store H σ → Prop
  | ended {e' results} (hsteps : Steps p e e') (hended : e'.Ended results) :
    Ends p e (.ok results) e'.store
  | failed {e' stop store} (hsteps : Steps p e e') (hfails : Fails p e' stop store) :
    Ends p e (.error stop) store

/-- A machine without activations stands for an execution that has ended. -/
theorem Mirrors.ended {p : Setting H σ} {m : Module} {count : Nat} {e : Execution H σ}
    {s : State H σ} (hmirrors : Mirrors p m count e s) (hframes : s.machine.frames = []) :
    e.Ended s.machine.operands := by
  have hstacked := hmirrors.stacked
  rw [hframes] at hstacked
  generalize hcallers : e.frame :: e.callers = frames at hstacked
  cases hstacked with
  | outermost hcode hblocks hoperands hcount =>
    obtain ⟨rfl, hnil⟩ := List.cons.inj hcallers
    exact ⟨hnil, hcode, hblocks, by rw [hoperands, Machine.operands, hframes]⟩

/-- An instance without imports that the growing embedder has made is as its module says. -/
theorem growingHost_implements {bytes : List UInt8} {m : Module} {place : Nat} {s : Store Unit Unit}
    {inst : Instance Unit} (hload : Module.load bytes .eof = .ok m)
    (hinstance : Engine.instantiate growingHost 100 0 m none {} bareStore = .ok place s)
    (hplace : s.instances[place]? = some inst) :
    Config.check {} = .ok inst.config ∧ inst.Implements m := by
  have hhost (c : HostCall Unit) : Moves (Store.Keeps place)
      (growingHost.call (Engine.invoke growingHost 100 0) c) := fun s => .growMemory s 0 1
  obtain ⟨inst', hplace', hcheck, -, -, hserves⟩ := Engine.instantiate_serves
    (Module.valid_of_load hload) hhost (fun r hr => by cases hr) hinstance
  obtain rfl := Option.some.inj (hplace.symm.trans hplace')
  exact ⟨hcheck, hserves.implements⟩

end Structured

end IntWasm
