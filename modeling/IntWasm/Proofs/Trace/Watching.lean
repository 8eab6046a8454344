import IntWasm.Engine.Run
import IntWasm.Proofs.Trace.Writing

/-!
# Traces side by side

Two runs write the same entries, the first one to an output for `k` bytes and the second one to an
output without bounds. Then the first output keeps the first `k` bytes of what the second one keeps.
The thread that writes to it stops writing when an entry does not fit, and by then all `k` bytes are
there; so it does not matter any more what it would have written. Main statement: `Watch.traced`.
-/

namespace IntWasm

/-! ## Two outputs -/

/-- An output that has kept the first `k` bytes of what another one without bounds has kept, and has
no room for more than these. -/
structure Sink.Cut (k : Nat) (out full : Sink) : Prop where
  unbounded : full.room = none
  kept_eq : out.kept.toList = full.kept.toList.take k
  room_eq : out.room = some (k - full.kept.size)

namespace Sink.Cut

variable {k : Nat} {out full : Sink}

/-- The same bytes are put into both, as far as they fit. -/
theorem put (hcut : out.Cut k full) (bs : List UInt8) : (out.put bs).1.Cut k (full.put bs).1 := by
  obtain ⟨hunbounded, hkept, hroom⟩ := hcut
  have hsize : full.kept.toList.length = full.kept.size := Array.length_toList
  have hgrown : (full.kept ++ bs).size = full.kept.size + bs.length := by
    simp [← Array.length_toList]
  rw [Sink.put_of_unbounded hunbounded]
  simp only [Sink.put, hroom]
  by_cases hfits : bs.length ≤ k - full.kept.size
  · simp only [if_pos hfits]
    refine ⟨hunbounded, ?_, by simp only [hgrown, Nat.sub_sub]⟩
    rcases Nat.lt_or_ge k full.kept.size with hlt | hle
    · have hnil : bs = [] := List.length_eq_zero_iff.mp (by omega)
      simpa [hnil] using hkept
    · have hall : bs.take (k - full.kept.size) = bs := List.take_of_length_le hfits
      simp [hkept, List.take_append, hall]
  · simp only [if_neg hfits]
    refine ⟨hunbounded, by simp [hkept, List.take_append], ?_⟩
    simp only [hgrown, Option.some.injEq]
    omega

/-- Bytes that do not fit fill the first output. -/
theorem full_of_put (hcut : out.Cut k full) {bs : List UInt8} (hputs : (out.put bs).2 = false) :
    k ≤ (full.put bs).1.kept.size := by
  have hgrown : (full.kept ++ bs).size = full.kept.size + bs.length := by
    simp [← Array.length_toList]
  simp only [Sink.put_of_unbounded hcut.unbounded, hgrown]
  simp only [Sink.put, hcut.room_eq] at hputs
  by_cases hfits : bs.length ≤ k - full.kept.size
  · simp [hfits] at hputs
  · omega

/-- Nothing is put into the first output once it is full. -/
theorem put_left (hcut : out.Cut k full) (hfull : k ≤ full.kept.size) (bs : List UInt8) :
    (out.put bs).1 = out := by
  obtain ⟨-, -, hroom⟩ := hcut
  obtain ⟨kept, room⟩ := out
  simp only [Nat.sub_eq_zero_of_le hfull] at hroom
  subst hroom
  cases bs with
  | nil => simp [Sink.put]
  | cons b bs => simp [Sink.put]

/-- The first bytes are not changed any more once they are there. -/
theorem put_right (hcut : out.Cut k full) (hfull : k ≤ full.kept.size) (bs : List UInt8) :
    out.Cut k (full.put bs).1 := by
  have hboth := hcut.put bs
  rwa [hcut.put_left hfull] at hboth

/-- A sink keeps what it has. -/
theorem size_le_put (hcut : out.Cut k full) (bs : List UInt8) :
    full.kept.size ≤ (full.put bs).1.kept.size := by
  rw [Sink.put_of_unbounded hcut.unbounded]
  simp [← Array.length_toList]

end Sink.Cut

/-! ## Two threads -/

/-- The first `k` bytes of a trace are there. -/
def Sink.Has (k : Nat) (out : Sink) : Prop := k ≤ out.kept.size

/-- Two threads that both write their traces, or neither. -/
structure Thread.Synced (t t' : Thread) : Prop where
  traced_eq : t.traced = t'.traced
  fault_eq : t.fault = t'.fault

/-- Synced threads both speak or are both silent. -/
theorem Thread.Synced.speaks_eq {t t' : Thread} (hsynced : t.Synced t') : t.Speaks = t'.Speaks := by
  simp only [Thread.Speaks, hsynced.traced_eq, hsynced.fault_eq]

section

variable {k : Nat} {out full : Sink} {t t' : Thread}

/-- Past the bytes that fit, whatever is written keeps the sinks cut. -/
theorem Thread.emit_cut_of_has (hcut : out.Cut k full) (hhas : full.Has k) (t t' : Thread)
    (e : TraceEntry) :
    (t.emit e out).2.Cut k (t'.emit e full).2 ∧ (t'.emit e full).2.Has k := by
  have hleft : (t.emit e out).2 = out := by
    rw [emit_spec]
    split
    · split <;> exact hcut.put_left hhas _
    · rfl
  have hright : (t'.emit e full).2 = full ∨ (t'.emit e full).2 = (full.put e.bytes).1 := by
    rw [emit_spec]
    split
    · split <;> exact .inr rfl
    · exact .inl rfl
  rw [hleft]
  rcases hright with hright | hright
  · rw [hright]
    exact ⟨hcut, hhas⟩
  · rw [hright]
    exact ⟨hcut.put_right hhas _, Nat.le_trans hhas (hcut.size_le_put _)⟩

/-- An entry that two threads write to both outputs leaves them as they should be. The first thread
may fail where the second does not, but then the first output is full. -/
theorem Thread.emit_cut (hcut : out.Cut k full) (hsynced : t.Synced t') (e : TraceEntry) :
    (t.emit e out).2.Cut k (t'.emit e full).2 ∧
      ((t.emit e out).1.Synced (t'.emit e full).1 ∨ (t'.emit e full).2.Has k) := by
  rw [emit_spec, emit_spec, hsynced.speaks_eq]
  split
  · have hfits : (full.put e.bytes).2 = true := by rw [Sink.put_of_unbounded hcut.unbounded]
    simp only [hfits, if_true]
    split
    · exact ⟨hcut.put _, .inl ⟨hsynced.traced_eq, rfl⟩⟩
    · rename_i hputs
      exact ⟨hcut.put _, .inr (hcut.full_of_put (by simpa using hputs))⟩
  · exact ⟨hcut, .inl hsynced⟩

end

/-! ## Two stores -/

/-- What is known of the traces of two runs. -/
inductive Watch where
  /-- Nothing. -/
  | free
  /-- Into the trace at a place the first run can write `k` bytes, which are the first ones that the
  second run writes. -/
  | cut (k place : Nat)
  /-- Besides, all of these have been written. -/
  | full (k place : Nat)

namespace Watch

/-- What is known of the traces of two stores. -/
def Traces : Watch → Array Sink → Array Sink → Prop
  | free, _, _ => True
  | cut k place, l, u => ∃ out full, l[place]? = some out ∧ u[place]? = some full ∧ out.Cut k full
  | full k place, l, u =>
    ∃ out full, l[place]? = some out ∧ u[place]? = some full ∧ out.Cut k full ∧ full.Has k

/-- What is known once the first output is full. -/
def filled : Watch → Watch
  | cut k place => full k place
  | w => w

/-- What is known of two threads that write to a trace: both go on to write, or the first output is
full. -/
def Threads (trace : Option Nat) (t t' : Thread) (l u : Array Sink) : Watch → Prop
  | cut k place => trace = some place → t.Synced t' ∨ (cut k place).filled.Traces l u
  | _ => True

variable {H σ : Type} {w : Watch}

/-- A trace at a place is exchanged. -/
theorem Traces.set {l u : Array Sink} (htraces : w.Traces l u) {place : Nat}
    (hplace : ∀ k, w ≠ cut k place ∧ w ≠ full k place) (out full : Sink) :
    w.Traces (l.setIfInBounds place out) (u.setIfInBounds place full) := by
  have hother {place' : Nat} (hne : place ≠ place') (entries : Array Sink) (e : Sink) :
      (entries.setIfInBounds place e)[place']? = entries[place']? :=
    Array.getElem?_setIfInBounds_ne hne
  cases w with
  | free => exact trivial
  | cut k place' =>
    have hne : place ≠ place' := fun heq => (hplace k).1 (by rw [heq])
    simpa only [Traces, hother hne] using htraces
  | full k place' =>
    have hne : place ≠ place' := fun heq => (hplace k).2 (by rw [heq])
    simpa only [Traces, hother hne] using htraces

end Watch

/-- Without a trace only the thread changes. -/
theorem Run.traced_none {H σ : Type} {config : Config} (htrace : config.trace = none)
    (s : State H σ) (act : Thread → Sink → Thread × Sink) :
    Run.traced config s act = { s with thread := (act s.thread {}).1 } := by
  simp only [Run.traced, htrace]

/-- With a trace the thread writes to its sink. -/
theorem Run.traced_some {H σ : Type} {config : Config} {place : Nat}
    (htrace : config.trace = some place) (s : State H σ) (act : Thread → Sink → Thread × Sink) :
    Run.traced config s act =
      { s with
        thread := (act s.thread (s.store.traces[place]?.getD {})).1
        store.traces := s.store.traces.setIfInBounds place
          (act s.thread (s.store.traces[place]?.getD {})).2 } := by
  simp only [Run.traced, htrace, Array.setIfInBounds_setIfInBounds]

namespace Watch

variable {H σ : Type} {w : Watch}

/-- What two traces that are exchanged are afterwards. -/
theorem placed {l u : Array Sink} {place : Nat} {out full : Sink} (hout : l[place]? = some out)
    (hfull : u[place]? = some full) :
    (∀ e, (l.setIfInBounds place e)[place]? = some e) ∧
      ∀ e, (u.setIfInBounds place e)[place]? = some e :=
  ⟨fun _ => Array.getElem?_setIfInBounds_self_of_lt (Array.getElem?_eq_some_iff.1 hout).1,
    fun _ => Array.getElem?_setIfInBounds_self_of_lt (Array.getElem?_eq_some_iff.1 hfull).1⟩

/-- Two threads that do the same to their traces leave as much known of them. -/
theorem traced {config config' : Config} (hconfig : w ≠ free → config.trace = config'.trace)
    {act : Thread → Sink → Thread × Sink} {depth : Int → Int} {e : TraceEntry}
    (htells : Thread.Tells act depth e) {s t : State H σ}
    (htraces : w.Traces s.store.traces t.store.traces)
    (hthreads : w.Threads config.trace s.thread t.thread s.store.traces t.store.traces) :
    w.Traces (Run.traced config s act).store.traces (Run.traced config' t act).store.traces ∧
      w.Threads config.trace (Run.traced config s act).thread (Run.traced config' t act).thread
        (Run.traced config s act).store.traces (Run.traced config' t act).store.traces := by
  -- Under a cut trace the threads agree until the limit was hit, and from then on only the full
  -- trace grows; both cases keep the cut one a beginning of it.
  cases w with
  | free => exact ⟨trivial, trivial⟩
  | cut k place =>
    have hsame := hconfig nofun
    cases htrace : config.trace with
    | none =>
      rw [Run.traced_none htrace, Run.traced_none (hsame ▸ htrace)]
      exact ⟨htraces, nofun⟩
    | some place' =>
      rw [Run.traced_some htrace, Run.traced_some (hsame ▸ htrace), htells, htells]
      by_cases hplace : place' = place
      · obtain rfl := hplace
        obtain ⟨out, full, hout, hfull, hcut⟩ := htraces
        simp only [hout, hfull, Option.getD_some]
        rw [htrace] at hthreads
        rcases hthreads rfl with hsynced | ⟨_, _, hout', hfull', hcut', hhas⟩
        · have hsynced' : Thread.Synced { s.thread with depth := depth s.thread.depth }
              { t.thread with depth := depth t.thread.depth } :=
            ⟨hsynced.traced_eq, hsynced.fault_eq⟩
          have hemit := Thread.emit_cut hcut hsynced' e
          have hplaced := placed hout hfull
          refine ⟨⟨_, _, hplaced.1 _, hplaced.2 _, hemit.1⟩, fun _ => ?_⟩
          exact hemit.2.imp_right fun hhas => ⟨_, _, hplaced.1 _, hplaced.2 _, hemit.1, hhas⟩
        · obtain rfl := Option.some.inj (hout.symm.trans hout')
          obtain rfl := Option.some.inj (hfull.symm.trans hfull')
          have hemit := Thread.emit_cut_of_has hcut hhas
            { s.thread with depth := depth s.thread.depth }
            { t.thread with depth := depth t.thread.depth } e
          have hplaced := placed hout hfull
          exact ⟨⟨_, _, hplaced.1 _, hplaced.2 _, hemit.1⟩,
            fun _ => .inr ⟨_, _, hplaced.1 _, hplaced.2 _, hemit⟩⟩
      · exact ⟨htraces.set (fun _ => ⟨fun heq => hplace (Watch.cut.inj heq).2.symm, nofun⟩) _ _,
          fun heq => absurd (Option.some.inj heq) hplace⟩
  | full k place =>
    refine ⟨?_, trivial⟩
    have hsame := hconfig nofun
    cases htrace : config.trace with
    | none =>
      rw [Run.traced_none htrace, Run.traced_none (hsame ▸ htrace)]
      exact htraces
    | some place' =>
      rw [Run.traced_some htrace, Run.traced_some (hsame ▸ htrace), htells, htells]
      by_cases hplace : place' = place
      · obtain rfl := hplace
        obtain ⟨out, full, hout, hfull, hcut, hhas⟩ := htraces
        simp only [hout, hfull, Option.getD_some]
        have hplaced := placed hout hfull
        exact ⟨_, _, hplaced.1 _, hplaced.2 _, Thread.emit_cut_of_has hcut hhas _ _ e⟩
      · exact htraces.set (fun _ => ⟨nofun, fun heq => hplace (Watch.full.inj heq).2.symm⟩) _ _

end Watch

end IntWasm
