import IntWasm.Proofs.Structured.Bounds
import IntWasm.Proofs.Trace.Watching

/-!
# What a call leaves in its trace

While a call runs, its trace grows by entries of the call and by what functions of the embedder
write on their own, one note after another. The entries open and close functions like brackets:
those that are open are the functions of the activations of the machine, and one of the embedder
while it is performed. An instruction is noted where it stands in the innermost function. Main
statements: `Recording.Ready.visits`, what is in the trace in every state that a call goes through,
and `Recording.Ready.call`, what is there when it has ended.
-/

namespace IntWasm

variable {H σ : Type}

/-- An instruction that is supported can be written. -/
theorem TraceEntry.fault_instruction {i : Instruction} (hsupported : i.op?.isSome)
    (ip height : Int) : (instruction ip i height).fault = none := by
  obtain ⟨op, hop⟩ := Option.isSome_iff_exists.mp hsupported
  have hbytes : i.bytesAt 0 = .ok (i.opcode :: i.immediateBytes op) := by
    rw [Instruction.bytesAt, hop]
  rw [fault, contents_of_bytesAt_ok hbytes]

/-- A thread that writes to an output without bounds goes on doing so. -/
theorem Thread.emit_unbounded {t : Thread} (hspeaks : t.Speaks = true) {e : TraceEntry}
    (hfault : e.fault = none) {out : Sink} (hroom : out.room = none) :
    t.emit e out = (t, { out with kept := out.kept ++ e.bytes }) := by
  have hnone : t.fault = none := by
    rw [Speaks, Bool.and_eq_true, Option.isNone_iff_eq_none] at hspeaks
    exact hspeaks.2
  rw [emit_spec, if_pos hspeaks, Sink.put_of_unbounded hroom, if_pos rfl, hfault, ← hnone]

/-! ## Notes -/

/-- What is added to the trace of a call: an entry of the call itself, or bytes that a function of
the embedder has written. -/
inductive Note where
  | own (e : TraceEntry)
  | foreign (bs : List UInt8)

namespace Note

def bytes : Note → List UInt8
  | own e => e.bytes
  | foreign bs => bs

/-- How many more functions are open after a note. -/
def rise : Note → Int
  | own (.enter ..) => 1
  | own .leave => -1
  | own (.instruction ..) | own (.trap ..) | own .finish | foreign _ => 0

/-- The number of functions that were opened, less those that were closed. -/
def depth (notes : List Note) : Int := (notes.map rise).sum

/-- The functions that are open after a note, the innermost first. -/
def next (functions : List UInt32) : Note → List UInt32
  | own (.enter _ function _) => function :: functions
  | own .leave => functions.tail
  | own (.instruction ..) | own (.trap ..) | own .finish | foreign _ => functions

/-- The functions that are open after notes, the innermost first. -/
def opened (notes : List Note) : List UInt32 := notes.foldl next []

variable (notes : List Note) (n : Note)

/-- A note more rises or falls from the depth before it. -/
theorem depth_append : depth (notes ++ [n]) = depth notes + n.rise := by
  simp [depth]

/-- A note more opens or leaves a function. -/
theorem opened_append : opened (notes ++ [n]) = n.next (opened notes) := by
  simp [opened]

end Note

/-! ## Recordings -/

/-- A function of an instance is found under its own index. -/
structure Instance.Owns (inst : Instance H) (fn : Function) : Prop where
  import_eq : inst.imports[fn.index.toNat]? = none
  function_eq : inst.functions[fn.index.toNat - inst.imports.size]? = some fn

/-- A function that is called is found under its own index if the functions have the right
indices. -/
theorem Instance.owns_of_index_eq {inst : Instance H}
    (hindex : ∀ {i fn}, inst.functions[i]? = some fn →
      fn.index = UInt32.ofNat (inst.imports.size + i))
    {function : UInt32} {fn : Function} (himport : inst.imports[function.toNat]? = none)
    (hfunction : inst.functions[function.toNat - inst.imports.size]? = some fn) : inst.Owns fn := by
  have hle : inst.imports.size ≤ function.toNat := Array.getElem?_eq_none_iff.mp himport
  have hown : fn.index = function := by
    rw [hindex hfunction, Nat.add_sub_cancel' hle, UInt32.ofNat_toNat]
  exact ⟨hown ▸ himport, hown ▸ hfunction⟩

/-- Opening a function tells its name and its type as the instance knows them. -/
def Instance.Announces (inst : Instance H) (name : List UInt8) (function : UInt32)
    (type : FuncType) : Prop :=
  (∃ f, inst.imports[function.toNat]? = some f ∧ name = Text.utf8 f.moduleName ∧ type = f.type) ∨
    ∃ fn, inst.Owns fn ∧ function = fn.index ∧ name = Text.utf8 inst.name ∧ type = fn.type

/-- How an activation goes on that is of a given function. -/
def Next.StaysIn (fn : Function) : Next → Prop
  | .go f => f.function = fn
  | .leave _ => True
  | .call f _ => f.function = fn

/-- Whatever happens between two stores, the trace at a place has only grown. -/
def Store.Appends (place : Nat) (s s' : Store H σ) : Prop :=
  ∀ kept, s.traces[place]? = some { kept } → ∃ bs : List UInt8,
    s'.traces[place]? = some { kept := kept ++ bs }

/-- A note more adds its bytes. -/
theorem append_flatMap_note (before : Array UInt8) (notes : List Note) (n : Note) :
    before ++ (notes ++ [n]).flatMap Note.bytes = before ++ notes.flatMap Note.bytes ++ n.bytes :=
  Array.toList_inj.mp (by simp)

/-- A call of a function of an instance in a store, on a machine with a word in its result slot. Its
trace is at a place, where some bytes have been written before. -/
structure Recording (H σ : Type) where
  inst : Instance H
  host : Host H σ
  invoker : Invoker H σ
  function : UInt32
  args : List UInt64
  store : Store H σ
  slot : UInt64
  place : Nat
  before : Array UInt8

/-- The indices of the functions that a machine runs, the innermost first. -/
def Machine.indices (machine : Machine) : List UInt32 := machine.frames.map (·.function.index)

/-- The indices of a machine are those of its functions. -/
theorem Machine.indices_eq (machine : Machine) :
    machine.indices = (machine.frames.map (·.function)).map (·.index) := by
  simp [indices]

namespace Recording

variable (r : Recording H σ)

/-- The states that the call goes through. -/
abbrev Visits (next : Progress H) (s : State H σ) : Prop :=
  r.inst.Visits r.host r.invoker r.function r.args r.store r.slot next s

/-- The trace holds notes after what was there before the call, and takes whatever comes. -/
def Holds (notes : List Note) (store : Store H σ) : Prop :=
  store.traces[r.place]? = some { kept := r.before ++ notes.flatMap Note.bytes }

/-- What is true of a note that comes after others. An instruction is the one that the innermost
activation is at, in a state whose trace holds these notes. What is not an entry of the call was
written by a function of the embedder that was performed at this point. No invocation ends within
the call. -/
def Follows (notes : List Note) : Note → Prop
  | .own (.enter name function type) => r.inst.Announces name function type
  | .own .leave => True
  | .own (.instruction ip i height) => ∃ s f fs, r.Visits .more s ∧ r.Holds notes s.store ∧
      s.machine.frames = f :: fs ∧ Note.opened notes = s.machine.indices ∧ r.inst.Owns f.function ∧
      f.function.body.instructions[f.ip]? = some i ∧ ip = f.ip ∧ height = f.operands.length
  | .foreign bs => ∃ c s, r.Visits (.host c) s ∧ r.Holds notes s.store ∧
      r.Holds (notes ++ [.foreign bs]) (finalState (r.host.call r.invoker c s.store))
  | .own (.trap ..) | .own .finish => False

/-- Notes that tell what a call does. The depth is the number of functions that are open, so it is
never negative, and no more functions are open than may be. -/
structure Faithful (notes : List Note) : Prop where
  depth_eq : ∀ k, Note.depth (notes.take k) = (Note.opened (notes.take k)).length
  depth_le : ∀ k, Note.depth (notes.take k) ≤ r.inst.config.maxCallDepth
  follows : ∀ {k n}, notes[k]? = some n → r.Follows (notes.take k) n

variable {r} {notes : List Note}

/-- Notes stay faithful if the next one follows and keeps within the call depth. -/
theorem Faithful.append (hfaithful : r.Faithful notes) {n : Note} (hfollows : r.Follows notes n)
    (hdepth : Note.depth (notes ++ [n]) = (Note.opened (notes ++ [n])).length)
    (hle : Note.depth (notes ++ [n]) ≤ r.inst.config.maxCallDepth) : r.Faithful (notes ++ [n]) := by
  have htake (k : Nat) :
      (notes ++ [n]).take k = notes.take k ∨ (notes ++ [n]).take k = notes ++ [n] := by
    by_cases hk : k ≤ notes.length
    · exact .inl (List.take_append_of_le_length hk)
    · refine .inr (List.take_of_length_le ?_)
      rw [List.length_append, List.length_singleton]
      omega
  refine ⟨fun k => ?_, fun k => ?_, fun {k n'} hn => ?_⟩
  · rcases htake k with heq | heq
    · rw [heq]
      exact hfaithful.depth_eq k
    · rw [heq]
      exact hdepth
  · rcases htake k with heq | heq
    · rw [heq]
      exact hfaithful.depth_le k
    · rw [heq]
      exact hle
  · rcases Nat.lt_trichotomy k notes.length with hk | rfl | hk
    · rw [List.getElem?_append_left hk] at hn
      rw [List.take_append_of_le_length (Nat.le_of_lt hk)]
      exact hfaithful.follows hn
    · rw [List.getElem?_concat_length, Option.some.injEq] at hn
      obtain rfl := hn
      rwa [List.take_left]
    · rw [List.getElem?_eq_none (by simpa using Nat.succ_le_of_lt hk)] at hn
      cases hn

/-- The depth of faithful notes is the number of opened functions. -/
theorem Faithful.length_opened (hfaithful : r.Faithful notes) :
    Note.depth notes = (Note.opened notes).length := by
  simpa using hfaithful.depth_eq notes.length

/-- The depth of faithful notes keeps within the call depth. -/
theorem Faithful.depth_le_all (hfaithful : r.Faithful notes) :
    Note.depth notes ≤ r.inst.config.maxCallDepth := by
  simpa using hfaithful.depth_le notes.length

/-- No notes are faithful. -/
theorem faithful_nil (hpositive : 0 ≤ r.inst.config.maxCallDepth) : r.Faithful [] :=
  ⟨fun _ => by simp [Note.depth, Note.opened], fun _ => by
    simpa [Note.depth] using hpositive, nofun⟩

/-! ## States -/

variable {functions : List UInt32} {s : State H σ}

/-- The trace tells what the call has done so far, and the thread goes on to write it. -/
structure Ends (r : Recording H σ) (notes : List Note) (s : State H σ) : Prop where
  faithful : r.Faithful notes
  holds : r.Holds notes s.store
  speaks : s.thread.Speaks = true

/-- Besides, the thread knows how many functions are open, and those of the machine are found in the
instance. -/
structure Keeps (r : Recording H σ) (notes : List Note) (functions : List UInt32) (s : State H σ) :
    Prop extends r.Ends notes s where
  depth_eq : s.thread.depth = Note.depth notes
  opened_eq : Note.opened notes = functions
  maxDepth_eq : s.thread.maxDepth = r.inst.config.maxCallDepth
  owned : ∀ f ∈ s.machine.frames, r.inst.Owns f.function

/-- The functions that are open are those of the machine, and a function of the embedder if one is
performed next. -/
def Stands (r : Recording H σ) (notes : List Note) (s : State H σ) : Progress H → Prop
  | .done => r.Keeps notes s.machine.indices s ∧ s.machine.frames = []
  | .more => r.Keeps notes s.machine.indices s
  | .host _ => ∃ function, r.Keeps notes (function :: s.machine.indices) s

/-- Where a run stands it may end. -/
theorem Stands.ends {next : Progress H} (hstands : r.Stands notes s next) :
    r.Ends notes s ∧ s.thread.depth = Note.depth notes := by
  cases next with
  | done => exact ⟨hstands.1.toEnds, hstands.1.depth_eq⟩
  | more => exact ⟨Keeps.toEnds hstands, Keeps.depth_eq hstands⟩
  | host c =>
    obtain ⟨function, hkeeps⟩ := hstands
    exact ⟨hkeeps.toEnds, hkeeps.depth_eq⟩

/-- What the call has told so far is in the trace, whatever it does next. -/
def Told (r : Recording H σ) (next : Progress H) (s : State H σ) : Prop :=
  ∃ notes, r.Stands notes s next

/-- What the call has told is in the trace when it stops. -/
def Stopped (r : Recording H σ) (s : State H σ) : Prop := ∃ notes, r.Ends notes s

/-- An entry that the thread writes is in the trace afterwards. -/
theorem Holds.tell {e : TraceEntry} (hholds : r.Holds notes s.store)
    (htrace : r.inst.config.trace = some r.place) (hspeaks : s.thread.Speaks = true)
    (hfault : e.fault = none) {act : Thread → Sink → Thread × Sink} {depth : Int → Int}
    (htells : Thread.Tells act depth e) :
    ∃ traces, Run.traced r.inst.config s act =
        { s with
          store := { s.store with traces }
          thread := { s.thread with depth := depth s.thread.depth } } ∧
      r.Holds (notes ++ [.own e]) { s.store with traces } := by
  have hplace := (Array.getElem?_eq_some_iff.mp hholds).1
  have hroom : ({ kept := r.before ++ notes.flatMap Note.bytes } : Sink).room = none := rfl
  have hemit := Thread.emit_unbounded (t := { s.thread with depth := depth s.thread.depth }) hspeaks
    hfault hroom
  refine ⟨s.store.traces.setIfInBounds r.place
    { kept := r.before ++ notes.flatMap Note.bytes ++ e.bytes }, ?_, ?_⟩
  · rw [Run.traced_some htrace, htells, hholds, Option.getD_some, hemit]
  · rw [Holds, Array.getElem?_setIfInBounds_self_of_lt hplace, append_flatMap_note]
    rfl

/-! ## Steps -/

/-- What the call relies on. Its trace is at the place and has room for everything, the functions of
its instance have the right indices, an instruction stays in its function and can be written, and
functions of the embedder only add to the trace. -/
structure Ready (r : Recording H σ) : Prop where
  trace_eq : r.inst.config.trace = some r.place
  before_eq : r.store.traces[r.place]? = some { kept := r.before }
  positive : r.inst.config.Positive
  index_eq : ∀ {i fn}, r.inst.functions[i]? = some fn →
    fn.index = UInt32.ofNat (r.inst.imports.size + i)
  stays : ∀ {s f fs i} {traces : Array Sink} {next store}, r.Visits .more s →
    s.machine.frames = f :: fs → f.function.body.instructions[f.ip]? = some i →
    Activation.step r.inst { f with ip := f.ip + 1 } i { s.store with traces } = .ok next store →
    next.StaysIn f.function
  supported : ∀ {s f fs i}, r.Visits .more s → s.machine.frames = f :: fs →
    f.function.body.instructions[f.ip]? = some i → i.op?.isSome
  appends : ∀ c, Moves (Store.Appends r.place) (r.host.call r.invoker c)

/-- A function of a ready instance is one of its own. -/
theorem Ready.owns (hready : r.Ready) {function : UInt32} {fn : Function}
    (himport : r.inst.imports[function.toNat]? = none)
    (hfunction : r.inst.functions[function.toNat - r.inst.imports.size]? = some fn) :
    r.inst.Owns fn :=
  Instance.owns_of_index_eq hready.index_eq himport hfunction

/-- A function is opened. -/
theorem Keeps.opened (hkeeps : r.Keeps notes functions s) (hready : r.Ready) {name : String}
    {function : UInt32} {type : FuncType}
    (hannounces : r.inst.Announces (Text.utf8 name) function type) :
    Leads (Run.openFunction r.inst name function type) s
      (fun _ s' => s'.machine = s.machine ∧
        r.Keeps (notes ++ [.own (.enter (Text.utf8 name) function type)])
          (function :: functions) s')
      fun _ => r.Stopped := by
  unfold Leads Run.openFunction
  by_cases hfull : s.thread.isFull = true
  · rw [if_pos hfull]
    exact ⟨notes, hkeeps.toEnds⟩
  · rw [if_neg hfull]
    obtain ⟨traces, htraced, hholds⟩ := hkeeps.holds.tell hready.trace_eq hkeeps.speaks rfl
      (Thread.tells_opened name function type)
    have hdepth := hkeeps.depth_eq
    have hlength := hkeeps.faithful.length_opened
    rw [Thread.isFull, decide_eq_true_eq, hkeeps.maxDepth_eq] at hfull
    have hrise : Note.depth (notes ++ [.own (.enter (Text.utf8 name) function type)]) =
        Note.depth notes + 1 := Note.depth_append _ _
    have hnext : Note.opened (notes ++ [.own (.enter (Text.utf8 name) function type)]) =
        function :: functions := by
      rw [Note.opened_append, hkeeps.opened_eq]
      rfl
    have hfaithful := hkeeps.faithful.append (n := .own (.enter (Text.utf8 name) function type))
      hannounces (by rw [hrise, hnext, hlength, hkeeps.opened_eq]; rfl) (by omega)
    rw [htraced]
    refine ⟨rfl, ⟨hfaithful, hholds, hkeeps.speaks⟩, ?_, hnext, hkeeps.maxDepth_eq, hkeeps.owned⟩
    rw [hrise, ← hdepth]

/-- The innermost function is closed. -/
theorem Keeps.left {function : UInt32} (hkeeps : r.Keeps notes (function :: functions) s)
    (hready : r.Ready) :
    ∃ store thread, Run.traced r.inst.config s Thread.leave = ⟨store, thread, s.machine⟩ ∧
      r.Keeps (notes ++ [.own .leave]) functions ⟨store, thread, s.machine⟩ := by
  obtain ⟨traces, htraced, hholds⟩ := hkeeps.holds.tell hready.trace_eq hkeeps.speaks rfl
    Thread.tells_leave
  have hlength := hkeeps.faithful.length_opened
  have hle := hkeeps.faithful.depth_le_all
  have hrise : Note.depth (notes ++ [.own .leave]) = Note.depth notes - 1 := Note.depth_append _ _
  have hnext : Note.opened (notes ++ [.own .leave]) = functions := by
    rw [Note.opened_append, hkeeps.opened_eq]
    rfl
  rw [hkeeps.opened_eq, List.length_cons] at hlength
  have hfaithful := hkeeps.faithful.append (n := .own .leave) trivial
    (by rw [hrise, hnext, hlength]; push_cast; ring) (by omega)
  refine ⟨_, _, htraced, ⟨hfaithful, hholds, hkeeps.speaks⟩, ?_, hnext, hkeeps.maxDepth_eq,
    hkeeps.owned⟩
  rw [hrise, ← hkeeps.depth_eq]

/-- The machine changes, but not the functions that it runs. -/
theorem Keeps.withMachine (hkeeps : r.Keeps notes functions s) {machine : Machine}
    (howned : ∀ f ∈ machine.frames, r.inst.Owns f.function) :
    r.Keeps notes functions { s with machine } :=
  ⟨⟨hkeeps.faithful, hkeeps.holds, hkeeps.speaks⟩, hkeeps.depth_eq, hkeeps.opened_eq,
    hkeeps.maxDepth_eq, howned⟩

end Recording

/-- Operands belong to the innermost function, whatever they are. -/
theorem Machine.functions_setOperands (machine : Machine) (operands : List UInt64) :
    (machine.setOperands operands).frames.map (·.function) = machine.frames.map (·.function) := by
  obtain ⟨fs, outer, slot⟩ := machine
  cases fs <;> rfl

/-- The functions of the activations below the innermost one are left. -/
theorem Machine.functions_leave (machine : Machine) (results : List UInt64) :
    (machine.leave results).frames.map (·.function) = machine.frames.tail.map (·.function) :=
  Machine.functions_setOperands _ _

/-- A word put on the stack changes no function. -/
theorem Machine.functions_push {machine machine' : Machine} {config : Config} {v : UInt64}
    (hok : machine.push config v = .ok machine') :
    machine'.frames.map (·.function) = machine.frames.map (·.function) := by
  obtain ⟨fs, outer, slot⟩ := machine
  cases fs with
  | nil =>
    simp only [push] at hok
    split at hok
    · obtain rfl := Except.ok.inj hok
      rfl
    · cases hok
  | cons f fs =>
    simp only [push, except_bind_eq_ok, except_pure_eq_ok] at hok
    obtain ⟨f', hf', rfl⟩ := hok
    unfold Activation.push at hf'
    split at hf'
    · obtain rfl := Except.ok.inj hf'
      rfl
    · cases hf'

/-- A result that is kept changes no function. -/
theorem Machine.functions_keepWritten (machine : Machine) (type : FuncType)
    (written : Option UInt64) :
    (machine.keepWritten type written).frames.map (·.function) =
      machine.frames.map (·.function) := by
  unfold keepWritten
  split <;> rfl

/-- A host call that ends changes no function. -/
theorem Machine.functions_finishHostCall {machine machine' : Machine} {config : Config}
    {type : FuncType} {written : Option UInt64}
    (hok : machine.finishHostCall config type written = .ok machine') :
    machine'.frames.map (·.function) = machine.frames.map (·.function) := by
  unfold finishHostCall at hok
  split at hok
  · obtain rfl := Except.ok.inj hok
    exact machine.functions_setOperands _
  · rw [functions_push hok]
    exact machine.functions_setOperands _

namespace Recording

variable {r : Recording H σ} {notes : List Note} {functions : List UInt32} {s : State H σ}

/-- Two machines that run the same functions. -/
theorem Keeps.withFunctions (hkeeps : r.Keeps notes functions s) {machine : Machine}
    (hsame : machine.frames.map (·.function) = s.machine.frames.map (·.function)) :
    r.Keeps notes functions { s with machine } ∧ machine.indices = s.machine.indices := by
  refine ⟨hkeeps.withMachine fun f hf => ?_, ?_⟩
  · have hmem : f.function ∈ s.machine.frames.map (·.function) := hsame ▸ List.mem_map_of_mem hf
    obtain ⟨f', hf', heq⟩ := List.mem_map.mp hmem
    rw [← heq]
    exact hkeeps.owned f' hf'
  · rw [Machine.indices_eq, hsame, Machine.indices_eq]

/-- A function of the instance is entered once it was opened. -/
theorem Keeps.enter {fn : Function} (howns : r.inst.Owns fn)
    (hkeeps : r.Keeps notes (fn.index :: s.machine.indices) s) :
    r.Stands notes { s with machine := s.machine.enter r.inst.config fn } .more := by
  obtain ⟨howned, hindices⟩ := hkeeps.withFunctions
    (s.machine.functions_setOperands (s.machine.operands.drop fn.type.params.length))
  have hkeeps' : r.Keeps notes (fn.index :: s.machine.indices)
      { s with machine := s.machine.enter r.inst.config fn } :=
    hkeeps.withMachine fun f hf => by
      rcases List.mem_cons.mp hf with rfl | hf
      · exact howns
      · exact howned.owned f hf
  rwa [← hindices] at hkeeps'

/-- A function is called. -/
theorem Keeps.call (hkeeps : r.Keeps notes s.machine.indices s) (hready : r.Ready)
    (function : UInt32) : Leads (Run.call r.inst function) s r.Told fun _ => r.Stopped := by
  unfold Run.call
  cases himport : r.inst.imports[function.toNat]? with
  | some f =>
    have hopened := hkeeps.opened hready (.inl ⟨f, himport, rfl, rfl⟩)
    refine Leads.bind (hopened.bind fun _ s' hkeeps' => ?_) fun c s' hstands =>
      (hstands : r.Told (.host c) s')
    obtain ⟨hmachine, hkeeps'⟩ := hkeeps'
    simp only [Leads]
    by_cases hlacks : s'.machine.operands.length < f.type.params.length ∨ 1 < f.type.results.length
    · rw [if_pos hlacks]
      exact ⟨_, hkeeps'.toEnds⟩
    · rw [if_neg hlacks]
      exact ⟨_, function, by rwa [hmachine]⟩
  | none =>
    cases hfunction : r.inst.functions[function.toNat - r.inst.imports.size]? with
    | none => exact ⟨notes, hkeeps.toEnds⟩
    | some fn =>
      have howns := hready.owns himport hfunction
      have hopened := hkeeps.opened hready (.inr ⟨fn, howns, rfl, rfl, rfl⟩)
      suffices hentered : Leads (Run.enterFunction r.inst fn) s (fun _ => r.Told .more)
          fun _ => r.Stopped from hentered.bind fun _ _ htold => htold
      refine Leads.after (estate_get s) ?_
      by_cases hadmits : s.machine.admits r.inst.config fn = true
      · simp only [hadmits, not_true_eq_false, if_false]
        refine hopened.bind fun _ s' hkeeps' => ?_
        obtain ⟨hmachine, hkeeps'⟩ := hkeeps'
        exact ⟨_, Keeps.enter howns (by rwa [hmachine])⟩
      · simp only [hadmits]
        exact ⟨notes, hkeeps.toEnds⟩

/-- An instruction is noted that the innermost activation is at. -/
theorem Keeps.noted (hkeeps : r.Keeps notes s.machine.indices s) (hvisits : r.Visits .more s)
    {f : Activation} {fs : List Activation} {i : Instruction} (hframes : s.machine.frames = f :: fs)
    (hat : f.function.body.instructions[f.ip]? = some i) :
    r.Faithful (notes ++ [.own (.instruction f.ip i f.operands.length)]) ∧
      Note.opened (notes ++ [.own (.instruction f.ip i f.operands.length)]) = s.machine.indices ∧
      Note.depth (notes ++ [.own (.instruction f.ip i f.operands.length)]) = Note.depth notes := by
  have howns : r.inst.Owns f.function := hkeeps.owned f (by rw [hframes]; exact List.mem_cons_self)
  have hrise : Note.depth (notes ++ [.own (.instruction f.ip i f.operands.length)]) =
      Note.depth notes := (Note.depth_append _ _).trans (Int.add_zero _)
  have hnext : Note.opened (notes ++ [.own (.instruction f.ip i f.operands.length)]) =
      Note.opened notes := Note.opened_append _ _
  refine ⟨hkeeps.faithful.append ?_ ?_ ?_, hnext.trans hkeeps.opened_eq, hrise⟩
  · exact ⟨s, f, fs, hvisits, hkeeps.holds, hframes, hkeeps.opened_eq, howns, hat, rfl, rfl⟩
  · rw [hrise, hnext]
    exact hkeeps.faithful.length_opened
  · rw [hrise]
    exact hkeeps.faithful.depth_le_all

/-- The innermost function goes on with an activation. -/
theorem Keeps.resumed (hkeeps : r.Keeps notes s.machine.indices s) {f g : Activation}
    {callers : List Activation} (hframes : s.machine.frames = f :: callers)
    (hfunction : g.function = f.function) :
    r.Stands notes { s with machine := s.machine.resume g } .more := by
  have hsame : (s.machine.resume g).frames.map (·.function) =
      s.machine.frames.map (·.function) := by
    rw [Machine.resume, hframes, List.map_cons, hfunction]
    rfl
  obtain ⟨hkept, hindices⟩ := hkeeps.withFunctions hsame
  rwa [← hindices] at hkept

/-- What the innermost activation asks for is carried out. -/
theorem Keeps.follow (hkeeps : r.Keeps notes s.machine.indices s) (hready : r.Ready)
    {f : Activation} {callers : List Activation} (hframes : s.machine.frames = f :: callers)
    {next : Next} (hstays : next.StaysIn f.function) :
    Leads (Run.follow r.inst next) s r.Told fun _ => r.Stopped := by
  cases next with
  | go g => exact ⟨notes, hkeeps.resumed hframes hstays⟩
  | leave results =>
    have hfunctions := s.machine.functions_leave results
    rw [hframes, List.tail_cons] at hfunctions
    have hkept : r.Keeps notes (f.function.index :: (s.machine.leave results).indices)
        { s with machine := s.machine.leave results } := by
      rw [Machine.indices_eq, hframes, List.map_cons, List.map_cons, ← hfunctions,
        ← Machine.indices_eq] at hkeeps
      refine hkeeps.withMachine fun g hg => ?_
      have hmem := List.mem_map_of_mem (f := (·.function)) hg
      rw [hfunctions] at hmem
      obtain ⟨caller, hcaller, heq⟩ := List.mem_map.mp hmem
      rw [← heq]
      exact hkeeps.owned caller (by rw [hframes]; exact List.mem_cons_of_mem _ hcaller)
    obtain ⟨store, thread, htraced, hleft⟩ := hkept.left hready
    have hleads : r.Told .more (Run.traced r.inst.config
        { s with machine := s.machine.leave results } Thread.leave) := by
      rw [htraced]
      exact ⟨_, hleft⟩
    exact hleads
  | call g function =>
    exact Leads.after (estate_modify _ s)
      (Keeps.call (hkeeps.resumed hframes hstays) hready function)

/-- What an instruction of the instance does to the store leaves traces alone. -/
theorem permits_traces (inst : Instance H) :
    inst.Permits fun s s' : Store H σ => s'.traces = s.traces := by
  refine ⟨fun _ => rfl, fun _ _ _ hst htu => htu.trans hst, fun {s s'} hworks => ?_⟩
  cases hworks with
  | global => rfl
  | bytes => rfl
  | @grow address pages =>
    simp only [Store.growMemory]
    split <;> rfl
  | count => rfl

/-- One instruction of the innermost activation runs. -/
theorem Keeps.advance (hkeeps : r.Keeps notes s.machine.indices s) (hready : r.Ready)
    (hvisits : r.Visits .more s) :
    Leads (Run.advance r.inst) s r.Told fun _ => r.Stopped := by
  obtain ⟨store, thread, ⟨frames, outer, slot⟩⟩ := s
  unfold Leads
  cases frames with
  | nil => exact ⟨notes, hkeeps, rfl⟩
  | cons f callers =>
    cases hat : f.function.body.instructions[f.ip]? with
    | none =>
      rw [Run.advance_of_none hat]
      exact ⟨notes, hkeeps.faithful, hkeeps.holds, hkeeps.speaks⟩
    | some i =>
      -- The instruction is noted before it runs, so its note is there also when it stops the
      -- machine.
      obtain ⟨traces, htraced, hholds⟩ :=
        Holds.tell (s := ⟨store, thread, ⟨f :: callers, outer, slot⟩⟩)
        hkeeps.holds hready.trace_eq hkeeps.speaks
        (TraceEntry.fault_instruction (hready.supported hvisits rfl hat) f.ip f.operands.length)
        (Thread.tells_instruction f.ip i f.operands.length)
      obtain ⟨hfaithful, hopened, hdepth⟩ := hkeeps.noted hvisits rfl hat
      have hkept := Activation.step_moves (permits_traces r.inst) { f with ip := f.ip + 1 } i
        { store with traces }
      cases hstep : Activation.step r.inst { f with ip := f.ip + 1 } i { store with traces } with
      | error stop store' =>
        rw [hstep] at hkept
        rw [Run.advance_of_error hat htraced hstep]
        exact ⟨_, hfaithful, (congrArg (·[r.place]?) hkept).trans hholds, hkeeps.speaks⟩
      | ok next store' =>
        rw [hstep] at hkept
        rw [Run.advance_of_ok hat htraced hstep]
        have hkeeps' : r.Keeps (notes ++ [.own (.instruction f.ip i f.operands.length)])
            (Machine.indices ⟨f :: callers, outer, slot⟩)
            ⟨store', thread, ⟨f :: callers, outer, slot⟩⟩ :=
          ⟨⟨hfaithful, (congrArg (·[r.place]?) hkept).trans hholds, hkeeps.speaks⟩,
            hkeeps.depth_eq.trans hdepth.symm, hopened, hkeeps.maxDepth_eq, hkeeps.owned⟩
        exact hkeeps'.follow hready rfl (hready.stays hvisits rfl hat hstep)

/-- A function of the embedder is performed. -/
theorem Keeps.perform {function : UInt32} {c : HostCall H}
    (hkeeps : r.Keeps notes (function :: s.machine.indices) s) (hready : r.Ready)
    (hvisits : r.Visits (.host c) s) :
    Leads (Run.performHostCall r.host r.invoker r.inst c) s (fun _ => r.Told .more)
      fun _ => r.Stopped := by
  obtain ⟨store, thread, machine⟩ := s
  obtain ⟨bs, hwritten⟩ := hready.appends c store _ hkeeps.holds
  have hholds : r.Holds (notes ++ [.foreign bs]) (finalState (r.host.call r.invoker c store)) := by
    rw [Holds, append_flatMap_note]
    exact hwritten
  -- What the embedder writes meanwhile changes neither the depth nor the functions that are open.
  have hrise : Note.depth (notes ++ [.foreign bs]) = Note.depth notes :=
    (Note.depth_append _ _).trans (Int.add_zero _)
  have hnext : Note.opened (notes ++ [.foreign bs]) = Note.opened notes := Note.opened_append _ _
  have hfaithful : r.Faithful (notes ++ [.foreign bs]) :=
    hkeeps.faithful.append ⟨c, _, hvisits, hkeeps.holds, hholds⟩
      (by rw [hrise, hnext]; exact hkeeps.faithful.length_opened)
      (by rw [hrise]; exact hkeeps.faithful.depth_le_all)
  simp only [Leads, Run.performHostCall]
  cases hcall : r.host.call r.invoker c store with
  | error failure store' =>
    rw [hcall] at hholds
    exact ⟨_, hfaithful, hholds, hkeeps.speaks⟩
  | ok written store' =>
    rw [hcall] at hholds
    have hkeeps' : r.Keeps (notes ++ [.foreign bs]) (function :: machine.indices)
        ⟨store', thread, machine⟩ :=
      ⟨⟨hfaithful, hholds, hkeeps.speaks⟩, hkeeps.depth_eq.trans hrise.symm,
        hnext.trans hkeeps.opened_eq, hkeeps.maxDepth_eq, hkeeps.owned⟩
    obtain ⟨store₁, thread₁, htraced, hleft⟩ := hkeeps'.left hready
    simp only [htraced]
    cases hfinish : machine.finishHostCall r.inst.config c.type written with
    | error stop => exact ⟨_, hleft.faithful, hleft.holds, hleft.speaks⟩
    | ok machine' =>
      obtain ⟨hkept, hindices⟩ := hleft.withFunctions (Machine.functions_finishHostCall hfinish)
      exact ⟨_, by rwa [← hindices] at hkept⟩

/-! ## Calls -/

/-- The state in which the function is called. -/
def start (r : Recording H σ) : State H σ :=
  ⟨r.store, r.inst.newThread, { outer := r.args.reverse, slot := r.slot }⟩

/-- A ready run begins with no notes. -/
theorem Ready.starts (hready : r.Ready) : r.Keeps [] r.start.machine.indices r.start := by
  have hcalls := hready.positive.callDepth
  refine ⟨⟨faithful_nil (Int.le_of_lt hcalls), ?_, ?_⟩, rfl, rfl, ?_, nofun⟩
  · simpa [Holds, start] using hready.before_eq
  · simp [start, Instance.newThread, Thread.new, Thread.Speaks, hready.trace_eq]
  · simp [start, Instance.newThread, Thread.new, Int.not_le.mpr hcalls]

/-- In every state that the call goes through, the trace tells what it has done so far. -/
theorem Ready.visits (hready : r.Ready) {next : Progress H} (hvisits : r.Visits next s) :
    r.Told next s := by
  induction hvisits with
  | start _ hcall =>
    exact (hready.starts.call hready r.function).of_ok hcall
  | advance hvisits hadvance ih =>
    obtain ⟨notes, hkeeps⟩ := ih
    exact (Keeps.advance hkeeps hready hvisits).of_ok hadvance
  | perform hvisits hperform ih =>
    obtain ⟨notes, function, hkeeps⟩ := ih
    exact (hkeeps.perform hready hvisits).of_ok hperform

/-- When the call has come to its end, no function is open any more. -/
theorem Ready.done (hready : r.Ready) {fuel : Nat} (hok : r.inst.runFunction r.host r.invoker fuel
      r.function r.args ⟨r.store, r.inst.newThread, { slot := r.slot }⟩ = .ok () s) :
    ∃ notes, r.Ends notes s ∧ Note.depth notes = 0 := by
  obtain ⟨notes, hkeeps, hframes⟩ := hready.visits (Instance.runFunction_ok hok)
  refine ⟨notes, hkeeps.toEnds, ?_⟩
  rw [hkeeps.faithful.length_opened, hkeeps.opened_eq, Machine.indices, hframes]
  rfl

/-- When the call stops early, the trace tells what it has done until then. -/
theorem Ready.stopped (hready : r.Ready) {fuel : Nat} {stop : Stop}
    (herror : r.inst.runFunction r.host r.invoker fuel r.function r.args
      ⟨r.store, r.inst.newThread, { slot := r.slot }⟩ = .error stop s)
    (hfuel : stop ≠ .crash .outOfFuel) : r.Stopped s := by
  rcases Instance.runFunction_error herror with
    ⟨hroom, -⟩ | ⟨-, hcall⟩ | hstop | ⟨t, hvisits, hadvance⟩ | ⟨c, t, hvisits, hperform⟩
  · -- there are too many arguments, and nothing has been done yet
    simp only [Instance.runFunction, hroom, if_true, bind, EStateM.bind, estate_throw] at herror
    obtain ⟨-, rfl⟩ := EStateM.Result.error.inj herror
    exact ⟨[], hready.starts.faithful, hready.starts.holds, hready.starts.speaks⟩
  · exact (hready.starts.call hready r.function).of_error hcall
  · exact absurd hstop hfuel
  · obtain ⟨notes, hkeeps⟩ := hready.visits hvisits
    exact (Keeps.advance hkeeps hready hvisits).of_error hadvance
  · obtain ⟨notes, function, hkeeps⟩ := hready.visits hvisits
    exact (hkeeps.perform hready hvisits).of_error hperform

/-- How the trace of a call ends: with an end after all functions were left, or with a trap and an
end. -/
inductive Closed (r : Recording H σ) (store : Store H σ) : Except InvokeError (List UInt64) → Prop
  | returned {words notes} (hfaithful : r.Faithful notes) (hdepth : Note.depth notes = 0)
      (hholds : r.Holds (notes ++ [.own .finish]) store) : Closed r store (.ok words)
  | trapped {e notes} (hfaithful : r.Faithful notes)
      (hholds : r.Holds
        (notes ++ [.own (.trap (Text.utf8 e.trap.text) e.ip), .own .finish]) store) :
    Closed r store (.error (.trapped e))
  | crashed (c : Crash) : Closed r store (.error (.crashed c))

/-- Whether a run is closed depends on the traces. -/
theorem Closed.of_traces {store store' : Store H σ} {outcome : Except InvokeError (List UInt64)}
    (hclosed : r.Closed store outcome) (htraces : store'.traces = store.traces) :
    r.Closed store' outcome := by
  have hholds {notes : List Note} (hholds : r.Holds notes store) : r.Holds notes store' :=
    (congrArg (·[r.place]?) htraces).trans hholds
  cases hclosed with
  | returned hfaithful hdepth hend => exact .returned hfaithful hdepth (hholds hend)
  | trapped hfaithful hend => exact .trapped hfaithful (hholds hend)
  | crashed c => exact .crashed c

/-- The trace of a call ends with its end, and before that with its trap if there was one. -/
theorem Ready.callOn (hready : r.Ready) (fuel : Nat) :
    r.Closed (r.inst.callOn r.host r.invoker fuel r.function r.args r.slot r.store).2
      (r.inst.callOn r.host r.invoker fuel r.function r.args r.slot r.store).1.outcome := by
  unfold Instance.callOn
  cases hresult : r.inst.runFunction r.host r.invoker fuel r.function r.args
      ⟨r.store, r.inst.newThread, { slot := r.slot }⟩ with
  | ok _ s =>
    obtain ⟨notes, hends, hdepth⟩ := hready.done hresult
    -- The depth is reset before the trap is told, so trap and end are noted at depth zero, whatever
    -- was open.
    obtain ⟨traces, htraced, hholds⟩ :=
      hends.holds.tell hready.trace_eq hends.speaks rfl Thread.tells_close
    simp only [htraced]
    exact .returned hends.faithful hdepth hholds
  | error stop s =>
    cases htrap : Instance.trapOf stop s.machine.place? with
    | error c =>
      simp only [htrap]
      exact .crashed c
    | ok e =>
      have hfuel : stop ≠ .crash .outOfFuel := by
        rintro rfl
        cases htrap
      obtain ⟨notes, hends⟩ := hready.stopped hresult hfuel
      have htells : Thread.Tells (fun t out => t.trapped e.trap e.ip out) _ _ :=
        Thread.tells_trapped e.trap e.ip
      obtain ⟨traces, htraced, hholds⟩ :=
        hends.holds.tell hready.trace_eq hends.speaks rfl htells
      obtain ⟨traces', htraced', hholds'⟩ :=
        Holds.tell (s := ⟨{ s.store with traces }, { s.thread with depth := 0 }, s.machine⟩) hholds
          hready.trace_eq hends.speaks rfl Thread.tells_close
      simp only [htrap, htraced, htraced']
      refine .trapped hends.faithful ?_
      rw [List.append_assoc] at hholds'
      unfold Store.count
      split <;> exact hholds'

end Recording

end IntWasm
