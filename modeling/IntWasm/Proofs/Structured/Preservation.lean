import IntWasm.Proofs.Structured.Widths

/-!
# Operands keep to the chart

An activation is typed if it is at an index where its body is charted and all its operands and
locals admit the types that the chart and the scope give them. It then stays typed: each instruction
keeps the activation typed, gives the results that its signature declares, or calls a function with
arguments of the right types. Main statement: `Typed.step`.
-/

namespace IntWasm.Structured

open Body

variable {H σ : Type}

/-- Words can stand for integers of given types. -/
abbrev Integers (types : List IntType) (words : List UInt64) : Prop :=
  Admitted (types.map IntType.valueType) words

section

variable {front back : List IntType} {words others : List UInt64}

/-- Words of two lists of types, one after the other. -/
theorem Integers.append (hwords : Integers front words) (hothers : Integers back others) :
    Integers (front ++ back) (words ++ others) := by
  rw [Integers, List.map_append]
  exact List.rel_append hwords hothers

/-- The words of the front types are in front. -/
theorem Integers.take (hwords : Integers (front ++ back) words) :
    Integers front (words.take front.length) := by
  have htake := List.forall₂_take (front.map IntType.valueType).length hwords
  rwa [List.map_append, List.take_left, List.length_map] at htake

/-- The words of the other types follow. -/
theorem Integers.drop (hwords : Integers (front ++ back) words) :
    Integers back (words.drop front.length) := by
  have hdrop := List.forall₂_drop (front.map IntType.valueType).length hwords
  rwa [List.map_append, List.drop_left, List.length_map] at hdrop

/-- Turned around, words stand for the types turned around. -/
theorem Integers.reverse (hwords : Integers front words) :
    Integers front.reverse words.reverse := by
  rw [Integers, List.map_reverse]
  exact List.rel_reverse hwords

/-- There is one word for each type. -/
theorem Integers.length_eq (hwords : Integers front words) : words.length = front.length := by
  rw [← List.Forall₂.length_eq hwords, List.length_map]

end

/-! ## Open blocks -/

/-- The labels of an activation are those of the blocks around code that sees the context. The
innermost block was entered with operands of the types `below`, ends at the index `stop` and leaves
the types `results`. Wherever a branch to a block leads, and wherever a block ends, code is
charted. -/
inductive Enclosed (types : Nat → Option (List ValueType)) (body : Body) :
    Context → (below : List IntType) → (stop : Nat) → (results : List IntType) → List Label → Prop
  | function {c stop l} (hlabels : c.labels = [c.result])
      (hclose : body.instructions[stop]? = some Token.close.flat) :
    Enclosed types body c [] stop c.result.toList [l]
  | block {c label below stop results labels l mine target after last next results' i}
      (houter : Enclosed types body c below stop results labels)
      (hheight : l.height = (mine ++ below).length) (harity : l.arity = label.toList.length)
      (htarget : Code.Charted types body c below stop results l.target
        (label.toList ++ mine) target)
      (hlast : body.instructions[last]? = some i) (hleaves : Leaves i last next)
      (hafter : Code.Charted types body c below stop results next (results' ++ mine) after) :
    Enclosed types body (c.inside label) (mine ++ below) last results' (l :: labels)

section

variable {types : Nat → Option (List ValueType)} {body : Body} {c : Context}
  {below results : List IntType} {stop : Nat} {labels : List Label}

/-- A running function has at least its own label. -/
theorem Enclosed.labels_ne_nil (henclosed : Enclosed types body c below stop results labels) :
    labels ≠ [] := by
  cases henclosed <;> simp

/-- A branch leads out of the function or to an open block, around which everything is as it was. -/
theorem Enclosed.branch (henclosed : Enclosed types body c below stop results labels) {n : Nat}
    {type : BlockType} (hlabel : c.labels[n]? = some type) :
    (n + 1 = labels.length ∧ type = c.result) ∨
    ∃ l c' front mine' below' stop' results' target, n + 1 ≠ labels.length ∧ labels[n]? = some l ∧
      below = front ++ (mine' ++ below') ∧ l.height = (mine' ++ below').length ∧
      l.arity = type.toList.length ∧ c'.scope = c.scope ∧ c'.result = c.result ∧
      Enclosed types body c' below' stop' results' (labels.drop (n + 1)) ∧
      Code.Charted types body c' below' stop' results' l.target (type.toList ++ mine') target := by
  induction henclosed generalizing n with
  | @function c stop l hlabels =>
    rw [hlabels] at hlabel
    cases n with
    | zero => exact .inl ⟨rfl, by simpa [eq_comm] using hlabel⟩
    | succ n => simp at hlabel
  | @block c label below stop results labels l mine target after last next results' i houter hheight
      harity htarget _ _ _ ih =>
    cases n with
    | zero =>
      obtain rfl : label = type := by simpa [Context.inside] using hlabel
      have hlength : 0 + 1 ≠ (l :: labels).length := by
        have hpos := List.length_pos_iff.mpr houter.labels_ne_nil
        rw [List.length_cons]
        omega
      exact .inr ⟨l, c, [], mine, below, stop, results, target, hlength, rfl, rfl, hheight, harity,
        rfl, rfl, houter, htarget⟩
    | succ n =>
      rcases ih (n := n) (by simpa [Context.inside] using hlabel) with ⟨hlength, hresult⟩ | hblock
      · exact .inl ⟨by rw [List.length_cons, hlength], hresult⟩
      · obtain ⟨l', c', front, mine', below', stop', results'', target', hlength, hl,
            hbelow, hrest⟩ :=
          hblock
        refine .inr ⟨l', c', mine ++ front, mine', below', stop', results'', target', ?_,
          hl, ?_, hrest⟩
        · rwa [List.length_cons, ne_eq, Nat.add_right_cancel_iff]
        · rw [hbelow, List.append_assoc]

end

/-! ## Activations -/

/-- An activation is at a place where its body is charted, in a block that was entered with operands
of the types `below`. It has operands of the types `mine` on top of these, and goes on with operands
of the types `pending` on top of them all. -/
structure Sits (types : Nat → Option (List ValueType)) (scope : Scope) (pending : List IntType)
    (f : Activation) (c : Context) (below : List IntType) (stop : Nat) (given mine : List IntType)
    (code : Code) : Prop where
  scope_eq : c.scope = scope
  results_eq : f.function.type.results = results c.result
  enclosed : Enclosed types f.function.body c below stop given f.labels
  charted : code.Charted types f.function.body c below stop given f.ip (pending ++ mine)
  operands : Integers (mine ++ below) f.operands
  locals : ∀ {i t}, scope.localType i = some t → ∃ w, f.locals[i.toNat]? = some w ∧ t.Admits w

/-- An activation has operands and locals of the right types and goes on with operands of the types
`pending`. -/
def Typed (types : Nat → Option (List ValueType)) (scope : Scope) (pending : List IntType)
    (f : Activation) : Prop :=
  ∃ c below stop given mine code, Sits types scope pending f c below stop given mine code

/-- What an instruction of a typed activation may come to. -/
inductive Yields (types : Nat → Option (List ValueType)) (scope : Scope) (inst : Instance H)
    (f : Activation) : Next → Prop
  | go {f'} (hfunction : f'.function = f.function) (htyped : Typed types scope [] f') :
    Yields types scope inst f (.go f')
  | leave {words} (hwords : Admitted f.function.type.results words) :
    Yields types scope inst f (.leave words)
  | call {f' function params given args rest} (hfunction : f'.function = f.function)
      (hsignature : inst.signature? function = some (.ofInts params given))
      (hoperands : f'.operands = args.reverse ++ rest) (hargs : Integers params args)
      (htyped : Typed types scope given.reverse { f' with operands := rest }) :
    Yields types scope inst f (.call f' function)

section

variable {types : Nat → Option (List ValueType)} {scope : Scope} {inst : Instance H}
  {f : Activation} {c : Context} {below given mine : List IntType} {stop : Nat} {code : Code}


/-! ## Leaving the function and branching -/

/-- The results of the function are on top of the operands. -/
theorem Sits.yields_leave {pending rest : List IntType} {f' : Activation} {words : List UInt64}
    (hsits : Sits types scope pending f c below stop given mine code)
    (hfunction : f'.function = f.function)
    (hoperands : Integers (c.result.toList ++ rest) f'.operands) (hok : f'.results = .ok words) :
    Yields types scope inst f (.leave words) := by
  have hlength : f.function.type.results.length = c.result.toList.length := by
    rw [hsits.results_eq, results, List.length_map]
  rw [Activation.results_eq_ok hok, hfunction, hlength]
  refine .leave ?_
  rw [hsits.results_eq]
  exact hoperands.take

/-- A branch that carries operands of the right types. -/
theorem Sits.yields_branch {n : Nat} {type : BlockType} {rest : List IntType} {f' : Activation}
    {next : Next} (hsits : Sits types scope [] f c below stop given mine code)
    (hlabel : c.labels[n]? = some type) (hok : f'.branch (n : Nat) = .ok next)
    (hoperands : Integers (type.toList ++ (rest ++ below)) f'.operands)
    (hfunction : f'.function = f.function) (hlabels : f'.labels = f.labels)
    (hlocals : f'.locals = f.locals) : Yields types scope inst f next := by
  have hnonneg : ¬ (n : Int) < 0 := by omega
  simp only [Activation.branch, hnonneg, if_false, Int.toNat_natCast, hlabels] at hok
  -- To the outermost label the function is left. To any other one the operands of the block that is
  -- left are cut out between those that are carried and those at its entry.
  rcases hsits.enclosed.branch hlabel with ⟨hlength, rfl⟩ | hblock
  · simp only [hlength, if_true, except_bind_eq_ok, except_pure_eq_ok] at hok
    obtain ⟨words, hwords, rfl⟩ := hok
    exact hsits.yields_leave hfunction hoperands hwords
  · obtain ⟨l, c', front, mine', below', stop', results', target, hlength, hl, rfl, hheight, harity,
      hscope, hresult, henclosed, htarget⟩ := hblock
    simp only [hlength, if_false, hl] at hok
    split at hok
    · cases hok
    · obtain rfl := Except.ok.inj hok
      have htaken := hoperands.take
      have hkept : Integers (mine' ++ below')
          (f'.operands.drop (f'.operands.length - l.height)) := by
        have hsplit : Integers ((type.toList ++ (rest ++ front)) ++ (mine' ++ below'))
            f'.operands := by
          simpa only [List.append_assoc] using hoperands
        have hcount : f'.operands.length - l.height = (type.toList ++ (rest ++ front)).length := by
          rw [hsplit.length_eq, hheight, List.length_append, Nat.add_sub_cancel]
        rw [hcount]
        exact hsplit.drop
      refine .go hfunction ⟨c', below', stop', results', type.toList ++ mine', target, ?_⟩
      refine
        { scope_eq := hscope.trans hsits.scope_eq
          results_eq := by rw [hresult]; simp only [hfunction, hsits.results_eq]
          enclosed := by simpa only [hfunction] using henclosed
          charted := by simpa only [hfunction, List.nil_append] using htarget
          operands := ?_
          locals := fun hlocal => by
            simp only [hlocals]
            exact hsits.locals hlocal }
      rw [List.append_assoc, harity]
      exact htaken.append hkept

/-! ## One instruction after the other -/

/-- A typed activation at an instruction after which its code goes on. -/
structure Faces (types : Nat → Option (List ValueType)) (scope : Scope) (f : Activation)
    (c : Context) (below : List IntType) (stop : Nat) (given : List IntType) (i : Instr)
    (next : Code) (ins outs rest : List IntType) : Prop where
  sits : Sits types scope [] f c below stop given (ins ++ rest) (.instr i next)
  type : i.HasType c ins outs
  next : next.Charted types f.function.body c below stop given (f.ip + 1) (outs ++ rest)

variable {i : Instr} {code : Code} {ins outs rest : List IntType} {next : Next}

/-- The operands are what the instruction takes, what is left of the block and what lies below. -/
theorem Faces.operands (hfaces : Faces types scope f c below stop given i code ins outs rest) :
    Integers (ins ++ (rest ++ below)) f.operands := by
  rw [← List.append_assoc]
  exact hfaces.sits.operands

/-- The code goes on with other operands in place of those that the instruction takes. -/
theorem Faces.yields_go {words operands : List UInt64} {f' : Activation}
    (hfaces : Faces types scope f c below stop given i code ins outs rest)
    (hwords : Integers outs words) (hoperands : Integers (rest ++ below) operands)
    (heq : f' = { f with ip := f.ip + 1, operands := words ++ operands }) :
    Yields types scope inst f (.go f') := by
  subst heq
  refine .go rfl ⟨c, below, stop, given, outs ++ rest, code, ?_⟩
  refine
    { hfaces.sits with
      charted := hfaces.next
      operands := ?_ }
  rw [List.append_assoc]
  exact hwords.append hoperands

/-- The code goes on with one more operand. -/
theorem Faces.yields_push {type : IntType} {v : UInt64} {operands : List UInt64} {f' : Activation}
    (hfaces : Faces types scope f c below stop given i code ins [type] rest)
    (hv : type.valueType.Admits v) (hoperands : Integers (rest ++ below) operands)
    (heq : f' = { f with ip := f.ip + 1, operands := v :: operands }) :
    Yields types scope inst f (.go f') := by
  have hword : Integers [type] [v] := .cons hv .nil
  exact hfaces.yields_go hword hoperands heq

/-- An instruction that puts a word of its type on the stack keeps the activation typed. -/
theorem Faces.yields_constant {type : IntType} {v : UInt64}
    (hfaces : Faces types scope f c below stop given i code [] [type] rest)
    (hv : type.valueType.Admits v) (hok : { f with ip := f.ip + 1 }.constant v = .ok next) :
    Yields types scope inst f next := by
  rw [Activation.constant_eq_ok hok]
  exact hfaces.yields_push hv hfaces.operands rfl

/-- So does one that replaces an operand. -/
theorem Faces.yields_unary {type type' : IntType} {op : UInt64 → UInt64}
    (hfaces : Faces types scope f c below stop given i code [type] [type'] rest)
    (hop : ∀ a, type'.valueType.Admits (op a))
    (hok : { f with ip := f.ip + 1 }.unary op = .ok next) : Yields types scope inst f next := by
  obtain ⟨a, operands, hoperands, rfl⟩ := Activation.unary_eq_ok hok
  have hall := hfaces.operands
  rw [hoperands] at hall
  exact hfaces.yields_push (hop a) (List.forall₂_cons.mp hall).2 rfl

/-- So does one that replaces two operands, if it does not trap. -/
theorem Faces.yields_binary {type type' : IntType} {op : UInt64 → UInt64 → Except Trap UInt64}
    (hfaces : Faces types scope f c below stop given i code [type, type] [type'] rest)
    (hop : ∀ {a b v}, op a b = .ok v → type'.valueType.Admits v)
    (hok : { f with ip := f.ip + 1 }.binary op = .ok next) : Yields types scope inst f next := by
  obtain ⟨a, b, operands, v, hoperands, hv, rfl⟩ := Activation.binary_eq_ok hok
  have hall := hfaces.operands
  rw [hoperands] at hall
  exact hfaces.yields_push (hop hv) (List.forall₂_cons.mp (List.forall₂_cons.mp hall).2).2 rfl

/-- The topmost operand is of the first type, and the others are of the types that follow. -/
theorem Integers.pop {type : IntType} {types : List IntType} {f f' : Activation} {v : UInt64}
    (hall : Integers (type :: types) f.operands) {ip : Nat}
    (hok : { f with ip }.pop = .ok (v, f')) :
    ∃ operands, f' = { f with ip, operands } ∧ type.valueType.Admits v ∧
      Integers types operands := by
  obtain ⟨operands, hoperands, rfl⟩ := Activation.pop_eq_ok hok
  simp only at hoperands
  rw [hoperands] at hall
  exact ⟨operands, rfl, List.forall₂_cons.mp hall⟩

/-- The topmost operand of an instruction that takes one. -/
theorem Faces.pop {type : IntType} {v : UInt64} {f' : Activation}
    (hfaces : Faces types scope f c below stop given i code (type :: ins) outs rest)
    (hok : { f with ip := f.ip + 1 }.pop = .ok (v, f')) :
    ∃ operands, f' = { f with ip := f.ip + 1, operands } ∧ type.valueType.Admits v ∧
      Integers (ins ++ (rest ++ below)) operands :=
  Integers.pop hfaces.operands hok

/-- An instruction that concerns operands only. -/
theorem Faces.yields_numeric (hfaces : Faces types scope f c below stop given i code ins outs rest)
    (hnumeric : i.isNumeric = true)
    (hok : { f with ip := f.ip + 1 }.stepLocal i.op i.flat = .ok next) :
    Yields types scope inst f next := by
  -- What is pushed is of the type that the rule gives; what is popped is of the type that the chart
  -- gives, by the hypothesis.
  have htype := hfaces.type
  cases htype with
  | nop =>
    obtain rfl := Except.ok.inj hok
    exact hfaces.yields_go .nil hfaces.operands rfl
  | drop =>
    simp only [Instr.op, Activation.stepLocal_drop, except_bind_eq_ok, except_pure_eq_ok,
      Prod.exists] at hok
    obtain ⟨v, f', hpop, rfl⟩ := hok
    obtain ⟨operands, rfl, -, hoperands⟩ := hfaces.pop hpop
    exact hfaces.yields_go .nil hoperands rfl
  | select =>
    simp only [Instr.op, Activation.stepLocal_select, except_bind_eq_ok, Prod.exists] at hok
    obtain ⟨condition, f', hpop, hbinary⟩ := hok
    obtain ⟨operands, rfl, -, hoperands⟩ := hfaces.pop hpop
    obtain ⟨a, b, operands, v, rfl, hv, rfl⟩ := Activation.binary_eq_ok hbinary
    obtain ⟨hb, hoperands⟩ := List.forall₂_cons.mp hoperands
    obtain ⟨ha, hoperands⟩ := List.forall₂_cons.mp hoperands
    refine hfaces.yields_push ?_ hoperands rfl
    obtain rfl := Except.ok.inj hv
    split
    · exact ha
    · exact hb
  | const32 =>
    rw [Instr.op, Activation.stepLocal_const32] at hok
    exact hfaces.yields_constant (ValueType.admits_toUInt64 _ _) hok
  | const64 =>
    rw [Instr.op, Activation.stepLocal_const64] at hok
    exact hfaces.yields_constant (ValueType.admits_i64 _) hok
  | eqz =>
    rw [Instr.op, Activation.stepLocal_eqz] at hok
    exact hfaces.yields_unary (fun a => ValueType.admits_boolWord _ _) hok
  | compare =>
    rw [Instr.op, Activation.stepLocal_compare] at hok
    refine hfaces.yields_binary ?_ hok
    intro a b v hv
    obtain rfl := Except.ok.inj hv
    exact ValueType.admits_boolWord _ _
  | count =>
    rw [Instr.op, Activation.stepLocal_count] at hok
    exact hfaces.yields_unary (fun a => IntType.admits_toWord _ _) hok
  | arith =>
    rw [Instr.op, Activation.stepLocal_arith] at hok
    exact hfaces.yields_binary Numeric.admits_arithWord hok
  | wrap =>
    rw [Instr.op, Activation.stepLocal_wrap] at hok
    exact hfaces.yields_unary (fun a => IntType.admits_toWord .i32 _) hok
  | extend =>
    rw [Instr.op, Activation.stepLocal_extend] at hok
    exact hfaces.yields_unary (fun a => ValueType.admits_i64 _) hok
  | extendPart =>
    rw [Instr.op, Activation.stepLocal_extendPart] at hok
    exact hfaces.yields_unary (fun a => IntType.admits_toWord _ _) hok
  | extendWord =>
    rw [Instr.op, Activation.stepLocal_extendWord] at hok
    exact hfaces.yields_unary (fun a => ValueType.admits_i64 _) hok
  | _ => cases hnumeric

/-! ## Locals -/

/-- `local.get` gives a word of the local's type. -/
theorem Faces.yields_localGet {n : UInt32}
    (hfaces : Faces types scope f c below stop given (.localGet n) code ins outs rest)
    (hok : { f with ip := f.ip + 1 }.stepLocal .localGet (Instr.localGet n).flat = .ok next) :
    Yields types scope inst f next := by
  cases hfaces.type with
  | localGet hlocal =>
    simp only [Activation.stepLocal_localGet, Instr.index_flat (i := .localGet n) (n := n) rfl,
      except_bind_eq_ok] at hok
    obtain ⟨v, hget, hconstant⟩ := hok
    rw [hfaces.sits.scope_eq] at hlocal
    obtain ⟨w, hat, hw⟩ := hfaces.sits.locals hlocal
    obtain rfl := Option.some.inj ((Activation.getLocal_eq_ok hget).symm.trans hat)
    exact hfaces.yields_constant hw hconstant

/-- A local takes a word that its type admits. -/
theorem Sits.locals_set {n i : UInt32} {type t : ValueType} {v : UInt64} {pending : List IntType}
    (hsits : Sits types scope pending f c below stop given mine code)
    (htype : scope.localType n = some type) (hv : type.Admits v)
    (hlocal : scope.localType i = some t) :
    ∃ w, (f.locals.setIfInBounds n.toNat v)[i.toNat]? = some w ∧ t.Admits w := by
  obtain ⟨w, hat, hw⟩ := hsits.locals hlocal
  rw [Array.getElem?_setIfInBounds]
  by_cases heq : n.toNat = i.toNat
  · obtain rfl := UInt32.toNat_inj.mp heq
    obtain rfl := Option.some.inj (htype.symm.trans hlocal)
    have hlt := (Array.getElem?_eq_some_iff.mp hat).1
    exact ⟨v, by rw [if_pos rfl, if_pos hlt], hv⟩
  · exact ⟨w, by rw [if_neg heq, hat], hw⟩

/-- The code goes on with another word in a local. -/
theorem Faces.yields_set {n : UInt32} {type : ValueType} {v : UInt64} {words operands : List UInt64}
    {f' : Activation} (hfaces : Faces types scope f c below stop given i code ins outs rest)
    (htype : c.scope.localType n = some type) (hv : type.Admits v) (hwords : Integers outs words)
    (hoperands : Integers (rest ++ below) operands)
    (hok : Activation.setLocal { f with ip := f.ip + 1, operands := words ++ operands }
      n v = .ok f') :
    Yields types scope inst f (.go f') := by
  obtain rfl := Activation.setLocal_eq_ok hok
  rw [hfaces.sits.scope_eq] at htype
  refine .go rfl ⟨c, below, stop, given, outs ++ rest, code, ?_⟩
  refine
    { hfaces.sits with
      charted := hfaces.next
      operands := ?_
      locals := hfaces.sits.locals_set htype hv }
  rw [List.append_assoc]
  exact hwords.append hoperands

/-- `local.set` keeps the locals typed. -/
theorem Faces.yields_localSet {n : UInt32}
    (hfaces : Faces types scope f c below stop given (.localSet n) code ins outs rest)
    (hok : { f with ip := f.ip + 1 }.stepLocal .localSet (Instr.localSet n).flat = .ok next) :
    Yields types scope inst f next := by
  cases hfaces.type with
  | localSet hlocal =>
    simp only [Activation.stepLocal_localSet, Instr.index_flat (i := .localSet n) (n := n) rfl,
      except_bind_eq_ok, except_pure_eq_ok, Prod.exists] at hok
    obtain ⟨v, f', hpop, f'', hset, rfl⟩ := hok
    obtain ⟨operands, rfl, hv, hoperands⟩ := hfaces.pop hpop
    have hnone : Integers [] [] := .nil
    exact hfaces.yields_set hlocal hv hnone hoperands hset

/-- `local.tee` keeps the locals typed and the operand on the stack. -/
theorem Faces.yields_localTee {n : UInt32}
    (hfaces : Faces types scope f c below stop given (.localTee n) code ins outs rest)
    (hok : { f with ip := f.ip + 1 }.stepLocal .localTee (Instr.localTee n).flat = .ok next) :
    Yields types scope inst f next := by
  cases hfaces.type with
  | localTee hlocal =>
    simp only [Activation.stepLocal_localTee, Instr.index_flat (i := .localTee n) (n := n) rfl,
      except_bind_eq_ok, except_pure_eq_ok, Prod.exists] at hok
    obtain ⟨v, f', hpop, f'', hset, rfl⟩ := hok
    obtain ⟨operands, hoperands, -⟩ := Activation.pop_eq_ok hpop
    have hall := hfaces.operands
    simp only at hoperands
    rw [hoperands] at hall
    obtain ⟨hv, hrest⟩ := List.forall₂_cons.mp hall
    have hword : Integers [_] [v] := .cons hv .nil
    refine hfaces.yields_set hlocal hv hword hrest ?_
    rwa [show [v] ++ operands = f.operands from hoperands.symm]

/-! ## Branches -/

/-- `br_if` branches or goes on, both at charted places. -/
theorem Faces.yields_brIf {n : UInt32}
    (hfaces : Faces types scope f c below stop given (.brIf n) code ins outs rest)
    (hok : { f with ip := f.ip + 1 }.stepLocal .brIf (Instr.brIf n).flat = .ok next) :
    Yields types scope inst f next := by
  cases hfaces.type with
  | brIf hlabel =>
    simp only [Activation.stepLocal_brIf, Instr.index_flat (i := .brIf n) (n := n) rfl,
      except_bind_eq_ok, Prod.exists] at hok
    obtain ⟨condition, f', hpop, hok⟩ := hok
    obtain ⟨operands, rfl, -, hoperands⟩ := hfaces.pop hpop
    split at hok
    · exact hfaces.sits.yields_branch hlabel hok hoperands rfl rfl rfl
    · obtain rfl := Except.ok.inj hok
      refine hfaces.yields_go hoperands.take hoperands.drop ?_
      rw [List.take_append_drop]

/-- The instructions after which code does not go on. -/
theorem Sits.yields_jump
    (hsits : Sits types scope [] f c below stop given (ins ++ rest) (.instr i code))
    (hjumps : i.Jumps c ins) (hok : { f with ip := f.ip + 1 }.stepLocal i.op i.flat = .ok next) :
    Yields types scope inst f next := by
  have hall : Integers (ins ++ (rest ++ below)) f.operands := by
    rw [← List.append_assoc]
    exact hsits.operands
  cases hjumps with
  | unreachable => cases hok
  | @br n type hlabel =>
    rw [Instr.op, Activation.stepLocal_br, Instr.index_flat (i := .br n) (n := n) rfl] at hok
    exact hsits.yields_branch hlabel hok hall rfl rfl rfl
  | @brTable labels n type hdefault hlabels =>
    simp only [Instr.op, Activation.stepLocal_brTable,
      Instr.index_flat (i := .brTable labels n) (n := n) rfl, except_bind_eq_ok, Prod.exists] at hok
    obtain ⟨index, f', hpop, hok⟩ := hok
    obtain ⟨operands, rfl, -, hcarried⟩ := Integers.pop hall hpop
    split at hok
    · rename_i label hat
      obtain ⟨m, hm, rfl⟩ : ∃ m ∈ labels, (m.toNat : Int) = label := by
        have hmem := List.mem_of_getElem? hat
        simpa [Instr.flat, Instr.labels] using hmem
      exact hsits.yields_branch (hlabels m hm) hok hcarried rfl rfl rfl
    · exact hsits.yields_branch hdefault hok hcarried rfl rfl rfl
  | ret =>
    simp only [Instr.op, Activation.stepLocal_ret, except_bind_eq_ok, except_pure_eq_ok] at hok
    obtain ⟨words, hwords, rfl⟩ := hok
    exact hsits.yields_leave rfl hall hwords

/-! ## Globals and memories -/

/-- The globals that code sees hold words that their types admit. -/
def SoundGlobals (scope : Scope) (inst : Instance H) (store : Store H σ) : Prop :=
  ∀ {i type address g}, scope.globalType i = some type → inst.globals[i.toNat]? = some address →
    store.globals[address]? = some g → type.type.Admits g.bits

variable {store store' : Store H σ}

/-- `global.get` gives a word of the global's type, as the globals are sound. -/
theorem Faces.yields_globalGet {n : UInt32}
    (hfaces : Faces types scope f c below stop given (.globalGet n) code ins outs rest)
    (hglobals : SoundGlobals scope inst store)
    (hok : Activation.step inst { f with ip := f.ip + 1 } (Instr.globalGet n).flat store =
      .ok next store') : Yields types scope inst f next := by
  cases hfaces.type with
  | globalGet hglobal =>
    rw [Activation.step_of_op (Instr.op?_flat _)] at hok
    simp only [Instr.op, Instr.index_flat (i := .globalGet n) (n := n) rfl,
      estate_bind_eq_ok] at hok
    obtain ⟨v, t, hget, hconstant⟩ := hok
    obtain ⟨address, g, haddress, hg, rfl⟩ := Exec.getGlobal_eq_ok hget
    rw [hfaces.sits.scope_eq] at hglobal
    exact hfaces.yields_constant (hglobals hglobal haddress hg) (Exec.lift_eq_ok hconstant)

/-- `global.set` takes a word away. -/
theorem Faces.yields_globalSet {n : UInt32}
    (hfaces : Faces types scope f c below stop given (.globalSet n) code ins outs rest)
    (hok : Activation.step inst { f with ip := f.ip + 1 } (Instr.globalSet n).flat store =
      .ok next store') : Yields types scope inst f next := by
  cases hfaces.type with
  | globalSet =>
    rw [Activation.step_of_op (Instr.op?_flat _)] at hok
    simp only [Instr.op, estate_bind_eq_ok, estate_pure_eq_ok, Prod.exists] at hok
    obtain ⟨v, f', t, hpop, _, _, -, rfl, -⟩ := hok
    obtain ⟨operands, rfl, -, hoperands⟩ := hfaces.pop (Exec.lift_eq_ok hpop)
    exact hfaces.yields_go .nil hoperands rfl

/-- A load replaces the address by a word of its type. -/
theorem Faces.yields_load {access : LoadForm} {align offset : UInt32}
    (hfaces : Faces types scope f c below stop given (.load access align offset) code ins outs rest)
    (hok : Activation.step inst { f with ip := f.ip + 1 } (Instr.load access align offset).flat
      store = .ok next store') :
    Yields types scope inst f next := by
  cases hfaces.type with
  | load =>
    rw [Activation.step_of_op (Instr.op?_flat _)] at hok
    simp only [Instr.op, estate_bind_eq_ok, Prod.exists] at hok
    obtain ⟨base, f', t, hpop, w, t', hload, hconstant⟩ := hok
    obtain ⟨operands, rfl, -, hoperands⟩ := hfaces.pop (Exec.lift_eq_ok hpop)
    obtain ⟨bytes, start, rfl⟩ := Exec.load_eq_ok hload
    rw [Activation.constant_eq_ok (Exec.lift_eq_ok hconstant)]
    exact hfaces.yields_push (access.admits_extend bytes start) hoperands rfl

/-- A store takes two words away. -/
theorem Faces.yields_store {access : StoreForm} {align offset : UInt32}
    (hfaces : Faces types scope f c below stop given (.store access align offset) code
      ins outs rest)
    (hok : Activation.step inst { f with ip := f.ip + 1 } (Instr.store access align offset).flat
      store = .ok next store') :
    Yields types scope inst f next := by
  cases hfaces.type with
  | store =>
    rw [Activation.step_of_op (Instr.op?_flat _)] at hok
    simp only [Instr.op, estate_bind_eq_ok, estate_pure_eq_ok, Prod.exists] at hok
    obtain ⟨base, w, f', t, hpop, _, _, -, rfl, -⟩ := hok
    obtain ⟨operands, hoperands, rfl⟩ := Activation.pop2_eq_ok (Exec.lift_eq_ok hpop)
    have hall := hfaces.operands
    simp only at hoperands
    rw [hoperands] at hall
    exact hfaces.yields_go .nil (List.forall₂_cons.mp (List.forall₂_cons.mp hall).2).2 rfl

/-- `memory.size` gives a word of 32 bits. -/
theorem Faces.yields_memorySize
    (hfaces : Faces types scope f c below stop given .memorySize code ins outs rest)
    (hok : Activation.step inst { f with ip := f.ip + 1 } Instr.memorySize.flat store =
      .ok next store') : Yields types scope inst f next := by
  cases hfaces.type with
  | memorySize =>
    rw [Activation.step_of_op (Instr.op?_flat _)] at hok
    simp only [Instr.op, estate_bind_eq_ok] at hok
    obtain ⟨v, t, hsize, hconstant⟩ := hok
    obtain ⟨pages, rfl⟩ := Exec.memorySize_eq_ok hsize
    exact hfaces.yields_constant (ValueType.admits_toUInt64 _ pages) (Exec.lift_eq_ok hconstant)

/-- `memory.grow` gives a word of 32 bits. -/
theorem Faces.yields_memoryGrow
    (hfaces : Faces types scope f c below stop given .memoryGrow code ins outs rest)
    (hok : Activation.step inst { f with ip := f.ip + 1 } Instr.memoryGrow.flat store =
      .ok next store') : Yields types scope inst f next := by
  cases hfaces.type with
  | memoryGrow =>
    rw [Activation.step_of_op (Instr.op?_flat _)] at hok
    simp only [Instr.op, estate_bind_eq_ok, Prod.exists] at hok
    obtain ⟨pages, f', t, hpop, v, t', hgrow, hconstant⟩ := hok
    obtain ⟨operands, rfl, -, hoperands⟩ := hfaces.pop (Exec.lift_eq_ok hpop)
    obtain ⟨answer, rfl⟩ := Exec.memoryGrow_eq_ok hgrow
    rw [Activation.constant_eq_ok (Exec.lift_eq_ok hconstant)]
    exact hfaces.yields_push (ValueType.admits_toUInt64 _ answer) hoperands rfl

/-! ## Calls -/

/-- A function is called with the topmost operands, and the caller goes on with its results. -/
theorem Faces.yields_call {params results : List IntType} {function : UInt32}
    {operands : List UInt64}
    (hfaces : Faces types scope f c below stop given i code ins results.reverse rest)
    (hsignature : inst.signature? function = some (.ofInts params results))
    (hoperands : Integers (params.reverse ++ (rest ++ below)) operands) :
    Yields types scope inst f (.call { f with ip := f.ip + 1, operands } function) := by
  have hargs := hoperands.take.reverse
  rw [List.reverse_reverse] at hargs
  have hsplit : operands = (operands.take params.reverse.length).reverse.reverse ++
      operands.drop params.reverse.length := by
    rw [List.reverse_reverse, List.take_append_drop]
  refine .call rfl hsignature hsplit hargs ⟨c, below, stop, given, rest, code, ?_⟩
  exact
    { hfaces.sits with
      charted := hfaces.next
      operands := hoperands.drop }

/-- `call` calls with arguments of the types that the function declares. -/
theorem Faces.yields_callDirect {function : UInt32} (hlinks : Links scope inst f.function)
    (hfaces : Faces types scope f c below stop given (.call function) code ins outs rest)
    (hok : Activation.step inst { f with ip := f.ip + 1 } (Instr.call function).flat store =
      .ok next store') : Yields types scope inst f next := by
  cases hfaces.type with
  | call hfunction =>
    rw [Activation.step_of_op (Instr.op?_flat _)] at hok
    simp only [Instr.op, Instr.index_flat (i := .call function) (n := function) rfl,
      estate_pure_eq_ok] at hok
    obtain ⟨rfl, -⟩ := hok
    rw [hfaces.sits.scope_eq] at hfunction
    exact hfaces.yields_call (hlinks.functionType hfunction) hfaces.operands

/-- `call_indirect` calls a function of the type that it names, as the table's entry has been
compared with it. -/
theorem Faces.yields_callIndirect {type : UInt32} (hlinks : Links scope inst f.function)
    (hfaces : Faces types scope f c below stop given (.callIndirect type) code ins outs rest)
    (hok : Activation.step inst { f with ip := f.ip + 1 } (Instr.callIndirect type).flat store =
      .ok next store') : Yields types scope inst f next := by
  cases hfaces.type with
  | callIndirect _ htype =>
    rw [Activation.step_of_op (Instr.op?_flat _)] at hok
    simp only [Instr.op, Instr.index_flat (i := .callIndirect type) (n := type) rfl,
      estate_bind_eq_ok, estate_pure_eq_ok, Prod.exists] at hok
    obtain ⟨slot, f', t, hpop, function, t', hindirect, rfl, -⟩ := hok
    obtain ⟨operands, rfl, -, hoperands⟩ := hfaces.pop (Exec.lift_eq_ok hpop)
    obtain ⟨expected, hexpected, hsignature⟩ := Exec.indirect_eq_ok hindirect
    rw [hfaces.sits.scope_eq] at htype
    obtain rfl := Option.some.inj ((hlinks.type htype).symm.trans hexpected)
    exact hfaces.yields_call hsignature hoperands

/-- An instruction after which the code goes on. -/
theorem Faces.yields (hfaces : Faces types scope f c below stop given i code ins outs rest)
    (hlinks : Links scope inst f.function) (hglobals : SoundGlobals scope inst store)
    (hgoes : i.goesOn = true)
    (hok : Activation.step inst { f with ip := f.ip + 1 } i.flat store = .ok next store') :
    Yields types scope inst f next := by
  by_cases hlocal : i.isLocal = true
  · rw [step_local hlocal] at hok
    have hok' := Exec.lift_eq_ok hok
    by_cases hnumeric : i.isNumeric = true
    · exact hfaces.yields_numeric hnumeric hok'
    · cases i with
      | brIf => exact hfaces.yields_brIf hok'
      | localGet => exact hfaces.yields_localGet hok'
      | localSet => exact hfaces.yields_localSet hok'
      | localTee => exact hfaces.yields_localTee hok'
      | unreachable | br | brTable | ret => cases hgoes
      | call | callIndirect | globalGet | globalSet | load | store | memorySize | memoryGrow =>
        cases hlocal
      | _ => exact absurd rfl hnumeric
  · cases i with
    | call => exact hfaces.yields_callDirect hlinks hok
    | callIndirect => exact hfaces.yields_callIndirect hlinks hok
    | globalGet => exact hfaces.yields_globalGet hglobals hok
    | globalSet => exact hfaces.yields_globalSet hok
    | load => exact hfaces.yields_load hok
    | store => exact hfaces.yields_store hok
    | memorySize => exact hfaces.yields_memorySize hok
    | memoryGrow => exact hfaces.yields_memoryGrow hok
    | _ => exact absurd rfl hlocal

/-! ## Blocks -/

/-- The code of a block begins with no operands of its own. -/
theorem Sits.yields_enter {label : BlockType} {last ip : Nat} {results lower : List IntType}
    {l : Label} {inner : Code} {f' : Activation}
    (hsits : Sits types scope [] f c below stop given mine code)
    (henclosed : Enclosed types f.function.body (c.inside label) lower last results (l :: f.labels))
    (hinner : inner.Charted types f.function.body (c.inside label) lower last results ip [])
    (hoperands : Integers lower f'.operands)
    (heq : f' = { f with ip, operands := f'.operands, labels := l :: f.labels }) :
    Yields types scope inst f (.go f') := by
  rw [heq]
  refine .go rfl ⟨c.inside label, lower, last, results, [], inner, ?_⟩
  exact
    { scope_eq := hsits.scope_eq
      results_eq := hsits.results_eq
      enclosed := henclosed
      charted := hinner
      operands := hoperands
      locals := hsits.locals }

/-- `block` goes on inside, with the block opened. -/
theorem Sits.yields_block {type : BlockType} {inner after : Code} {opener : Instruction}
    {last : Nat} (hsits : Sits types scope [] f c below stop given mine code)
    (hopens : Opens opener .block type (mine ++ below).length [(last + 1 : Nat)])
    (hclose : f.function.body.instructions[last]? = some Token.close.flat)
    (hinner : inner.Charted types f.function.body (c.inside type) (mine ++ below) last type.toList
      (f.ip + 1) [])
    (hafter : after.Charted types f.function.body c below stop given (last + 1)
      (type.toList ++ mine))
    (hok : Activation.step inst { f with ip := f.ip + 1 } opener store = .ok next store') :
    Yields types scope inst f next := by
  let l : Label := ⟨last + 1, (mine ++ below).length, type.toList.length⟩
  rw [Activation.step_of_op hopens.op?_eq] at hok
  have hlocal := Exec.lift_eq_ok hok
  rw [Activation.stepLocal_block, hopens.openBlock_eq (l := l) rfl] at hlocal
  obtain rfl := Except.ok.inj hlocal
  have henclosed : Enclosed types f.function.body (c.inside type) (mine ++ below) last type.toList
      (l :: f.labels) := .block hsits.enclosed rfl rfl hafter hclose (.inl ⟨rfl, rfl⟩) hafter
  exact hsits.yields_enter henclosed hinner hsits.operands rfl

/-- `loop` goes on inside, with a label that leads back. -/
theorem Sits.yields_loop {type : BlockType} {inner after : Code} {opener : Instruction} {last : Nat}
    (hsits : Sits types scope [] f c below stop given mine (.loop type inner after))
    (hopens : Opens opener .loop type (mine ++ below).length [(f.ip : Nat)])
    (hclose : f.function.body.instructions[last]? = some Token.close.flat)
    (hinner : inner.Charted types f.function.body (c.inside none) (mine ++ below) last type.toList
      (f.ip + 1) [])
    (hafter : after.Charted types f.function.body c below stop given (last + 1)
      (type.toList ++ mine))
    (hok : Activation.step inst { f with ip := f.ip + 1 } opener store = .ok next store') :
    Yields types scope inst f next := by
  let l : Label := ⟨f.ip, (mine ++ below).length, 0⟩
  rw [Activation.step_of_op hopens.op?_eq] at hok
  have hlocal := Exec.lift_eq_ok hok
  rw [Activation.stepLocal_loop, hopens.openBlock_eq (l := l) rfl] at hlocal
  obtain rfl := Except.ok.inj hlocal
  -- A branch to a loop goes back to its beginning and carries nothing.
  have henclosed : Enclosed types f.function.body (c.inside none) (mine ++ below) last type.toList
      (l :: f.labels) :=
    .block hsits.enclosed rfl rfl hsits.charted hclose (.inl ⟨rfl, rfl⟩) hafter
  exact hsits.yields_enter henclosed hinner hsits.operands rfl

/-- `if` without a second branch goes on inside or after its end. -/
theorem Sits.yields_ifThen {inner after : Code} {opener : Instruction} {last : Nat}
    (hsits : Sits types scope [] f c below stop given (.i32 :: mine) code)
    (hopens : Opens opener .ifThen none (mine ++ below).length [(last + 1 : Nat), 0])
    (hclose : f.function.body.instructions[last]? = some Token.close.flat)
    (hinner : inner.Charted types f.function.body (c.inside none) (mine ++ below) last []
      (f.ip + 1) [])
    (hafter : after.Charted types f.function.body c below stop given (last + 1) mine)
    (hok : Activation.step inst { f with ip := f.ip + 1 } opener store = .ok next store') :
    Yields types scope inst f next := by
  let l : Label := ⟨last + 1, (mine ++ below).length, 0⟩
  rw [Activation.step_of_op hopens.op?_eq] at hok
  have hlocal := Exec.lift_eq_ok hok
  simp only [Activation.stepLocal_ifThen, except_bind_eq_ok, Prod.exists] at hlocal
  obtain ⟨condition, f', hpop, hlocal⟩ := hlocal
  obtain ⟨operands, rfl, -, hlower⟩ := Integers.pop hsits.operands hpop
  split at hlocal
  · rw [hopens.openBlock_eq (l := l) rfl] at hlocal
    obtain rfl := Except.ok.inj hlocal
    have henclosed : Enclosed types f.function.body (c.inside none) (mine ++ below) last []
        (l :: f.labels) := .block hsits.enclosed rfl rfl hafter hclose (.inl ⟨rfl, rfl⟩) hafter
    exact hsits.yields_enter henclosed hinner hlower rfl
  · simp only [Instruction.elseLabel, Instruction.continuation, hopens.labels_eq,
      List.getElem?_cons_succ, List.getElem?_cons_zero, Activation.target,
      Int.toNat_natCast] at hlocal
    obtain rfl := Except.ok.inj hlocal
    exact .go rfl ⟨c, below, stop, given, mine, after,
      { hsits with charted := hafter, operands := hlower }⟩

/-- `if` with a second branch goes on inside one of the two. -/
theorem Sits.yields_ifElse {type : BlockType} {first second after : Code} {opener e : Instruction}
    {middle last : Nat} (hsits : Sits types scope [] f c below stop given (.i32 :: mine) code)
    (hopens : Opens opener .ifThen type (mine ++ below).length [(last + 1 : Nat), (middle : Nat)])
    (hmiddle : f.function.body.instructions[middle]? = some e) (hpos : middle ≠ 0)
    (helse : e.op? = some .otherwise) (hskip : e.labels = [(last + 1 : Nat)])
    (hclose : f.function.body.instructions[last]? = some Token.close.flat)
    (hfirst : first.Charted types f.function.body (c.inside type) (mine ++ below) middle type.toList
      (f.ip + 1) [])
    (hsecond : second.Charted types f.function.body (c.inside type) (mine ++ below) last type.toList
      (middle + 1) [])
    (hafter : after.Charted types f.function.body c below stop given (last + 1)
      (type.toList ++ mine))
    (hok : Activation.step inst { f with ip := f.ip + 1 } opener store = .ok next store') :
    Yields types scope inst f next := by
  let l : Label := ⟨last + 1, (mine ++ below).length, type.toList.length⟩
  have henclosed {last' : Nat} {i : Instruction}
      (hat : f.function.body.instructions[last']? = some i) (hleaves : Leaves i last' (last + 1)) :
      Enclosed types f.function.body (c.inside type) (mine ++ below) last' type.toList
      (l :: f.labels) :=
    .block hsits.enclosed rfl rfl hafter hat hleaves hafter
  rw [Activation.step_of_op hopens.op?_eq] at hok
  have hlocal := Exec.lift_eq_ok hok
  simp only [Activation.stepLocal_ifThen, except_bind_eq_ok, Prod.exists] at hlocal
  obtain ⟨condition, f', hpop, hlocal⟩ := hlocal
  obtain ⟨operands, rfl, -, hlower⟩ := Integers.pop hsits.operands hpop
  split at hlocal
  · rw [hopens.openBlock_eq (l := l) rfl] at hlocal
    obtain rfl := Except.ok.inj hlocal
    exact hsits.yields_enter (henclosed hmiddle (.inr ⟨helse, hskip⟩)) hfirst hlower rfl
  · simp only [Instruction.elseLabel, hopens.labels_eq, List.getElem?_cons_succ,
      List.getElem?_cons_zero, Activation.target, Int.toNat_natCast, except_bind_eq_ok,
      Except.ok.injEq, exists_eq_left', hpos, ne_eq, not_false_eq_true, if_true,
      hopens.openBlock_eq (l := l) rfl, except_pure_eq_ok] at hlocal
    subst hlocal
    exact hsits.yields_enter (henclosed hclose (.inl ⟨rfl, rfl⟩)) hsecond hlower rfl

/-- A block ends that has to leave its results, or the function. -/
theorem Sits.yields_end {i : Instruction}
    (hsits : Sits types scope [] f c below stop given given .done) (hip : f.ip = stop)
    (hat : f.function.body.instructions[f.ip]? = some i)
    (hok : Activation.step inst { f with ip := f.ip + 1 } i store = .ok next store') :
    Yields types scope inst f next := by
  have hclosing : Token.close.flat.op? = some .close := Token.op?_flat .close
  have henclosed := hsits.enclosed
  -- The innermost label says which block ends: that of the function leaves it, any other goes on
  -- after the block.
  generalize hlabels : f.labels = labels at henclosed
  cases henclosed with
  | function _ hclose =>
    obtain rfl := Option.some.inj (hat.symm.trans (hip ▸ hclose))
    rw [Activation.step_of_op hclosing] at hok
    have hlocal := Exec.lift_eq_ok hok
    rw [Activation.stepLocal_close, close_eq { f with ip := f.ip + 1 } hlabels,
      if_pos rfl] at hlocal
    split at hlocal
    · cases hlocal
    · obtain ⟨words, hwords, rfl⟩ := except_map_eq_ok.mp hlocal
      exact hsits.yields_leave rfl hsits.operands hwords
  | @block c label below' stop' results' labels l mine target after _ next' _ j houter _ _ _ hlast
      hleaves hafter =>
    obtain rfl := Option.some.inj (hat.symm.trans (hip ▸ hlast))
    have hne := houter.labels_ne_nil
    have hgo (ip : Nat) (hip : ip = next') :
        Yields types scope inst f (.go { f with ip, labels }) := by
      subst hip
      refine .go rfl ⟨c, below', stop', results', given ++ mine, after, ?_⟩
      exact
        { scope_eq := hsits.scope_eq
          results_eq := hsits.results_eq
          enclosed := houter
          charted := hafter
          operands := by
            rw [List.append_assoc]
            exact hsits.operands
          locals := hsits.locals }
    have hclose {f' : Next} (hclosed : { f with ip := f.ip + 1 }.close = .ok f') :
        f' = .go { f with ip := f.ip + 1, labels } := by
      rw [close_eq { f with ip := f.ip + 1 } hlabels, if_neg hne] at hclosed
      split at hclosed
      · cases hclosed
      · exact (Except.ok.inj hclosed).symm
    -- The block is left by its `end`, or by the `else` that the first arm runs into and that jumps
    -- there.
    rcases hleaves with ⟨rfl, hnext⟩ | ⟨hop, hskip⟩
    · rw [Activation.step_of_op hclosing] at hok
      rw [hclose (Exec.lift_eq_ok hok)]
      exact hgo _ (by rw [hnext, hip])
    · rw [Activation.step_of_op hop] at hok
      have hlocal := Exec.lift_eq_ok hok
      simp only [Activation.stepLocal_otherwise, except_bind_eq_ok] at hlocal
      obtain ⟨f', hclosed, hlocal⟩ := hlocal
      obtain rfl := hclose hclosed
      simp only [Activation.target, Instruction.continuation, hskip, List.getElem?_cons_zero,
        Int.toNat_natCast] at hlocal
      obtain rfl := Except.ok.inj hlocal
      exact hgo _ rfl

/-- An instruction that leaves the code depends on the activation only. -/
theorem Instr.Jumps.isLocal (hjumps : i.Jumps c ins) : i.isLocal = true := by
  cases hjumps <;> rfl

/-- Each instruction keeps a typed activation typed, gives results of the right types or calls a
function with arguments of the right types. -/
theorem Typed.step {i : Instruction} (htyped : Typed types scope [] f)
    (hlinks : Links scope inst f.function) (hglobals : SoundGlobals scope inst store)
    (hat : f.function.body.instructions[f.ip]? = some i)
    (hok : Activation.step inst { f with ip := f.ip + 1 } i store = .ok next store') :
    Yields types scope inst f next := by
  obtain ⟨c, below, stop, given, mine, code, hsits⟩ := htyped
  have hcharted := hsits.charted
  rw [List.nil_append] at hcharted
  cases hcharted with
  | done _ hip hmine =>
    subst hmine
    exact hsits.yields_end hip hat hok
  | step _ hhere hgoes htype hmine hnext =>
    subst hmine
    obtain rfl := Option.some.inj (hat.symm.trans hhere)
    exact Faces.yields ⟨hsits, htype, hnext⟩ hlinks hglobals hgoes hok
  | jump _ hhere hjumps hmine =>
    subst hmine
    obtain rfl := Option.some.inj (hat.symm.trans hhere)
    rw [step_local hjumps.isLocal] at hok
    exact hsits.yields_jump hjumps (Exec.lift_eq_ok hok)
  | block _ hhere hopens hclose _ _ hinner hnext =>
    obtain rfl := Option.some.inj (hat.symm.trans hhere)
    exact hsits.yields_block hopens hclose hinner hnext hok
  | loop _ hhere hopens hclose _ _ hinner hnext =>
    obtain rfl := Option.some.inj (hat.symm.trans hhere)
    exact hsits.yields_loop hopens hclose hinner hnext hok
  | ifThen _ hhere hopens hclose _ _ hinner hnext =>
    obtain rfl := Option.some.inj (hat.symm.trans hhere)
    exact hsits.yields_ifThen hopens hclose hinner hnext hok
  | ifElse _ hhere hopens hmiddle hpos helse hskip _ hclose _ _ hfirst hsecond hnext =>
    obtain rfl := Option.some.inj (hat.symm.trans hhere)
    exact hsits.yields_ifElse hopens hmiddle hpos helse hskip hclose hfirst hsecond hnext hok

/-! ## Where activations begin and wait -/

/-- The chart is right where code is charted. -/
theorem Code.Charted.types_eq {body : Body} {ip : Nat}
    (hcharted : code.Charted types body c below stop given ip mine) :
    types ip = some ((mine ++ below).map IntType.valueType) := by
  cases hcharted with
  | done hmark | step hmark | jump hmark | block hmark | loop hmark | ifThen hmark | ifElse hmark =>
    exact hmark.types_eq

/-- The operands of a typed activation admit the types that the chart has for them. -/
theorem Typed.exists_stack {pending : List IntType} (htyped : Typed types scope pending f) :
    ∃ stack, types f.ip = some (pending.map IntType.valueType ++ stack) ∧
    Admitted stack f.operands := by
  obtain ⟨c, below, stop, given, mine, code, hsits⟩ := htyped
  refine ⟨(mine ++ below).map IntType.valueType, ?_, hsits.operands⟩
  rw [hsits.charted.types_eq, ← List.map_append, List.append_assoc]

/-- The locals of a typed activation admit the types that the scope has for them. -/
theorem Typed.exists_local {pending : List IntType} (htyped : Typed types scope pending f)
    {i : UInt32} {t : ValueType} (hlocal : scope.localType i = some t) :
    ∃ w, f.locals[i.toNat]? = some w ∧ t.Admits w := by
  obtain ⟨c, below, stop, given, mine, code, hsits⟩ := htyped
  exact hsits.locals hlocal

/-- An activation goes on with the operands that it waits for. -/
theorem Typed.resume {pending : List IntType} {words : List UInt64}
    (htyped : Typed types scope pending f) (hwords : Integers pending words) :
    Typed types scope [] { f with operands := words ++ f.operands } := by
  obtain ⟨c, below, stop, given, mine, code, hsits⟩ := htyped
  refine ⟨c, below, stop, given, pending ++ mine, code, { hsits with operands := ?_ }⟩
  rw [List.append_assoc]
  exact hwords.append hsits.operands

/-- A function begins with typed locals and no operands. -/
theorem Charts.typed {result : BlockType} {l : Label}
    (hcharts : Charts types f.function.body scope result code)
    (hresults : f.function.type.results = results result) (hip : f.ip = 0)
    (hoperands : f.operands = []) (hlabels : f.labels = [l])
    (hlocals : ∀ {i t}, scope.localType i = some t →
      ∃ w, f.locals[i.toNat]? = some w ∧ t.Admits w) :
    Typed types scope [] f := by
  refine ⟨.ofFunction scope result, [], code.tokens.length, result.toList, [], code, ?_⟩
  exact
    { scope_eq := rfl
      results_eq := hresults
      enclosed := by
        rw [hlabels]
        exact .function rfl hcharts.close_eq
      charted := by
        rw [hip]
        exact hcharts.charted
      operands := by
        rw [hoperands]
        exact .nil
      locals := hlocals }

end

end IntWasm.Structured
