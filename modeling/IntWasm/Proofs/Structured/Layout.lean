import IntWasm.Proofs.Structured.Chart

/-!
# Where code lies in a checked body

`Code.Placed` is what is left of a chart if only the numbers of operands matter: code lies at an
index of a body, where the instructions are those of the code and the labels and heights of its
blocks are right, and it is known how many operands there are at every point that can be reached.
Main statement: a body that the checker accepts has its code placed at its beginning.
-/

namespace IntWasm.Structured

open Body

/-- Code lies in a body from the index `ip` to the index `stop`, in a block that was entered with
`height` operands and has to leave `count` more. At `ip` there are `n` operands in the block, of
which there are enough at every point that can be reached. -/
inductive Code.Placed (body : Body) :
    Context → (height stop count ip n : Nat) → Code → Prop
  | done {c height stop count ip n} (hfits : height + n ≤ body.metrics.maxStack) (hip : ip = stop)
      (hcount : n = count) : Placed body c height stop count ip n .done
  | step {c height stop count ip n i ins outs rest next}
      (hfits : height + n ≤ body.metrics.maxStack) (hat : body.instructions[ip]? = some i.flat)
      (hgoes : i.goesOn = true) (htype : i.HasType c ins outs) (hcount : n = ins.length + rest)
      (hnext : Placed body c height stop count (ip + 1) (outs.length + rest) next) :
    Placed body c height stop count ip n (.instr i next)
  | jump {c height stop count ip n i ins rest next} (hfits : height + n ≤ body.metrics.maxStack)
      (hat : body.instructions[ip]? = some i.flat) (hjumps : i.Jumps c ins)
      (hcount : n = ins.length + rest) : Placed body c height stop count ip n (.instr i next)
  | block {c height stop count ip n type inner next i} {last : Nat}
      (hfits : height + n ≤ body.metrics.maxStack)
      (hat : body.instructions[ip]? = some i)
      (hopens : Opens i .block type (height + n) [(last + 1 : Nat)])
      (hclose : body.instructions[last]? = some Token.close.flat)
      (hopener : body.opener last = some i)
      (hnesting : c.labels.length < body.metrics.maxNesting)
      (hinner : Placed body (c.inside type) (height + n) last type.toList.length (ip + 1) 0 inner)
      (hnext : Placed body c height stop count (last + 1) (type.toList.length + n) next) :
    Placed body c height stop count ip n (.block type inner next)
  | loop {c height stop count ip n type inner next i} {last : Nat}
      (hfits : height + n ≤ body.metrics.maxStack)
      (hat : body.instructions[ip]? = some i)
      (hopens : Opens i .loop type (height + n) [(ip : Nat)])
      (hclose : body.instructions[last]? = some Token.close.flat)
      (hopener : body.opener last = some i)
      (hnesting : c.labels.length < body.metrics.maxNesting)
      (hinner : Placed body (c.inside none) (height + n) last type.toList.length (ip + 1) 0 inner)
      (hnext : Placed body c height stop count (last + 1) (type.toList.length + n) next) :
    Placed body c height stop count ip n (.loop type inner next)
  | ifThen {c height stop count ip n inner next i} {last : Nat}
      (hfits : height + (n + 1) ≤ body.metrics.maxStack)
      (hat : body.instructions[ip]? = some i)
      (hopens : Opens i .ifThen none (height + n) [(last + 1 : Nat), 0])
      (hclose : body.instructions[last]? = some Token.close.flat)
      (hopener : body.opener last = some i)
      (hnesting : c.labels.length < body.metrics.maxNesting)
      (hinner : Placed body (c.inside none) (height + n) last 0 (ip + 1) 0 inner)
      (hnext : Placed body c height stop count (last + 1) n next) :
    Placed body c height stop count ip (n + 1) (.ifThen none inner next)
  | ifElse {c height stop count ip n type first second next i e} {middle last : Nat}
      (hfits : height + (n + 1) ≤ body.metrics.maxStack)
      (hat : body.instructions[ip]? = some i)
      (hopens : Opens i .ifThen type (height + n) [(last + 1 : Nat), (middle : Nat)])
      (hmiddle : body.instructions[middle]? = some e) (hpos : middle ≠ 0)
      (helse : e.op? = some .otherwise) (hskip : e.labels = [(last + 1 : Nat)])
      (hopener : body.opener middle = some i)
      (hclose : body.instructions[last]? = some Token.close.flat)
      (hopener' : body.opener last = some i)
      (hnesting : c.labels.length < body.metrics.maxNesting)
      (hfirst : Placed body (c.inside type) (height + n) middle type.toList.length (ip + 1) 0 first)
      (hsecond : Placed body (c.inside type) (height + n) last type.toList.length (middle + 1) 0
        second)
      (hnext : Placed body c height stop count (last + 1) (type.toList.length + n) next) :
    Placed body c height stop count ip (n + 1) (.ifElse type first second next)

/-- There is room for the operands at every point that can be reached. -/
theorem Code.Placed.fits {body : Body} {c : Context} {height stop count ip n : Nat} {code : Code}
    (hplaced : code.Placed body c height stop count ip n) :
    height + n ≤ body.metrics.maxStack := by
  cases hplaced <;> assumption
/-- Code that is charted is placed. -/
theorem Code.Charted.placed {types : Nat → Option (List ValueType)} {body : Body} {c : Context}
    {below results mine : List IntType} {stop ip : Nat} {code : Code}
    (hcharted : code.Charted types body c below stop results ip mine) :
    code.Placed body c below.length stop results.length ip mine.length := by
  have hfits {ip : Nat} {mine below : List IntType}
      (hmark : Marked types body ip (mine ++ below)) :
      below.length + mine.length ≤ body.metrics.maxStack := by
    rw [Nat.add_comm, ← List.length_append]
    exact hmark.fits
  have hheight (mine below : List IntType) :
      (mine ++ below).length = below.length + mine.length := by
    rw [List.length_append, Nat.add_comm]
  -- A layout is a chart with the types forgotten: each case is the constructor of the same name,
  -- with lengths in place of lists.
  induction hcharted with
  | done hmark hip hmine => exact .done (hfits hmark) hip (by rw [hmine])
  | step hmark hat hgoes htype hmine _ ih =>
    rw [List.length_append] at ih
    exact .step (hfits hmark) hat hgoes htype (by rw [hmine, List.length_append]) ih
  | jump hmark hat hjumps hmine =>
    exact .jump (hfits hmark) hat hjumps (by rw [hmine, List.length_append])
  | block hmark hat hopens hclose hopener hnesting _ _ ihinner ihnext =>
    rw [hheight] at hopens ihinner
    rw [List.length_append] at ihnext
    exact .block (hfits hmark) hat hopens hclose hopener hnesting ihinner ihnext
  | loop hmark hat hopens hclose hopener hnesting _ _ ihinner ihnext =>
    rw [hheight] at hopens ihinner
    rw [List.length_append] at ihnext
    exact .loop (hfits hmark) hat hopens hclose hopener hnesting ihinner ihnext
  | ifThen hmark hat hopens hclose hopener hnesting _ _ ihinner ihnext =>
    rw [hheight] at hopens ihinner
    rw [← List.cons_append] at hmark
    exact .ifThen (hfits hmark) hat hopens hclose hopener hnesting ihinner ihnext
  | ifElse hmark hat hopens hmiddle hpos helse hskip hopener hclose hopener' hnesting _ _ _ ihfirst
      ihsecond ihnext =>
    rw [hheight] at hopens ihfirst ihsecond
    rw [List.length_append] at ihnext
    rw [← List.cons_append] at hmark
    exact .ifElse (hfits hmark) hat hopens hmiddle hpos helse hskip hopener hclose hopener' hnesting
      ihfirst ihsecond ihnext

/-- The body of a function that gives `result` is that of given code. -/
structure Lays (body : Body) (scope : Scope) (result : BlockType) (code : Code) : Prop where
  placed : code.Placed body (.ofFunction scope result) 0 code.tokens.length result.toList.length 0 0
  close_eq : body.instructions[code.tokens.length]? = some Token.close.flat
  opener_eq : body.opener code.tokens.length = none
  nesting_pos : 0 < body.metrics.maxNesting

/-- The body that comes out of checking a spelling of code is that of the code. -/
theorem lays_of_check {scope : Scope} {result : BlockType} {base : Nat} {code : Code}
    {bytes : List UInt8} {body : Body} (hproper : scope.Proper) (hnarrow : scope.Narrow)
    (hspells : code.Spells bytes) (hlength : bytes.length < 2 ^ 32)
    (hok : check scope (results result) base (bytes ++ [closingByte]) = .ok body) :
    Lays body scope result code :=
  have hcharts := charts_of_check hproper hnarrow hspells hlength hok
  ⟨hcharts.charted.placed, hcharts.close_eq, hcharts.opener_eq, hcharts.nesting_pos⟩

end IntWasm.Structured
