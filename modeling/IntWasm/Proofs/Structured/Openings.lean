import IntWasm.Proofs.Structured.Growth

/-!
# Instructions that open blocks

An instruction that opens a block keeps the type of the block and the height of the stack in one
word. The height has 31 bits, so it is kept exactly for every body of fewer than 2³² bytes, because
a value on the stack takes at least two bytes of code. `Body.opener` finds the instruction that
opened the block around an index by going back over the opcodes; code leaves no block open, so it
finds the same instruction before and after code.
-/

namespace IntWasm

/-! ## The block around an index -/

/-- Whether an opcode opens a block. -/
def opensBlock (byte : UInt8) : Bool :=
  byte = Opcode.block.byte ∨ byte = Opcode.loop.byte ∨ byte = Opcode.ifThen.byte

/-- The index of the instruction that opens the innermost block which is still open after given
opcodes, the last one first, if `depth` more blocks are closed behind them. -/
def openerBefore : List UInt8 → Nat → Option Nat
  | [], _ => none
  | byte :: before, depth =>
    if byte = Opcode.close.byte then openerBefore before (depth + 1)
    else if opensBlock byte then
      match depth with
      | 0 => some before.length
      | depth + 1 => openerBefore before depth
    else openerBefore before depth

/-- The instruction that opens the innermost block around an index; directly in the function there
is none. -/
def Body.opener (body : Body) (ip : Nat) : Option Instruction :=
  (openerBefore ((Structured.opcodes body.instructions).take ip).reverse 0).bind
    (body.instructions[·]?)

namespace Structured

/-- An end further back has to be matched first. -/
theorem openerBefore_close (before : List UInt8) (depth : Nat) :
    openerBefore (Token.close.op.byte :: before) depth = openerBefore before (depth + 1) := by
  simp [openerBefore, Token.op]

/-- A token that opens a block. -/
def Token.opens : Token → Bool
  | block _ | loop _ | ifThen _ => true
  | _ => false

/-- A token opens a block if its opcode does. -/
theorem opensBlock_byte (token : Token) : opensBlock token.op.byte = token.opens := by
  simp only [opensBlock, Opcode.byte_eq_iff]
  cases token with
  | instr i => cases i <;> rfl
  | block type | loop type | ifThen type | otherwise | close => rfl

/-- The opening instruction just before is the opener. -/
theorem openerBefore_opens {token : Token} (hopens : token.opens = true) (before : List UInt8) :
    openerBefore (token.op.byte :: before) 0 = some before.length := by
  have hclose : token.op ≠ .close := by cases token <;> simp_all [Token.opens, Token.op]
  simp [openerBefore, Opcode.byte_eq_iff, hclose, opensBlock_byte, hopens]

/-- An opening instruction further back matches an end. -/
theorem openerBefore_opens_succ {token : Token} (hopens : token.opens = true)
    (before : List UInt8) (depth : Nat) :
    openerBefore (token.op.byte :: before) (depth + 1) = openerBefore before depth := by
  have hclose : token.op ≠ .close := by cases token <;> simp_all [Token.opens, Token.op]
  simp [openerBefore, Opcode.byte_eq_iff, hclose, opensBlock_byte, hopens]

/-- Tokens that neither open nor close a block are passed over. -/
theorem openerBefore_skip {token : Token} (hopens : token.opens = false)
    (hclose : token.op ≠ .close) (before : List UInt8) (depth : Nat) :
    openerBefore (token.op.byte :: before) depth = openerBefore before depth := by
  simp [openerBefore, Opcode.byte_eq_iff, hclose, opensBlock_byte, hopens]

/-- Other instructions are passed over. -/
theorem openerBefore_instr (i : Instr) (before : List UInt8) (depth : Nat) :
    openerBefore ((Token.instr i).op.byte :: before) depth = openerBefore before depth :=
  openerBefore_skip rfl (by cases i <;> simp [Token.op, Instr.op]) before depth

/-- So is the middle of an `if`. -/
theorem openerBefore_otherwise (before : List UInt8) (depth : Nat) :
    openerBefore (Token.otherwise.op.byte :: before) depth = openerBefore before depth :=
  openerBefore_skip rfl (by simp [Token.op]) before depth

/-- Tokens that close all blocks which they open and no others. -/
def Balanced (tokens : List Token) : Prop :=
  ∀ before depth, openerBefore ((tokens.map fun token => token.op.byte).reverse ++ before) depth =
    openerBefore before depth

/-- Balanced tokens one after the other are balanced. -/
theorem Balanced.append {tokens more : List Token} (hfirst : Balanced tokens)
    (hmore : Balanced more) : Balanced (tokens ++ more) := by
  intro before depth
  rw [List.map_append, List.reverse_append, List.append_assoc, hmore, hfirst]

/-- An instruction is balanced. -/
theorem balanced_instr (i : Instr) : Balanced [.instr i] := openerBefore_instr i

/-- So is the middle of an `if`. -/
theorem balanced_otherwise : Balanced [.otherwise] := openerBefore_otherwise

/-- A block is balanced if its body is. -/
theorem Balanced.enclosed {tokens : List Token} (hbody : Balanced tokens) (token : Token)
    (hopens : token.opens = true) : Balanced (token :: (tokens ++ [.close])) := by
  intro before depth
  simp only [List.map_cons, List.map_append, List.map_nil, List.reverse_cons, List.reverse_append,
    List.reverse_nil, List.append_assoc, List.nil_append, List.cons_append]
  rw [openerBefore_close, hbody, openerBefore_opens_succ hopens]

/-- Code closes all blocks that it opens. -/
theorem Code.balanced (code : Code) : Balanced code.tokens := by
  induction code with
  | done => exact fun _ _ => rfl
  | instr i next ih => exact (balanced_instr i).append ih
  | block type body next ihbody ihnext =>
    simpa [tokens] using (ihbody.enclosed (.block type) rfl).append ihnext
  | loop type body next ihbody ihnext =>
    simpa [tokens] using (ihbody.enclosed (.loop type) rfl).append ihnext
  | ifThen type body next ihbody ihnext =>
    simpa [tokens] using (ihbody.enclosed (.ifThen type) rfl).append ihnext
  | ifElse type first second next ihfirst ihsecond ihnext =>
    have harms := (ihfirst.append balanced_otherwise).append ihsecond
    simpa [tokens] using (harms.enclosed (.ifThen type) rfl).append ihnext

/-- The block around the end of balanced tokens is the one that was opened before them. -/
theorem opener_eq {body : Body} {before : List UInt8} {token : Token} {tokens : List Token}
    (hopens : token.opens = true) (hbalanced : Balanced tokens)
    (hopcodes : before ++ ((token :: tokens).map fun token => token.op.byte) <+:
      opcodes body.instructions) :
    body.opener (before.length + 1 + tokens.length) = body.instructions[before.length]? := by
  obtain ⟨after, hafter⟩ := hopcodes
  have htake : (opcodes body.instructions).take (before.length + 1 + tokens.length) =
      before ++ ((token :: tokens).map fun token => token.op.byte) := by
    rw [← hafter, List.take_append_of_le_length (by simp; omega), List.take_of_length_le]
    simp
    omega
  rw [Body.opener, htake, List.reverse_append, List.map_cons, List.reverse_cons, List.append_assoc,
    hbalanced]
  simp only [List.singleton_append]
  rw [openerBefore_opens hopens]
  simp

/-! ## Immediates -/

/-- The word of a block type and the bits of a stack height do not overlap. -/
theorem blockCode_and_heightMask (type : BlockType) :
    Instruction.blockCode (typeByte type) &&& Instruction.heightMask = 0 := by
  revert type
  rintro (_ | _ | _) <;> decide

/-- Masking distributes over joining bits. -/
theorem or_and (a b c : UInt64) : (a ||| b) &&& c = (a &&& c) ||| (b &&& c) := by
  apply UInt64.toNat_inj.mp
  simp only [UInt64.toNat_and, UInt64.toNat_or, Nat.and_or_distrib_right]

/-- The type of a block is read back whatever the height is. -/
theorem blockResults_opening_height (op : Opcode) (type : BlockType) (height : Nat)
    (labels : List Int) :
    (opening (.opening op (Instruction.blockCode (typeByte type))) height labels).blockResults =
      results type := by
  have hmask : (opening (.opening op (Instruction.blockCode (typeByte type))) height
      labels).immediate &&& Instruction.blockMask =
        Instruction.blockCode (typeByte type) &&& Instruction.blockMask := by
    have hdisjoint : Instruction.heightMask &&& Instruction.blockMask = 0 := by decide
    simp only [opening, Instruction.opening]
    rw [or_and, UInt64.and_assoc, hdisjoint, UInt64.and_zero, UInt64.or_zero]
  rw [← blockResults_opening op type, Instruction.blockResults, Instruction.blockResults, hmask]
  rfl

/-- The height of the stack is read back if it has at most 31 bits. -/
theorem height_opening (op : Opcode) (type : BlockType) {height : Nat} (labels : List Int)
    (hheight : height < 2 ^ 31) :
    (opening (.opening op (Instruction.blockCode (typeByte type))) height labels).height =
      height := by
  simp only [opening, Instruction.opening, Instruction.height]
  rw [or_and, blockCode_and_heightMask, UInt64.zero_or, UInt64.and_assoc, UInt64.and_self]
  have hshift : (UInt64.ofNat height <<< 32).toNat = height <<< 32 := by
    rw [UInt64.toNat_shiftLeft, UInt64.toNat_ofNat']
    rw [show (32 : UInt64).toNat % 64 = 32 from rfl, Nat.mod_eq_of_lt (by omega : height < 2 ^ 64),
      Nat.mod_eq_of_lt]
    rw [Nat.shiftLeft_eq]
    omega
  have hmask : Instruction.heightMask.toNat = (2 ^ 31 - 1) <<< 32 := by decide
  rw [UInt64.toNat_shiftRight, UInt64.toNat_and, hshift, hmask, ← Nat.shiftLeft_and_distrib,
    Nat.and_two_pow_sub_one_eq_mod, Nat.mod_eq_of_lt hheight]
  exact Nat.shiftLeft_shiftRight height 32

/-! ## How many bytes code takes -/

/-- The fewest bytes that a token can be spelled with. -/
def Token.weight : Token → Nat
  | instr i =>
    match i with
    | .br _ | .brIf _ | .call _ | .localGet _ | .localSet _ | .localTee _ | .globalGet _
    | .globalSet _ | .const32 _ | .const64 _ | .memorySize | .callIndirect _ => 2
    | _ => 1
  | block _ | loop _ | ifThen _ => 2
  | otherwise | close => 1

/-- The fewest bytes that tokens can be spelled with. -/
def weight (tokens : List Token) : Nat := (tokens.map Token.weight).sum

/-- Tokens weigh as much as the first one and the others. -/
theorem weight_cons (token : Token) (tokens : List Token) :
    weight (token :: tokens) = token.weight + weight tokens := by
  simp [weight]

/-- Tokens one after the other weigh as much as both. -/
theorem weight_append (tokens more : List Token) :
    weight (tokens ++ more) = weight tokens + weight more := by
  simp [weight]

/-- A token weighs no more than its bytes. -/
theorem Token.Spells.weight_le {token : Token} {bytes : List UInt8} (hspells : token.Spells bytes) :
    token.weight ≤ bytes.length := by
  obtain ⟨more, rfl, hmore⟩ := hspells
  cases token with
  | instr i =>
    cases i
    case br | brIf | call | localGet | localSet | localTee | globalGet | globalSet =>
      exact Nat.succ_le_succ (Leb128.SpellsUnsigned.isRun hmore).length_pos
    case const32 | const64 => exact Nat.succ_le_succ (Leb128.SpellsSigned.isRun hmore).length_pos
    case memorySize =>
      cases hmore
      simp [weight]
    case callIndirect =>
      obtain ⟨index, rfl, -⟩ := hmore
      simp [weight]
    all_goals simp [weight]
  | block type | loop type | ifThen type =>
    cases hmore
    simp [weight]
  | otherwise | close => simp [weight]

/-- Tokens weigh no more than their bytes. -/
theorem SpellsTokens.weight_le {tokens : List Token} {bytes : List UInt8}
    (hspells : SpellsTokens tokens bytes) : weight tokens ≤ bytes.length := by
  induction tokens generalizing bytes with
  | nil => simp [weight]
  | cons token tokens ih =>
    obtain ⟨first, more, rfl, hfirst, hmore⟩ := hspells
    have hle := hfirst.weight_le
    have hle' := ih hmore
    rw [weight_cons, List.length_append]
    omega

end Structured

/-- A scope in which functions give at most one result. -/
structure Scope.Narrow (s : Scope) : Prop where
  functionType : ∀ {i f}, s.functionType i = some f → f.results.length ≤ 1
  type : ∀ {i f}, s.type i = some f → f.results.length ≤ 1

namespace Structured

/-- The instructions after which code goes on. -/
def Instr.goesOn : Instr → Bool
  | .unreachable | .br _ | .brTable _ _ | .ret => false
  | _ => true

/-- Every value that an instruction adds to the stack takes two bytes of code. -/
theorem Instr.HasType.weight_le {c : Context} {i : Instr} {ins outs : List IntType}
    (htype : i.HasType c ins outs) (hnarrow : c.scope.Narrow) (hgoes : i.goesOn = true) :
    2 * outs.length ≤ 2 * ins.length + (Token.instr i).weight := by
  cases htype with
  | unreachable | br | brTable | ret => cases hgoes
  | call hfunction =>
    have hle := hnarrow.functionType hfunction
    simp only [FuncType.ofInts, List.length_map] at hle
    simp only [List.length_reverse, Token.weight]
    omega
  | callIndirect htable htype =>
    have hle := hnarrow.type htype
    simp only [FuncType.ofInts, List.length_map] at hle
    simp only [List.length_reverse, List.length_cons, Token.weight]
    omega
  | brIf hlabel =>
    simp only [List.length_cons, Token.weight]
    omega
  | _ => simp [Token.weight]

end Structured

end IntWasm
