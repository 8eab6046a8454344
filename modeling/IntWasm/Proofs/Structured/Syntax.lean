import IntWasm.Proofs.Leb128.Runs
import IntWasm.Proofs.Opcode

/-!
# Structured code

The body of a function seen as a tree: blocks, loops and conditionals hold the code inside them, and
all other instructions carry their immediates as numbers of their own kinds. Going through the tree
from left to right gives a list of tokens, among them those that separate and close blocks, and
every token has its spellings as bytes. A number may be spelled with padding, so a tree has many
spellings.
-/

namespace IntWasm.Structured

open Leb128

/-- An instruction that opens no block, with its immediates. -/
inductive Instr where
  | unreachable
  | nop
  | br (label : UInt32)
  | brIf (label : UInt32)
  /-- A branch table: its cases, and the label for all other cases. -/
  | brTable (cases : List UInt32) (default : UInt32)
  | ret
  | call (function : UInt32)
  | callIndirect (type : UInt32)
  | drop
  | select
  | localGet (index : UInt32)
  | localSet (index : UInt32)
  | localTee (index : UInt32)
  | globalGet (index : UInt32)
  | globalSet (index : UInt32)
  | load (access : LoadForm) (align offset : UInt32)
  | store (access : StoreForm) (align offset : UInt32)
  | memorySize
  | memoryGrow
  | const32 (value : Int32)
  | const64 (value : Int64)
  | eqz (type : IntType)
  | compare (type : IntType) (relation : Comparison)
  | count (type : IntType) (what : Count)
  | arith (type : IntType) (operation : Arith)
  | wrap
  | extend (sign : Sign)
  | extendPart (type : IntType) (part : Part)
  | extendWord
  deriving Repr, Inhabited

/-- The type of the value that a block gives, if it gives one. -/
abbrev BlockType := Option IntType

/-- Instructions one after the other, with the contents of blocks inside them. -/
inductive Code where
  | done
  | instr (i : Instr) (next : Code)
  | block (type : BlockType) (body next : Code)
  | loop (type : BlockType) (body next : Code)
  /-- A conditional without a second arm. -/
  | ifThen (type : BlockType) (body next : Code)
  | ifElse (type : BlockType) (first second next : Code)
  deriving Repr, Inhabited

/-- The pieces that code is written down with. -/
inductive Token where
  | instr (i : Instr)
  | block (type : BlockType)
  | loop (type : BlockType)
  | ifThen (type : BlockType)
  | otherwise
  | close
  deriving Repr, Inhabited

/-- The pieces of code from left to right. -/
def Code.tokens : Code → List Token
  | done => []
  | instr i next => .instr i :: next.tokens
  | block type body next => .block type :: (body.tokens ++ .close :: next.tokens)
  | loop type body next => .loop type :: (body.tokens ++ .close :: next.tokens)
  | ifThen type body next => .ifThen type :: (body.tokens ++ .close :: next.tokens)
  | ifElse type first second next =>
    .ifThen type :: (first.tokens ++ .otherwise :: (second.tokens ++ .close :: next.tokens))

/-! ## Instructions -/

/-- The types of a block's results. -/
def results (type : BlockType) : List ValueType :=
  type.toList.map IntType.valueType

/-- The byte of a block type. -/
def typeByte : BlockType → UInt8
  | none => 0x40
  | some .i32 => 0x7f
  | some .i64 => 0x7e

namespace Instr

/-- The opcode of an instruction. -/
def op : Instr → Opcode
  | unreachable => .unreachable
  | nop => .nop
  | br _ => .br
  | brIf _ => .brIf
  | brTable _ _ => .brTable
  | ret => .ret
  | call _ => .call
  | callIndirect _ => .callIndirect
  | drop => .drop
  | select => .select
  | localGet _ => .localGet
  | localSet _ => .localSet
  | localTee _ => .localTee
  | globalGet _ => .globalGet
  | globalSet _ => .globalSet
  | load access _ _ => .load access
  | store access _ _ => .store access
  | memorySize => .memorySize
  | memoryGrow => .memoryGrow
  | const32 _ => .const .i32
  | const64 _ => .const .i64
  | eqz type => .eqz type
  | compare type relation => .compare type relation
  | count type what => .count type what
  | arith type operation => .arith type operation
  | wrap => .wrap
  | extend sign => .extend sign
  | extendPart type part => .extendPart type part
  | extendWord => .extendWord

/-- The immediate of an instruction as one word. -/
def immediate : Instr → UInt64
  | br n | brIf n | brTable _ n | call n | callIndirect n | localGet n | localSet n | localTee n
  | globalGet n | globalSet n => n.toUInt64
  | load _ align offset | store _ align offset => Instruction.memoryImmediate offset align
  | const32 value => value.toInt64.toUInt64
  | const64 value => value.toUInt64
  | _ => 0

/-- The cases of a branch table; other instructions have none. -/
def labels : Instr → List Int
  | brTable cases _ => cases.map fun label => (label.toNat : Int)
  | _ => []

/-- The instruction that stands for `i` in checked code. -/
def flat (i : Instr) : Instruction :=
  { opcode := i.op.byte, immediate := i.immediate, labels := i.labels }

end Instr

namespace Token

/-- The opcode of a token. -/
def op : Token → Opcode
  | instr i => i.op
  | block _ => .block
  | loop _ => .loop
  | ifThen _ => .ifThen
  | otherwise => .otherwise
  | close => .close

/-- The instruction that is read for a token. -/
def flat : Token → Instruction
  | instr i => i.flat
  | block type => .opening .block (Instruction.blockCode (typeByte type))
  | loop type => .opening .loop (Instruction.blockCode (typeByte type))
  | ifThen type => .opening .ifThen (Instruction.blockCode (typeByte type))
  | otherwise => .plain .otherwise
  | close => .plain .close

end Token

/-! ## Spellings -/

/-- Bytes that stand for an index or another unsigned number of 32 bits. -/
def SpellsIndex (n : UInt32) (bytes : List UInt8) : Prop := SpellsUnsigned 32 n.toNat bytes

/-- Bytes that stand for several numbers of 32 bits in order. -/
def SpellsIndices : List UInt32 → List UInt8 → Prop
  | [], bytes => bytes = []
  | n :: ns, bytes => ∃ first more, bytes = first ++ more ∧ SpellsIndex n first ∧
      SpellsIndices ns more

/-- Bytes that stand for the immediates of an instruction. -/
def Instr.SpellsImmediates (i : Instr) (bytes : List UInt8) : Prop :=
  match i with
  | br n | brIf n | call n | localGet n | localSet n | localTee n | globalGet n | globalSet n =>
    SpellsIndex n bytes
  | brTable cases default => ∃ count more last, bytes = count ++ (more ++ last) ∧
      SpellsUnsigned 32 cases.length count ∧ SpellsIndices cases more ∧ SpellsIndex default last
  | callIndirect type => ∃ index, bytes = index ++ [0] ∧ SpellsIndex type index
  | load _ align offset | store _ align offset => ∃ first second, bytes = first ++ second ∧
      SpellsIndex align first ∧ SpellsIndex offset second
  | memorySize | memoryGrow => bytes = [0]
  | const32 value => SpellsSigned 32 value.toInt bytes
  | const64 value => SpellsSigned 64 value.toInt bytes
  | _ => bytes = []

/-- Bytes that stand for a token: its opcode and its immediates. -/
def Token.Spells (token : Token) (bytes : List UInt8) : Prop :=
  ∃ more, bytes = token.op.byte :: more ∧
    match token with
    | instr i => i.SpellsImmediates more
    | block type | loop type | ifThen type => more = [typeByte type]
    | otherwise | close => more = []

/-- Bytes that stand for several tokens in order. -/
def SpellsTokens : List Token → List UInt8 → Prop
  | [], bytes => bytes = []
  | token :: tokens, bytes => ∃ first more, bytes = first ++ more ∧ token.Spells first ∧
      SpellsTokens tokens more

/-- Bytes that stand for code. -/
def Code.Spells (code : Code) (bytes : List UInt8) : Prop := SpellsTokens code.tokens bytes

/-! ## Sequences of tokens -/

/-- Code followed by other code. -/
def Code.append : Code → Code → Code
  | done, more => more
  | instr i next, more => instr i (next.append more)
  | block type body next, more => block type body (next.append more)
  | loop type body next, more => loop type body (next.append more)
  | ifThen type body next, more => ifThen type body (next.append more)
  | ifElse type first second next, more => ifElse type first second (next.append more)

/-- The pieces of code followed by other code. -/
theorem Code.tokens_append (code more : Code) :
    (code.append more).tokens = code.tokens ++ more.tokens := by
  induction code with
  | done => rfl
  | instr i next ih => simp [append, tokens, ih]
  | block type body next _ ih => simp [append, tokens, ih]
  | loop type body next _ ih => simp [append, tokens, ih]
  | ifThen type body next _ ih => simp [append, tokens, ih]
  | ifElse type first second next _ _ ih => simp [append, tokens, ih]

/-- Tokens one after the other are spelled one after the other. -/
theorem spellsTokens_append {tokens more : List Token} {bytes : List UInt8} :
    SpellsTokens (tokens ++ more) bytes ↔
      ∃ first rest, bytes = first ++ rest ∧ SpellsTokens tokens first ∧ SpellsTokens more rest := by
  induction tokens generalizing bytes with
  | nil => simp [SpellsTokens]
  | cons token tokens ih =>
    simp only [List.cons_append, SpellsTokens, ih]
    constructor
    · rintro ⟨first, _, rfl, hfirst, inner, rest, rfl, hinner, hrest⟩
      exact ⟨first ++ inner, rest, by simp, ⟨first, inner, rfl, hfirst, hinner⟩, hrest⟩
    · rintro ⟨_, rest, rfl, ⟨first, inner, rfl, hfirst, hinner⟩, hrest⟩
      exact ⟨first, inner ++ rest, by simp, hfirst, inner, rest, rfl, hinner, hrest⟩

/-- Every number takes a byte. -/
theorem SpellsIndices.length_le {ns : List UInt32} {bytes : List UInt8}
    (hspells : SpellsIndices ns bytes) : ns.length ≤ bytes.length := by
  induction ns generalizing bytes with
  | nil => simp
  | cons n ns ih =>
    obtain ⟨first, more, rfl, hfirst, hmore⟩ := hspells
    have hpos := hfirst.isRun.length_pos
    have hle := ih hmore
    simp only [List.length_cons, List.length_append]
    omega

end IntWasm.Structured
