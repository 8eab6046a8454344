import IntWasm.Instruction.Basic

/-!
# Instructions by name

An instruction can be put together from its name in the text format and the numbers that follow it.
Numbers that are left out are zero, except for the type of a block, which is then empty, and the
alignment of an access, which is then the natural one.
-/

namespace IntWasm

/-- The opcode of a name in the text format. -/
def Opcode.ofText? (name : String) : Option Opcode := all.find? (·.text = name)

namespace Instruction

/-- The instruction of an opcode with the numbers that follow its name. -/
def assemble (op : Opcode) (args : List Int) : Instruction :=
  let first := args.headD 0
  match op with
  | .block | .loop | .ifThen => opening op ((args.head?.map UInt64.ofInt).getD blockEmpty)
  | .br | .brIf => branch op first
  | .brTable => branchTable first args.tail
  | .call | .callIndirect | .localGet | .localSet | .localTee | .globalGet | .globalSet =>
    indexed op (UInt32.ofInt first)
  | .load _ | .store _ =>
    access op.byte (UInt32.ofInt first)
      ((args.tail.head?.map UInt32.ofInt).getD (naturalAlign op.byte))
  | .const .i32 => i32Const (Int32.ofInt first)
  | .const .i64 => i64Const (Int64.ofInt first)
  | _ => plain op

end Instruction

end IntWasm
