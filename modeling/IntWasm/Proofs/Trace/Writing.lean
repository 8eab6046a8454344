import IntWasm.Proofs.Bytes.Writing
import IntWasm.Thread

/-!
# What a thread writes

Every entry of a trace has its bytes. An entry whose instruction is not supported is begun and then
given up. All that a thread does to its trace is to write one entry, as long as it has not failed
before. Main statement: `TraceEntry.does_write`.
-/

namespace IntWasm

namespace Instruction

/-- An instruction is written as its bytes. -/
theorem puts_write {i : Instruction} {bytes : List UInt8} (hbytes : i.bytesAt 0 = .ok bytes) :
    Writer.Puts EncodeFault.write i.write bytes := by
  rw [write, hbytes]
  exact (Writer.puts_bytes bytes).lift

/-- An instruction that has no bytes is refused. -/
theorem does_write_unsupported {i : Instruction} {e : DecodeError}
    (hbytes : i.bytesAt 0 = .error e) :
    Writer.Does EncodeFault.write i.write [] (some (.opcode e)) := by
  rw [write, hbytes]
  exact Writer.does_throw (EncodeFault.opcode e)

end Instruction

namespace TraceEntry

/-- The bytes of a number, of which the low 32 bits are written. -/
def numberBytes (i : Int) : List UInt8 := Leb128.encodeU32 (UInt32.ofInt i)

/-- The bytes of an entry after its mark, and the fault that ends writing it, if there is one. -/
def contents : TraceEntry → List UInt8 × Option EncodeFault
  | enter moduleName function type =>
    (Encoder.sizedBytes moduleName ++ (Leb128.encodeU32 function ++ type.bytes), none)
  | leave | finish => ([], none)
  | instruction ip i height =>
    match i.bytesAt 0 with
    | .error e => (numberBytes ip, some (.opcode e))
    | .ok bytes => (numberBytes ip ++ (bytes ++ numberBytes height), none)
  | trap text ip => (Encoder.sizedBytes text ++ numberBytes ip, none)

/-- The bytes of an entry, as far as it can be written. -/
def bytes (e : TraceEntry) : List UInt8 := e.mark :: e.contents.1

/-- The fault that ends writing an entry, if there is one. -/
def fault (e : TraceEntry) : Option EncodeFault := e.contents.2

/-- The contents of an entry about an instruction. -/
theorem contents_of_bytesAt_ok {i : Instruction} {bytes : List UInt8}
    (hbytes : i.bytesAt 0 = .ok bytes) (ip height : Int) :
    (instruction ip i height).contents =
      (numberBytes ip ++ (bytes ++ numberBytes height), none) := by
  rw [contents, hbytes]

/-- They end before an instruction that has no bytes. -/
theorem contents_of_bytesAt_error {i : Instruction} {e : DecodeError}
    (hbytes : i.bytesAt 0 = .error e) (ip height : Int) :
    (instruction ip i height).contents = (numberBytes ip, some (.opcode e)) := by
  rw [contents, hbytes]

/-- A text is written after its length. -/
theorem puts_writeText (text : List UInt8) :
    Writer.Puts EncodeFault.write (writeText text) (Encoder.sizedBytes text) :=
  (Encoder.puts_sized text).lift

/-- A number is written modulo 2 to the 32. -/
theorem puts_writeNumber (i : Int) :
    Writer.Puts EncodeFault.write (writeNumber i) (numberBytes i) :=
  (Writer.puts_bytes (Leb128.encodeU32 (UInt32.ofInt i))).lift

/-- Writing an entry puts its bytes. -/
theorem does_write (e : TraceEntry) : Writer.Does EncodeFault.write e.write e.bytes e.fault := by
  have hmark : Writer.Puts EncodeFault.write (Writer.lift .write (Writer.byte e.mark)) [e.mark] :=
    (Writer.puts_byte e.mark).lift
  refine hmark.andThen ?_
  cases e with
  | enter moduleName function type =>
    exact (puts_writeText moduleName).andThen
      ((Writer.puts_bytes (Leb128.encodeU32 function)).lift.andThen type.puts_write.lift)
  | leave => exact Writer.puts_pure
  | finish => exact Writer.puts_pure
  | trap text ip => exact (puts_writeText text).andThen (puts_writeNumber ip)
  | instruction ip i height =>
    rw [fault]
    cases hbytes : i.bytesAt 0 with
    | ok bytes =>
      rw [contents_of_bytesAt_ok hbytes]
      exact (puts_writeNumber ip).andThen
        ((Instruction.puts_write hbytes).andThen (puts_writeNumber height))
    | error e =>
      rw [contents_of_bytesAt_error hbytes]
      have hstops : Writer.Does .write (i.write >>= fun _ => writeNumber height) []
          (some (.opcode e)) :=
        (Instruction.does_write_unsupported hbytes).stop
      rw [← (numberBytes ip).append_nil]
      exact (puts_writeNumber ip).andThen hstops

end TraceEntry

namespace Thread

/-- All that the thread does is to change its depth and to write an entry. -/
def Tells (act : Thread → Sink → Thread × Sink) (depth : Int → Int) (e : TraceEntry) : Prop :=
  ∀ t out, act t out = ({ t with depth := depth t.depth }).emit e out

/-- A function that is entered is told with its module's name, its index and its type. -/
theorem tells_opened (name : String) (function : UInt32) (type : FuncType) :
    Tells (·.opened name function type) (· + 1) (.enter (Text.utf8 name) function type) :=
  fun _ _ => rfl

/-- A function that is left is told. -/
theorem tells_leave : Tells leave (· - 1) .leave := fun _ _ => rfl

/-- An instruction is told with its place and the height of the stack. -/
theorem tells_instruction (ip : Int) (i : Instruction) (height : Int) :
    Tells (·.instruction ip i height) id (.instruction ip i height) := fun _ _ => rfl

/-- A trap is told with its text and its place, and all functions are left. -/
theorem tells_trapped (trap : Trap) (ip : Int) :
    Tells (·.trapped trap ip) (fun _ => 0) (.trap (Text.utf8 trap.text) ip) := fun _ _ => rfl

/-- The end of a trace is told. -/
theorem tells_close : Tells close id .finish := fun _ _ => rfl

/-- Whether the thread still writes its trace. -/
def Speaks (t : Thread) : Bool := t.traced && t.fault.isNone

/-- What has become of a thread and of its trace after an entry. -/
theorem emit_spec (t : Thread) (e : TraceEntry) (out : Sink) :
    t.emit e out =
      if t.Speaks then
        if (out.put e.bytes).2 then ({ t with fault := e.fault }, (out.put e.bytes).1)
        else ({ t with fault := some (.write .full) }, (out.put e.bytes).1)
      else (t, out) := by
  unfold emit
  simp only [Speaks, e.does_write out]
  by_cases hspeaks : (t.traced && t.fault.isNone) = true
  · have hnone : t.fault = none := by
      have hboth := hspeaks
      rw [Bool.and_eq_true, Option.isNone_iff_eq_none] at hboth
      exact hboth.2
    simp only [hspeaks, if_true]
    cases (out.put e.bytes).2 with
    | false => rfl
    | true =>
      obtain ⟨_, _, _, _, _⟩ := t
      obtain rfl := hnone
      cases e.fault <;> rfl
  · simp only [hspeaks, Bool.false_eq_true, if_false]

end Thread

end IntWasm
