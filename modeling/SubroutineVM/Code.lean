import SubroutineVM.Opcode

/-!
Programs as bytes. A byte at an offset is an opcode or belongs to the immediate of the PUSH
before it; the marks of a code tell the two apart, and the instruction walk cuts the bytes at
the same places. A jump or a call may only land on a marked byte.
-/
namespace SubroutineVM

def immediateLength (b : UInt8) : Nat :=
  match Opcode.ofByte? b with
  | some op => op.immediateLength
  | none => 0

/-- For each byte, whether it is an opcode, when the first `skip` bytes are immediate. -/
def opcodeMarks : Nat → List UInt8 → List Bool
  | _, [] => []
  | 0, b :: rest => true :: opcodeMarks (immediateLength b) rest
  | skip + 1, _ :: rest => false :: opcodeMarks skip rest

/-- One place of the instruction walk. The immediate is shorter than its opcode asks for where the
    code ends first. -/
structure Instruction where
  offset : Nat
  byte : UInt8
  immediate : List UInt8
  deriving DecidableEq

namespace Instruction

def opcode? (i : Instruction) : Option Opcode := Opcode.ofByte? i.byte

def isTruncated (i : Instruction) : Bool := i.immediate.length < immediateLength i.byte

def next (i : Instruction) : Nat := i.offset + 1 + i.immediate.length

def walk (offset : Nat) : List UInt8 → List Instruction
  | [] => []
  | b :: rest =>
    let length := immediateLength b
    ⟨offset, b, rest.take length⟩ :: walk (offset + 1 + length) (rest.drop length)
termination_by bytes => bytes.length
decreasing_by
  simp only [List.length_cons, List.length_drop]
  omega

end Instruction

structure Code where
  bytes : Array UInt8
  marks : Array Bool
  marks_eq : marks.toList = opcodeMarks 0 bytes.toList

namespace Code

def ofBytes (bytes : List UInt8) : Code :=
  ⟨bytes.toArray, (opcodeMarks 0 bytes).toArray, by simp⟩

def toBytes (c : Code) : List UInt8 := c.bytes.toList

def size (c : Code) : Nat := c.bytes.size

def byte? (c : Code) (offset : Nat) : Option UInt8 := c.bytes[offset]?

def opcode? (c : Code) (offset : Nat) : Option Opcode := (c.byte? offset).bind Opcode.ofByte?

def isOpcodeOffset (c : Code) (offset : Nat) : Bool := c.marks[offset]?.getD false

def slice (c : Code) (offset length : Nat) : List UInt8 :=
  (c.bytes.extract offset (offset + length)).toList

def immediate (c : Code) (offset length : Nat) : Word :=
  let present := c.slice offset length
  Word.ofBytes (present ++ List.replicate (length - present.length) 0)

def holds (c : Code) (offset : Nat) (op : Opcode) : Bool :=
  c.isOpcodeOffset offset && c.byte? offset == some op.toByte

def isJumpDestination (c : Code) (offset : Nat) : Bool := c.holds offset .jumpdest

def isSubroutineEntry (c : Code) (offset : Nat) : Bool := c.holds offset .beginsub

def instructions (c : Code) : List Instruction := Instruction.walk 0 c.toBytes

def hex (c : Code) : String := Hex.encode c.toBytes

def text (c : Code) : String := "0x" ++ c.hex

def read (text : String) : Except Hex.Error Code := (Hex.read text).map ofBytes

@[simp] theorem toBytes_ofBytes (bytes : List UInt8) : (ofBytes bytes).toBytes = bytes := rfl

@[ext] theorem ext {c d : Code} (bytes : c.toBytes = d.toBytes) : c = d := by
  obtain ⟨cBytes, cMarks, cEq⟩ := c
  obtain ⟨dBytes, dMarks, dEq⟩ := d
  have same : cBytes = dBytes := by simpa [toBytes] using bytes
  subst same
  have marks : cMarks = dMarks := by
    rw [← Array.toList_inj, cEq, dEq]
  subst marks
  rfl

@[simp] theorem ofBytes_toBytes (c : Code) : ofBytes c.toBytes = c := ext (by simp)

instance : DecidableEq Code := fun c d =>
  decidable_of_iff (c.toBytes = d.toBytes) ⟨ext, congrArg toBytes⟩

end Code

end SubroutineVM
