import SubroutineVM.Assembly.Statement
import SubroutineVM.Code

/-!
Assembly source and listings. The source of a code has one statement a line; the code is the
bytes of its statements in line order. A listing writes each instruction of a code as such a
line.
-/
namespace SubroutineVM.Assembly

/-- A problem and the number of its line, counted from one. -/
structure Error where
  line : Nat
  problem : Problem
  deriving DecidableEq

def Error.message (e : Error) : String :=
  "line " ++ toString e.line ++ ": " ++ e.problem.message

def encodeLines (n : Nat) : List (List Char) → Except Error (List UInt8)
  | [] => .ok []
  | line :: rest =>
    match Statement.ofLine line with
    | .error problem => .error ⟨n, problem⟩
    | .ok statement? =>
      (encodeLines (n + 1) rest).map ((statement?.map Statement.encode).getD [] ++ ·)

/-- A line break at the end closes the last line and opens none, and a carriage return in front of a
    line break belongs to neither line (`assemble_closed`, `assemble_carriage_return`). -/
def assemble (text : String) : Except Error Code :=
  (encodeLines 1 (text.toList.splitOn '\n')).map Code.ofBytes

def immediateDigits (bytes : List UInt8) : String :=
  if bytes.isEmpty then "0" else Hex.encode bytes

def listingLine (i : Instruction) : String :=
  match i.opcode? with
  | none => Opcode.undefinedName ++ " " ++ Hex.byteText i.byte
  | some op =>
    if op.immediateLength = 0 then op.mnemonic
    else
      op.mnemonic ++ " 0x" ++ immediateDigits i.immediate ++
        (if i.isTruncated then " ; truncated" else "")

def disassemble (code : Code) : String :=
  String.join (code.instructions.map fun i => listingLine i ++ "\n")

end SubroutineVM.Assembly
