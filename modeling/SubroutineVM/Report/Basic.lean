import SubroutineVM.Digest
import SubroutineVM.Report.Issue

/-!
The report on a code: its instructions, where jumps and calls may land, its issues and its
digest.
-/
namespace SubroutineVM

/-- One instruction of a report. The immediate is shown for opcodes that have one, `0x` alone if no
    byte of it is left. -/
structure Row where
  offset : Nat
  op : String
  immediate? : Option String
  deriving DecidableEq

def Row.ofInstruction (i : Instruction) : Row where
  offset := i.offset
  op := Opcode.name? i.opcode?
  immediate? := if immediateLength i.byte = 0 then none else some ("0x" ++ Hex.encode i.immediate)

structure Report where
  instructions : List Row
  jumpDestinations : List Nat
  subroutineEntries : List Nat
  issues : List Issue
  digest : String
  deriving DecidableEq

namespace Report

def errors (r : Report) : List Issue := r.issues.filter Issue.isError

def hasErrors (r : Report) : Bool := r.issues.any Issue.isError

end Report

def analyze (code : Code) : Report :=
  let instructions := code.instructions
  { instructions := instructions.map Row.ofInstruction
    jumpDestinations := Issue.offsetsOf .jumpdest instructions
    subroutineEntries := Issue.offsetsOf .beginsub instructions
    issues := Issue.all instructions
    digest := Digest.text code.toBytes }

def verify (code : Code) : Except (List Issue) Unit :=
  match (analyze code).errors with
  | [] => .ok ()
  | errors => .error errors

end SubroutineVM
