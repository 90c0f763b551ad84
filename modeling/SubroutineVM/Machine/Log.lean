import SubroutineVM.Machine.Record

/-!
The log of an execution: a line for each fetched instruction, and one line for its end. The
landing on a BEGINSUB is part of its call and has no line of its own.
-/
namespace SubroutineVM

inductive LogEntry where
  | fetched (pc : Nat) (opcode : Opcode) (gas : Nat)
  | halted (pc gasUsed : Nat)
  | aborted (record : AbortRecord)
  deriving DecidableEq

namespace LogEntry

def isTrace : LogEntry → Bool
  | .fetched .. => true
  | _ => false

def text : LogEntry → String
  | .fetched pc opcode gas =>
    "TRACE pc " ++ toString pc ++ " " ++ opcode.mnemonic ++ " gas " ++ toString gas
  | .halted pc gasUsed =>
    "DEBUG halted at pc " ++ toString pc ++ " using " ++ toString gasUsed ++ " gas"
  | .aborted r =>
    "DEBUG aborted at pc " ++ toString r.pc ++ " (" ++ r.op ++ "): " ++ r.error

def ofState? (c : Context) (s : State) : Option LogEntry :=
  if s.landing then none
  else (c.code.opcode? s.pc).map fun opcode => .fetched s.pc opcode s.gas.remaining

def ofResult (c : Context) : Result → LogEntry
  | .ok outcome => .halted outcome.pc outcome.gasUsed
  | .error f => .aborted (.ofFault c f)

end LogEntry

def logger : Observer (Array LogEntry) where
  visit c s lines :=
    match LogEntry.ofState? c s with
    | some entry => lines.push entry
    | none => lines
  finish c result lines := lines.push (.ofResult c result)

end SubroutineVM
