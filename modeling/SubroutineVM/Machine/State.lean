import SubroutineVM.Code
import SubroutineVM.GasMeter
import SubroutineVM.Machine.Fault
import SubroutineVM.ReturnStack

/-!
What one execution keeps fixed, what it changes, and the small moves that instructions are made
of: taking an operand, giving a result, going on to the next instruction or elsewhere.
-/
namespace SubroutineVM

structure Context where
  code : Code
  stackLimit : Nat

/-- A call is two moves: JUMPSUB leaves the program counter on the entry it calls with `landing`
    set, and the landing on that BEGINSUB follows at once. -/
structure State where
  pc : Nat
  stack : Stack Word
  returns : ReturnStack
  gas : GasMeter
  landing : Bool
  deriving DecidableEq

/-- Where a move leads. A fault keeps the state it arose in. -/
inductive Transition where
  | next (s : State)
  | halt (s : State)
  | fault (s : State) (cause : Cause)
  deriving DecidableEq

namespace State

def start (gasLimit : Nat) : State := ⟨0, .empty, .empty, .full gasLimit, false⟩

def opcode? (c : Context) (s : State) : Option Opcode :=
  if s.landing then some .beginsub else c.code.opcode? s.pc

def popping (s : State) (move : Word → State → Transition) : Transition :=
  match s.stack.pop? with
  | none => .fault s (.stackUnderflow 0 1)
  | some (top, stack) => move top { s with stack }

def pushing (c : Context) (s : State) (w : Word) (move : State → Transition) : Transition :=
  if c.stackLimit ≤ s.stack.size then .fault s (.stackOverflow c.stackLimit)
  else move { s with stack := s.stack.push w }

def advance (c : Context) (immediates : Nat) (s : State) : Transition :=
  .next { s with pc := min (s.pc + 1 + immediates) c.code.size }

/-- A jump may land on a JUMPDEST and on a BEGINSUB. The word is compared as a number; a word that
    is too wide for an offset lies behind every code (`jump_by_offset`). -/
def jump (c : Context) (dest : Word) (s : State) : Transition :=
  if c.code.isJumpDestination dest.toNat || c.code.isSubroutineEntry dest.toNat then
    .next { s with pc := dest.toNat }
  else .fault s (.invalidJumpDestination dest)

def callSubroutine (c : Context) (s : State) : Transition :=
  match s.stack.peek? 0 with
  | none => .fault s (.stackUnderflow s.stack.size 1)
  | some dest =>
    if c.code.isSubroutineEntry dest.toNat then
      match s.returns.save (s.pc + 1) with
      | .error _ => .fault s .returnStackOverflow
      | .ok returns =>
        { s with returns }.popping fun _ s => .next { s with pc := dest.toNat, landing := true }
    else .fault s (.invalidJumpDestination dest)

def endSubroutine (s : State) : Transition :=
  match s.returns.restore with
  | .error _ => .fault s .returnStackUnderflow
  | .ok (address, returns) => .next { s with pc := address, returns }

end State

end SubroutineVM
