import SubroutineVM.Json
import SubroutineVM.Machine.Run

/-!
Records of an execution. A step record shows the state an opcode is charged in, before the
charge and before the check of its stack effect; an abort record shows where and why an
execution aborted.
-/
namespace SubroutineVM

/-- The gas cost is that of the opcode and the depth that of the return stack. Both are computed
    from these fields (`cost`, `depth`), not passed by what makes the record. -/
structure StepRecord where
  pc : Nat
  opcode : Opcode
  gas : Nat
  stack : Stack Word
  returns : ReturnStack
  deriving DecidableEq

namespace StepRecord

def cost (r : StepRecord) : Nat := r.opcode.cost

def depth (r : StepRecord) : Nat := r.returns.size

def json (r : StepRecord) : Json.Value :=
  .object
    [("pc", .number r.pc), ("op", .text r.opcode.mnemonic), ("gas", .number r.gas),
      ("gasCost", .number r.cost), ("depth", .number r.depth),
      ("stack", .list (r.stack.toList.map fun w => .text w.text)),
      ("returnStack", .list (r.returns.toList.map .number))]

end StepRecord

/-- The record of the next move. A move that charges no opcode makes none. -/
def State.record? (c : Context) (s : State) : Option StepRecord :=
  (s.opcode? c).map fun opcode => ⟨s.pc, opcode, s.gas.remaining, s.stack, s.returns⟩

/-- An undefined byte leaves the opcode out. -/
structure AbortRecord where
  pc : Nat
  opcode? : Option Opcode
  cause : Cause
  deriving DecidableEq

namespace AbortRecord

def ofFault (c : Context) (f : Fault) : AbortRecord := ⟨f.pc, c.code.opcode? f.pc, f.cause⟩

def op (r : AbortRecord) : String := Opcode.name? r.opcode?

def error (r : AbortRecord) : String := r.cause.message

def json (r : AbortRecord) : Json.Value :=
  .object [("pc", .number r.pc), ("op", .text r.op), ("error", .text r.error)]

end AbortRecord

end SubroutineVM
