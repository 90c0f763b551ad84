import SubroutineVM.Hex
import SubroutineVM.Word

/-!
Why an execution aborts, and where.
-/
namespace SubroutineVM

inductive Cause where
  | invalidJumpDestination (dest : Word)
  | returnStackOverflow
  | returnStackUnderflow
  | outOfGas
  /-- The data stack has `size` items where the instruction needs `required`. -/
  | stackUnderflow (size required : Nat)
  | stackOverflow (limit : Nat)
  | invalidOpcode (byte : UInt8)
  deriving DecidableEq

def Cause.message : Cause → String
  | .invalidJumpDestination _ => "invalid jump destination"
  | .returnStackOverflow => "return stack limit reached"
  | .returnStackUnderflow => "invalid retsub"
  | .outOfGas => "out of gas"
  | .stackUnderflow size required =>
    "stack underflow (have " ++ toString size ++ ", need " ++ toString required ++ ")"
  | .stackOverflow limit => "stack limit reached " ++ toString limit
  | .invalidOpcode byte => "invalid opcode " ++ Hex.byteText byte

structure Fault where
  pc : Nat
  cause : Cause
  deriving DecidableEq

end SubroutineVM
