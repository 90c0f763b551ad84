import SubroutineVM.Stack

/-!
The return stack: the addresses behind the calls that have not returned, at most 1023 of them.
-/
namespace SubroutineVM

abbrev ReturnStack := Stack Nat

namespace ReturnStack

def limit : Nat := 1023

inductive Error where
  | full
  | empty
  deriving DecidableEq

def Error.message : Error → String
  | .full => "return stack full"
  | .empty => "return stack empty"

def save (returns : ReturnStack) (address : Nat) : Except Error ReturnStack :=
  if limit ≤ returns.size then .error .full else .ok (Stack.push returns address)

def restore (returns : ReturnStack) : Except Error (Nat × ReturnStack) :=
  match Stack.pop? returns with
  | none => .error .empty
  | some popped => .ok popped

end ReturnStack

end SubroutineVM
