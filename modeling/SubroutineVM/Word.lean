import SubroutineVM.Digits

/-!
Machine words: numbers of 256 bits. A data-stack item is a word, and every operation on words
wraps at 2^256.
-/
namespace SubroutineVM

abbrev Word := BitVec 256

namespace Word

/-- Bytes read big-endian; of more than 32 bytes the last 32 count. -/
def ofBytes (bytes : List UInt8) : Word := BitVec.ofNat 256 (BigEndian.value bytes)

def text (w : Word) : String := Digits.hexText w.toNat

def bitLength (w : Word) : Nat := if w = 0 then 0 else w.toNat.log2 + 1

/-- The code offset a word denotes; offsets have 64 bits. -/
def toOffset? (w : Word) : Option Nat := if w.toNat < 1 <<< 64 then some w.toNat else none

def ofBool (b : Bool) : Word := if b then 1 else 0

end Word

/-- The operations on the two topmost words, the top being the first operand. -/
inductive Binary where
  | add | mul | sub | div | mod | lt | gt | eq | and | or | xor
  deriving DecidableEq

namespace Binary

def apply : Binary → Word → Word → Word
  | .add, a, b => a + b
  | .mul, a, b => a * b
  | .sub, a, b => a - b
  | .div, a, b => if b = 0 then 0 else a / b
  | .mod, a, b => if b = 0 then 0 else a % b
  | .lt, a, b => Word.ofBool (a < b)
  | .gt, a, b => Word.ofBool (b < a)
  | .eq, a, b => Word.ofBool (a = b)
  | .and, a, b => a &&& b
  | .or, a, b => a ||| b
  | .xor, a, b => a ^^^ b

end Binary

inductive Unary where
  | isZero | not
  deriving DecidableEq

namespace Unary

def apply : Unary → Word → Word
  | .isZero, a => Word.ofBool (a = 0)
  | .not, a => ~~~a

end Unary

end SubroutineVM
