/-!
Numbers in digits: the value of a digit character, the number a run of digits denotes, and
bytes as base-256 digits, most significant first. Main statement: the last digits of a number
denote its remainder (`value_digits`).
-/
namespace SubroutineVM

namespace Digits

def decimal? (c : Char) : Option Nat :=
  if '0' ≤ c ∧ c ≤ '9' then some (c.toNat - '0'.toNat) else none

def hex? (c : Char) : Option Nat :=
  if '0' ≤ c ∧ c ≤ '9' then some (c.toNat - '0'.toNat)
  else if 'a' ≤ c ∧ c ≤ 'f' then some (c.toNat - 'a'.toNat + 10)
  else if 'A' ≤ c ∧ c ≤ 'F' then some (c.toNat - 'A'.toNat + 10)
  else none

/-- The number that digits denote in a base, most significant first; `none` where a character is no
    digit. No digits denote zero. -/
def read? (base : Nat) (digit? : Char → Option Nat) (digits : List Char) : Option Nat :=
  digits.foldlM (fun total c => (digit? c).map (base * total + ·)) 0

def hexText (n : Nat) : String := "0x" ++ String.ofList (Nat.toDigits 16 n)

end Digits

namespace BigEndian

def value (bytes : List UInt8) : Nat :=
  bytes.foldl (fun total byte => 256 * total + byte.toNat) 0

def digits : Nat → Nat → List UInt8
  | 0, _ => []
  | width + 1, n => digits width (n / 256) ++ [UInt8.ofNat n]

theorem value_concat (front : List UInt8) (byte : UInt8) :
    value (front ++ [byte]) = 256 * value front + byte.toNat := by
  simp [value]

theorem length_digits (width n : Nat) : (digits width n).length = width := by
  induction width generalizing n with
  | zero => rfl
  | succ width ih => simp [digits, ih]

theorem value_digits (width n : Nat) : value (digits width n) = n % (1 <<< (8 * width)) := by
  induction width generalizing n with
  | zero => simp [digits, value, Nat.mod_one]
  | succ width ih =>
    have more : 1 <<< (8 * (width + 1)) = 256 * 1 <<< (8 * width) := by
      rw [Nat.mul_succ, Nat.one_shiftLeft, Nat.one_shiftLeft, Nat.pow_add, Nat.mul_comm]
    rw [digits, value_concat, ih, more, Nat.mod_mul]
    simp [Nat.add_comm]

end BigEndian

end SubroutineVM
