import SubroutineVM.Digits
import SubroutineVM.Text.Blank
import SubroutineVM.Text.Uppercase

/-!
The tokens of an assembly line. A semicolon starts a comment, white space separates words, and a
word is a number or a name; names are folded to upper case.
-/
namespace SubroutineVM.Assembly

inductive Token where
  | name (text : String)
  | number (value : Nat)
  deriving DecidableEq

def Token.text : Token → String
  | .name text => text
  | .number value => toString value

/-- The digits behind the marker of a hex number: some characters, of which a second `0x` does not
    count and at most 64 others are digits. -/
def hexNumber? (digits : List Char) : Option Nat :=
  match digits with
  | [] => none
  | '0' :: 'x' :: rest => read rest
  | _ => read digits
where
  read (digits : List Char) : Option Nat :=
    if digits.length ≤ 64 then Digits.read? 16 Digits.hex? digits else none

def decimalNumber? (digits : List Char) : Option Nat :=
  (Digits.read? 10 Digits.decimal? digits).filter (· < 1 <<< 256)

def Token.ofWord? (word : List Char) : Option Token :=
  match word with
  | '0' :: 'x' :: digits => (hexNumber? digits).map .number
  | '0' :: 'X' :: digits => (hexNumber? digits).map .number
  | _ =>
    if (word.head?.bind Digits.decimal?).isSome then (decimalNumber? word).map .number
    else some (.name (String.ofList (Uppercase.text word)))

def lineWords (line : List Char) : List (List Char) := Blank.words (line.takeWhile (· ≠ ';'))

end SubroutineVM.Assembly
