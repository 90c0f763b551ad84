import SubroutineVM.Text.Blank
import SubroutineVM.Text.Quoted

/-!
Bytes written as hex, two digits a byte. Writing gives lower-case digits. Reading takes either
case, white space around the digits and one leading `0x` or `0X`.
-/
namespace SubroutineVM.Hex

inductive Error where
  | oddLength
  | strayByte (byte : UInt8) (position : Nat)
  deriving DecidableEq

def Error.message : Error → String
  | .oddLength => "invalid hex: Odd number of digits"
  | .strayByte byte position =>
    "invalid hex: Invalid character " ++ Quoted.byte byte ++ " at position " ++ toString position

def byteDigits (b : UInt8) : List Char :=
  [Nat.digitChar (b.toNat / 16), Nat.digitChar (b.toNat % 16)]

def encodeChars (bytes : List UInt8) : List Char := bytes.flatMap byteDigits

def encode (bytes : List UInt8) : String := String.ofList (encodeChars bytes)

def byteText (b : UInt8) : String := "0x" ++ encode [b]

def digit? (b : UInt8) : Option Nat := Digits.hex? (Char.ofNat b.toNat)

def stray? : Nat → List UInt8 → Option (UInt8 × Nat)
  | _, [] => none
  | position, b :: rest =>
    if (digit? b).isSome then stray? (position + 1) rest else some (b, position)

def join : List UInt8 → List UInt8
  | high :: low :: rest =>
    UInt8.ofNat (16 * (digit? high).getD 0 + (digit? low).getD 0) :: join rest
  | _ => []

def decode (digits : List UInt8) : Except Error (List UInt8) :=
  if digits.length % 2 = 1 then .error .oddLength
  else match stray? 0 digits with
    | some (b, position) => .error (.strayByte b position)
    | none => .ok (join digits)

def bare (text : List Char) : List Char :=
  match Blank.trim text with
  | '0' :: 'x' :: rest => rest
  | '0' :: 'X' :: rest => rest
  | trimmed => trimmed

/-- Positions count the UTF-8 bytes of the bare text. -/
def read (text : String) : Except Error (List UInt8) :=
  decode ((bare text.toList).flatMap String.utf8EncodeChar)

end SubroutineVM.Hex
