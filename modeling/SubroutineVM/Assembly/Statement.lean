import SubroutineVM.Assembly.Token
import SubroutineVM.Opcode

/-!
Statements: what one line of assembly says, and the bytes that it stands for. A statement is an
opcode without immediate, a PUSH with its value, or an undefined byte behind `INVALID`.
-/
namespace SubroutineVM.Assembly

/-- What can be wrong with a line. An opcode left out stands for `INVALID`. -/
inductive Problem where
  | unknownOpcode (token : String)
  | missingArgument (opcode? : Option Opcode) (expected : Nat)
  | invalidNumber (token : String)
  | valueTooLarge (n : Fin 32)
  | unexpectedToken (token : String)
  deriving DecidableEq

def Problem.message : Problem → String
  | .unknownOpcode token => "unknown opcode '" ++ token ++ "'"
  | .missingArgument opcode? expected =>
    Opcode.name? opcode? ++ " expects " ++ toString expected ++ " argument(s)"
  | .invalidNumber token => "invalid number '" ++ token ++ "'"
  | .valueTooLarge n =>
    "value does not fit in " ++ (Opcode.push n).mnemonic ++ " (" ++ toString (n.val + 1) ++
      " byte(s))"
  | .unexpectedToken token => "unexpected token '" ++ token ++ "'"

inductive Statement where
  | plain (op : Opcode)
  | push (n : Fin 32) (value : Nat)
  | undefined (byte : UInt8)
  deriving DecidableEq

namespace Statement

def encode : Statement → List UInt8
  | .plain op => [op.toByte]
  | .push n value => (Opcode.push n).toByte :: BigEndian.digits (n + 1) value
  | .undefined byte => [byte]

def noArgument : List Token → Except Problem Unit
  | [] => .ok ()
  | token :: _ => .error (.unexpectedToken token.text)

def numberArgument (opcode? : Option Opcode) : List Token → Except Problem Nat
  | [] => .error (.missingArgument opcode? 1)
  | .name text :: _ => .error (.unexpectedToken text)
  | .number value :: rest => (noArgument rest).map fun _ => value

def ofByteValue (value : Nat) : Except Problem Statement :=
  if 255 < value then .error (.invalidNumber (Digits.hexText value))
  else if (Opcode.ofByte? (UInt8.ofNat value)).isSome then
    .error (.unexpectedToken (Digits.hexText value))
  else .ok (.undefined (UInt8.ofNat value))

def ofTokens : List Token → Except Problem (Option Statement)
  | [] => .ok none
  | .number value :: _ => .error (.unexpectedToken (toString value))
  | .name text :: arguments =>
    if text = Opcode.undefinedName then do
      let value ← numberArgument none arguments
      return some (← ofByteValue value)
    else match Opcode.ofMnemonic? text with
      | none => .error (.unknownOpcode text)
      | some (.push n) => do
        let value ← numberArgument (some (.push n)) arguments
        if value < 1 <<< (8 * (n.val + 1)) then return some (.push n value)
        else .error (.valueTooLarge n)
      | some op => do
        noArgument arguments
        return some (.plain op)

/-- The first word that gives no token wins over every other problem of its line. -/
def ofLine (line : List Char) : Except Problem (Option Statement) := do
  let tokens ← (lineWords line).mapM fun word =>
    match Token.ofWord? word with
    | some token => .ok token
    | none => .error (.invalidNumber (String.ofList word))
  ofTokens tokens

end Statement

end SubroutineVM.Assembly
