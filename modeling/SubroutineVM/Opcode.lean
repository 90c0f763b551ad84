import SubroutineVM.Hex
import SubroutineVM.Word

/-!
The instruction set: opcodes, their bytes and names, and for each its stack effect, its gas and
its immediate bytes. Main statements: bytes and opcodes determine each other
(`ofByte?_toByte`, `toByte_of_ofByte?`), and so do names and opcodes (`ofMnemonic?_mnemonic`).
-/
namespace SubroutineVM

/-- `push n`, `dup n` and `swap n` are the instructions numbered `n + 1`. -/
inductive Opcode where
  | stop
  | binary (op : Binary)
  | unary (op : Unary)
  | pop | jump | jumpi | pc | gas | jumpdest
  | push (n : Fin 32)
  | dup (n : Fin 16)
  | swap (n : Fin 16)
  | beginsub | jumpsub | returnsub
  deriving DecidableEq

namespace Opcode

def toByte : Opcode → UInt8
  | .stop => 0x00
  | .binary .add => 0x01
  | .binary .mul => 0x02
  | .binary .sub => 0x03
  | .binary .div => 0x04
  | .binary .mod => 0x06
  | .binary .lt => 0x10
  | .binary .gt => 0x11
  | .binary .eq => 0x14
  | .unary .isZero => 0x15
  | .binary .and => 0x16
  | .binary .or => 0x17
  | .binary .xor => 0x18
  | .unary .not => 0x19
  | .pop => 0x50
  | .jump => 0x56
  | .jumpi => 0x57
  | .pc => 0x58
  | .gas => 0x5a
  | .jumpdest => 0x5b
  | .push n => UInt8.ofNat (0x60 + n)
  | .dup n => UInt8.ofNat (0x80 + n)
  | .swap n => UInt8.ofNat (0x90 + n)
  | .beginsub => 0xb2
  | .jumpsub => 0xb3
  | .returnsub => 0xb7

def ofByte? (b : UInt8) : Option Opcode :=
  match b.toNat with
  | 0x00 => some .stop
  | 0x01 => some (.binary .add)
  | 0x02 => some (.binary .mul)
  | 0x03 => some (.binary .sub)
  | 0x04 => some (.binary .div)
  | 0x06 => some (.binary .mod)
  | 0x10 => some (.binary .lt)
  | 0x11 => some (.binary .gt)
  | 0x14 => some (.binary .eq)
  | 0x15 => some (.unary .isZero)
  | 0x16 => some (.binary .and)
  | 0x17 => some (.binary .or)
  | 0x18 => some (.binary .xor)
  | 0x19 => some (.unary .not)
  | 0x50 => some .pop
  | 0x56 => some .jump
  | 0x57 => some .jumpi
  | 0x58 => some .pc
  | 0x5a => some .gas
  | 0x5b => some .jumpdest
  | 0xb2 => some .beginsub
  | 0xb3 => some .jumpsub
  | 0xb7 => some .returnsub
  | n =>
    if h : 0x60 ≤ n ∧ n < 0x80 then some (.push ⟨n - 0x60, by omega⟩)
    else if h : 0x80 ≤ n ∧ n < 0x90 then some (.dup ⟨n - 0x80, by omega⟩)
    else if h : 0x90 ≤ n ∧ n < 0xa0 then some (.swap ⟨n - 0x90, by omega⟩)
    else none

def undefinedMessage (b : UInt8) : String := "undefined opcode: " ++ Hex.byteText b

def all : List Opcode := (List.range 256).filterMap fun n => ofByte? (UInt8.ofNat n)

def mnemonic : Opcode → String
  | .stop => "STOP"
  | .binary .add => "ADD"
  | .binary .mul => "MUL"
  | .binary .sub => "SUB"
  | .binary .div => "DIV"
  | .binary .mod => "MOD"
  | .binary .lt => "LT"
  | .binary .gt => "GT"
  | .binary .eq => "EQ"
  | .unary .isZero => "ISZERO"
  | .binary .and => "AND"
  | .binary .or => "OR"
  | .binary .xor => "XOR"
  | .unary .not => "NOT"
  | .pop => "POP"
  | .jump => "JUMP"
  | .jumpi => "JUMPI"
  | .pc => "PC"
  | .gas => "GAS"
  | .jumpdest => "JUMPDEST"
  | .push n => "PUSH" ++ toString (n.val + 1)
  | .dup n => "DUP" ++ toString (n.val + 1)
  | .swap n => "SWAP" ++ toString (n.val + 1)
  | .beginsub => "BEGINSUB"
  | .jumpsub => "JUMPSUB"
  | .returnsub => "RETURNSUB"

def undefinedName : String := "INVALID"

def name? : Option Opcode → String
  | some op => op.mnemonic
  | none => undefinedName

def ofMnemonic? (name : String) : Option Opcode := all.find? (·.mnemonic = name)

def immediateLength : Opcode → Nat
  | .push n => n + 1
  | _ => 0

/-- How many items the instruction needs on the data stack. DUP and SWAP count all the items they
    look through. -/
def stackInputs : Opcode → Nat
  | .stop | .pc | .gas | .jumpdest | .push _ | .beginsub | .returnsub => 0
  | .unary _ | .pop | .jump | .jumpsub => 1
  | .binary _ | .jumpi => 2
  | .dup n => n + 1
  | .swap n => n + 2

def stackOutputs : Opcode → Nat
  | .stop | .pop | .jump | .jumpi | .jumpdest | .beginsub | .jumpsub | .returnsub => 0
  | .binary _ | .unary _ | .pc | .gas | .push _ => 1
  | .dup n => n + 2
  | .swap n => n + 2

def cost : Opcode → Nat
  | .stop => 0
  | .jumpdest | .beginsub => 1
  | .pop | .pc | .gas | .returnsub => 2
  | .binary .mul | .binary .div | .binary .mod => 5
  | .binary _ | .unary _ | .push _ | .dup _ | .swap _ => 3
  | .jump | .jumpsub => 8
  | .jumpi => 10

def isTerminator : Opcode → Bool
  | .stop | .jump | .returnsub => true
  | _ => false

theorem ofByte?_toByte (op : Opcode) : ofByte? op.toByte = some op := by
  cases op with
  | binary op => cases op <;> rfl
  | unary op => cases op <;> rfl
  | push n => revert n; decide
  | dup n => revert n; decide
  | swap n => revert n; decide
  | _ => rfl

theorem toByte_of_ofByte? {b : UInt8} {op : Opcode} (h : ofByte? b = some op) : op.toByte = b := by
  have every : ∀ n : Fin 256, ∀ found ∈ ofByte? (UInt8.ofNat n), found.toByte = UInt8.ofNat n := by
    decide +kernel
  have here := every ⟨b.toNat, b.toNat_lt⟩ op
  simp only [UInt8.ofNat_toNat] at here
  exact here h

theorem ofMnemonic?_mnemonic (op : Opcode) : ofMnemonic? op.mnemonic = some op := by
  cases op with
  | binary op => cases op <;> decide +kernel
  | unary op => cases op <;> decide +kernel
  | push n => revert n; decide +kernel
  | dup n => revert n; decide +kernel
  | swap n => revert n; decide +kernel
  | _ => decide +kernel

end Opcode

end SubroutineVM
