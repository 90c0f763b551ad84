import SubroutineVM.Code

/-!
What can be said against a code without running it, and the checks that find it. Each check is a
scan of the instruction walk.
-/
namespace SubroutineVM

inductive Issue where
  /-- A BEGINSUB that the instruction before it, or the start of the code, leads into. -/
  | fallThroughIntoSubroutine (offset : Nat)
  | undefinedOpcode (offset : Nat) (byte : UInt8)
  | truncatedPush (offset : Nat)
  /-- A BEGINSUB that no PUSH directly before a JUMPSUB names. -/
  | unreachableSubroutine (offset : Nat)
  deriving DecidableEq

namespace Issue

def offset : Issue → Nat
  | .fallThroughIntoSubroutine offset => offset
  | .undefinedOpcode offset _ => offset
  | .truncatedPush offset => offset
  | .unreachableSubroutine offset => offset

def isError : Issue → Bool
  | .fallThroughIntoSubroutine _ | .truncatedPush _ => true
  | .undefinedOpcode .. | .unreachableSubroutine _ => false

def kind : Issue → String
  | .fallThroughIntoSubroutine _ => "fallThroughIntoSubroutine"
  | .undefinedOpcode .. => "undefinedOpcode"
  | .truncatedPush _ => "truncatedPush"
  | .unreachableSubroutine _ => "unreachableSubroutine"

def message : Issue → String
  | .fallThroughIntoSubroutine offset =>
    "fall-through into BEGINSUB at offset " ++ toString offset
  | .undefinedOpcode offset byte =>
    "undefined opcode " ++ Hex.byteText byte ++ " at offset " ++ toString offset
  | .truncatedPush offset => "truncated PUSH at offset " ++ toString offset
  | .unreachableSubroutine offset =>
    "subroutine at offset " ++ toString offset ++ " is never called directly"

def structural? (i : Instruction) : Option Issue :=
  match i.opcode? with
  | none => some (.undefinedOpcode i.offset i.byte)
  | some _ => if i.isTruncated then some (.truncatedPush i.offset) else none

/-- Whether execution can go on from an instruction to the one behind it, or from the start to the
    first. An undefined byte aborts. -/
def continues : Option Instruction → Bool
  | none => true
  | some i =>
    match i.opcode? with
    | none => false
    | some op => !op.isTerminator

def fallThroughs (before : Option Instruction) : List Instruction → List Issue
  | [] => []
  | i :: rest =>
    if i.opcode? = some .beginsub ∧ continues before then
      .fallThroughIntoSubroutine i.offset :: fallThroughs (some i) rest
    else fallThroughs (some i) rest

/-- The number that a pair of neighbours calls, be there an entry or not: that of a whole PUSH
    before a JUMPSUB. Numbers that are no entries make no difference to the report
    (`uncalled_by_entries`). -/
def callTarget? (first second : Instruction) : Option Nat :=
  match first.opcode?, second.opcode? with
  | some (.push _), some .jumpsub =>
    if first.isTruncated then none else some (BigEndian.value first.immediate)
  | _, _ => none

def callTargets : List Instruction → List Nat
  | first :: second :: rest =>
    (callTarget? first second).toList ++ callTargets (second :: rest)
  | _ => []

def offsetsOf (op : Opcode) (instructions : List Instruction) : List Nat :=
  (instructions.filter (·.opcode? = some op)).map Instruction.offset

def uncalled (instructions : List Instruction) : List Nat :=
  let called := callTargets instructions
  (offsetsOf .beginsub instructions).filter (!called.contains ·)

/-- All issues in the order of their offsets. At one offset structural issues come first and
    uncalled entries last. -/
def all (instructions : List Instruction) : List Issue :=
  let found := instructions.filterMap structural? ++ fallThroughs none instructions ++
    (uncalled instructions).map .unreachableSubroutine
  found.mergeSort fun a b => a.offset ≤ b.offset

end Issue

end SubroutineVM
