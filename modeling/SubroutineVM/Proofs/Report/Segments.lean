import Mathlib.Data.List.Sort
import SubroutineVM.Proofs.Report.Contents

/-!
The segments of a code. Its instructions lie end to end from its start to its end (`walk_tiles`), and
the marks, the walk and the tables of the report tell of the same places
(`marks_walk_and_tables_agree`).
-/
namespace SubroutineVM

namespace Instruction

/-- Each instruction begins where the one before it ends, the first one at `start`, and the last one
    ends at `stop`. -/
inductive Tiles : Nat → Nat → List Instruction → Prop where
  | nil (stop : Nat) : Tiles stop stop []
  | cons {start stop : Nat} {i : Instruction} {rest : List Instruction} (first : i.offset = start)
      (tail : Tiles i.next stop rest) : Tiles start stop (i :: rest)

theorem walk_tiles (offset : Nat) (bytes : List UInt8) :
    Tiles offset (offset + bytes.length) (walk offset bytes) := by
  fun_induction walk offset bytes with
  | case1 => exact .nil _
  | case2 offset b rest length ih =>
    refine .cons rfl ?_
    by_cases whole : length ≤ rest.length
    · have behind : (⟨offset, b, rest.take length⟩ : Instruction).next = offset + 1 + length := by
        rw [next, List.length_take_of_le whole]
      have ends : offset + 1 + length + (rest.drop length).length = offset + (b :: rest).length := by
        rw [List.length_drop, List.length_cons]
        omega
      rw [behind, ← ends]
      exact ih
    · -- The immediate is cut off, and with it the walk ends where the bytes do.
      have short : rest.length ≤ length := Nat.le_of_not_le whole
      have ends : (⟨offset, b, rest.take length⟩ : Instruction).next =
          offset + (b :: rest).length := by
        simp only [next, List.take_of_length_le short, List.length_cons]
        omega
      rw [List.drop_of_length_le short, walk, ends]
      exact .nil _

end Instruction

section Tables

variable {code : Code} {op : Opcode}

theorem mem_offsets_iff {offset : Nat} : offset ∈ code.instructions.map Instruction.offset ↔
    code.isOpcodeOffset offset = true := by
  rw [List.mem_map, Code.isOpcodeOffset_iff_exists]

theorem offsets_increasing (code : Code) :
    (code.instructions.map Instruction.offset).Pairwise (· < ·) := by
  rw [List.pairwise_map]
  exact Instruction.walk_increasing 0 code.toBytes

theorem whole_before_last : ∀ i ∈ code.instructions.dropLast,
    i.immediate.length = immediateLength i.byte := by
  intro i member
  obtain ⟨front, rest, split⟩ := List.append_of_mem member
  cases ends : code.instructions.getLast? with
  | none =>
    rw [List.getLast?_eq_none_iff.mp ends] at member
    cases member
  | some last =>
    have walked := List.dropLast_append_getLast? last ends
    rw [split, List.append_assoc, List.cons_append] at walked
    cases rest with
    | nil => exact Code.neighbour_whole walked.symm
    | cons j rest => exact Code.neighbour_whole walked.symm

theorem offsetsOf_eq (code : Code) (op : Opcode) : Issue.offsetsOf op code.instructions =
    (List.range code.size).filter fun offset => code.holds offset op := by
  have listed : (Issue.offsetsOf op code.instructions).Pairwise (· < ·) :=
    Issue.offsetsOf_increasing op (Instruction.walk_increasing 0 code.toBytes)
  refine listed.eq_of_mem_iff (List.pairwise_lt_range.filter _) ?_
  intro offset
  rw [mem_offsetsOf_iff, List.mem_filter, List.mem_range]
  constructor
  · intro held
    exact ⟨Code.marked_lt_size (Code.holds_iff.mp held).1, held⟩
  · exact And.right

theorem holds_outside {offset : Nat} (outside : code.size ≤ offset) :
    code.holds offset op = false := by
  rw [← Bool.not_eq_true]
  intro held
  exact absurd (Code.marked_lt_size (Code.holds_iff.mp held).1) (Nat.not_lt.mpr outside)

end Tables

/-- The instruction walk, the marks and the tables of the report cut bytes at the same places. The
    instructions of the walk hold all bytes in their order, with nothing between them; it goes up
    from marked byte to marked byte and misses none; and the tables list where jumps and calls may
    land. -/
theorem marks_walk_and_tables_agree (bytes : List UInt8) :
    (Code.ofBytes bytes).instructions.flatMap Instruction.toBytes = bytes ∧
    let code := Code.ofBytes bytes
    let offsets := code.instructions.map Instruction.offset
    offsets.Pairwise (· < ·) ∧
    (∀ offset, offset ∈ offsets ↔ code.isOpcodeOffset offset = true) ∧
    Instruction.Tiles 0 bytes.length code.instructions ∧
    (∀ i ∈ code.instructions, i.immediate.length ≤ immediateLength i.byte) ∧
    (∀ i ∈ code.instructions.dropLast, i.immediate.length = immediateLength i.byte) ∧
    (analyze code).jumpDestinations = (List.range bytes.length).filter code.isJumpDestination ∧
    (analyze code).subroutineEntries = (List.range bytes.length).filter code.isSubroutineEntry ∧
    ∀ offset, bytes.length ≤ offset →
      code.isJumpDestination offset = false ∧ code.isSubroutineEntry offset = false := by
  refine ⟨Instruction.walk_toBytes 0 bytes, ?_⟩
  intro code offsets
  have tiles := Instruction.walk_tiles 0 bytes
  rw [Nat.zero_add] at tiles
  refine ⟨offsets_increasing code, fun _ => mem_offsets_iff, tiles,
    Instruction.walk_fits, whole_before_last, offsetsOf_eq code .jumpdest,
    offsetsOf_eq code .beginsub, ?_⟩
  intro offset outside
  exact ⟨holds_outside outside, holds_outside outside⟩

theorem segments_up_to_cut_off_push :
    let bytes : List UInt8 := [0x60, 0x5b, 0x5b, 0xb2, 0x61, 0x01]
    let code := Code.ofBytes bytes
    let push : Instruction := ⟨0, 0x60, [0x5b]⟩
    push ∈ code.instructions ∧ push.immediate.length ≤ immediateLength push.byte ∧
    push ∈ code.instructions.dropLast ∧ push.immediate.length = immediateLength push.byte ∧
    Instruction.Tiles 0 6 code.instructions ∧
    (analyze code).jumpDestinations = [2] ∧ (analyze code).subroutineEntries = [3] ∧
    6 ≤ 0xffffffffffffffff ∧ code.isJumpDestination 0xffffffffffffffff = false ∧
      code.isSubroutineEntry 0xffffffffffffffff = false := by
  intro bytes code push
  have member : push ∈ code.instructions := by decide +kernel
  have before : push ∈ code.instructions.dropLast := by decide +kernel
  obtain ⟨-, -, -, tiles, fits, whole, destinations, entries, outside⟩ :=
    marks_walk_and_tables_agree bytes
  exact ⟨member, fits push member, before, whole push before, tiles,
    destinations.trans (by decide), entries.trans (by decide), by decide,
    outside 0xffffffffffffffff (by decide)⟩

end SubroutineVM
