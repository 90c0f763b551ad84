import Mathlib.Order.Bounds.Basic
import SubroutineVM.Proofs.Code.Extension
import SubroutineVM.Proofs.Code.Instructions

/-!
The instructions of a code and its marks. An instruction of the walk is a marked byte with what
follows it (`mem_instructions_iff`). Of two neighbours in the walk the second begins behind the
whole immediate of the first (`offset_of_neighbour`), and the first is at the greatest marked
offset below the second (`neighbour_isGreatest`).
-/
namespace SubroutineVM

theorem Instruction.walk_marked {offset : Nat} {bytes : List UInt8} :
    ∀ i ∈ walk offset bytes, ∃ k, i.offset = offset + k ∧
      (opcodeMarks 0 bytes)[k]? = some true ∧ bytes[k]? = some i.byte ∧
      i.immediate = (bytes.drop (k + 1)).take (immediateLength i.byte) := by
  fun_induction walk offset bytes with
  | case1 => simp
  | case2 offset b rest length ih =>
    intro i member
    rcases List.mem_cons.mp member with rfl | later
    · exact ⟨0, rfl, rfl, rfl, rfl⟩
    · obtain ⟨k, place, marked, here, immediate⟩ := ih i later
      refine ⟨length + k + 1, by omega, ?_, ?_, ?_⟩
      · rw [marked_cons]
        exact ⟨Nat.le_add_right _ _, by rwa [Nat.add_sub_cancel_left]⟩
      · rwa [List.getElem?_cons_succ, ← List.getElem?_drop]
      · rw [immediate, List.drop_succ_cons, List.drop_drop, Nat.add_assoc]

theorem Instruction.walk_increasing (offset : Nat) (bytes : List UInt8) :
    (walk offset bytes).Pairwise fun i j => i.offset < j.offset := by
  fun_induction walk offset bytes with
  | case1 => exact .nil
  | case2 offset b rest length ih =>
    refine .cons ?_ ih
    intro i member
    have bounds := walk_bounds i member
    simp only
    omega

namespace Code

variable {c : Code} {i j : Instruction} {front rest : List Instruction} {offset : Nat}
  {op : Opcode}

theorem mem_instructions_iff : i ∈ c.instructions ↔ c.isOpcodeOffset i.offset = true ∧
    c.byte? i.offset = some i.byte ∧
      i.immediate = c.slice (i.offset + 1) (immediateLength i.byte) := by
  rw [slice_eq]
  constructor
  · intro member
    obtain ⟨k, place, marked, here, immediate⟩ := Instruction.walk_marked i member
    rw [Nat.zero_add] at place
    rw [isOpcodeOffset_iff, byte?_eq, place]
    exact ⟨marked, here, immediate⟩
  · rintro ⟨marked, here, immediate⟩
    rw [instructions_split marked, walk_drop here, ← immediate]
    exact List.mem_append_right _ List.mem_cons_self

theorem instruction_at {byte : UInt8} (marked : c.isOpcodeOffset offset = true)
    (here : c.byte? offset = some byte) :
    ∃ i ∈ c.instructions, i.offset = offset ∧ i.byte = byte :=
  ⟨⟨offset, byte, c.slice (offset + 1) (immediateLength byte)⟩,
    mem_instructions_iff.mpr ⟨marked, here, rfl⟩, rfl, rfl⟩

theorem opcode?_of_mem (member : i ∈ c.instructions) : c.opcode? i.offset = i.opcode? := by
  obtain ⟨-, here, -⟩ := mem_instructions_iff.mp member
  rw [opcode?, here]
  rfl

theorem holds_iff_exists :
    c.holds offset op = true ↔ ∃ i ∈ c.instructions, i.opcode? = some op ∧ i.offset = offset := by
  rw [holds_iff]
  constructor
  · rintro ⟨marked, fetched⟩
    obtain ⟨i, member, rfl, -⟩ := instruction_at marked (opcode?_eq_some_iff.mp fetched)
    exact ⟨i, member, (opcode?_of_mem member).symm.trans fetched, rfl⟩
  · rintro ⟨i, member, known, rfl⟩
    exact ⟨(mem_instructions_iff.mp member).1, (opcode?_of_mem member).trans known⟩

theorem isOpcodeOffset_iff_exists :
    c.isOpcodeOffset offset = true ↔ ∃ i ∈ c.instructions, i.offset = offset := by
  constructor
  · intro marked
    obtain ⟨b, here⟩ := byte?_of_marked marked
    obtain ⟨i, member, place, -⟩ := instruction_at marked here
    exact ⟨i, member, place⟩
  · rintro ⟨i, member, rfl⟩
    exact (mem_instructions_iff.mp member).1

theorem offset_of_first (walked : c.instructions = i :: rest) : i.offset = 0 := by
  have first : Instruction.walk 0 c.toBytes = [] ++ i :: rest := walked
  exact Instruction.walk_offset first

theorem neighbour_whole (walked : c.instructions = front ++ i :: j :: rest) :
    i.immediate.length = immediateLength i.byte := by
  have member : i ∈ c.instructions := by simp [walked]
  rw [List.append_cons] at walked
  have whole := Instruction.walk_whole walked i (by simp)
  exact Nat.le_antisymm (Instruction.walk_fits i member)
    (Instruction.isTruncated_eq_false_iff.mp whole)

theorem truncated_iff_push (member : i ∈ c.instructions) {n : Fin 32}
    (push : i.opcode? = some (.push n)) :
    i.isTruncated = true ↔ c.size ≤ i.offset + (n + 1) := by
  obtain ⟨marked, -, immediate⟩ := mem_instructions_iff.mp member
  have inside := marked_lt_size marked
  rw [Instruction.isTruncated, decide_eq_true_eq, immediate, immediateLength_of_known push,
    slice_eq, List.length_take, List.length_drop, ← size_eq, Opcode.immediateLength]
  omega

theorem last_of_truncated (member : i ∈ c.instructions) (cut : i.isTruncated = true) :
    c.instructions.getLast? = some i := by
  obtain ⟨front, rest, walked⟩ := List.append_of_mem member
  cases rest with
  | nil => rw [walked, List.getLast?_concat]
  | cons j rest =>
    have whole := Instruction.isTruncated_eq_false_iff.mpr
      (Nat.le_of_eq (neighbour_whole walked).symm)
    rw [whole] at cut
    cases cut

theorem offset_of_neighbour (walked : c.instructions = front ++ i :: j :: rest) :
    j.offset = i.offset + 1 + immediateLength i.byte := by
  have first := Instruction.walk_offset walked
  have whole := neighbour_whole walked
  rw [List.append_cons] at walked
  have second := Instruction.walk_offset walked
  rw [List.flatMap_append, List.flatMap_singleton, List.length_append, Instruction.toBytes,
    List.length_cons, whole] at second
  omega

theorem neighbour_isGreatest (walked : c.instructions = front ++ i :: j :: rest) :
    IsGreatest {offset | c.isOpcodeOffset offset = true ∧ offset < j.offset} i.offset := by
  have member : i ∈ c.instructions := by simp [walked]
  have behind := offset_of_neighbour walked
  constructor
  · exact ⟨(mem_instructions_iff.mp member).1, by omega⟩
  · rintro offset ⟨marked, below⟩
    have outside := marked_outside (.inr marked) i member
    rw [Instruction.next, neighbour_whole walked] at outside
    omega

theorem exists_neighbour {b : UInt8} (marked : c.isOpcodeOffset offset = true)
    (here : c.byte? offset = some b)
    (next : c.isOpcodeOffset (offset + 1 + immediateLength b) = true) :
    ∃ front j rest, j.offset = offset + 1 + immediateLength b ∧ c.instructions =
      front ++ ⟨offset, b, c.slice (offset + 1) (immediateLength b)⟩ :: j :: rest := by
  obtain ⟨b', behind⟩ := byte?_of_marked next
  rw [instructions_split marked, walk_drop here, walk_drop behind, slice_eq]
  exact ⟨_, _, _, rfl, rfl⟩

theorem behind_le_marked {place : Nat} (marked : c.isOpcodeOffset offset = true)
    (fetched : c.opcode? offset = some op) (next : c.isOpcodeOffset place = true)
    (before : offset < place) : offset + 1 + op.immediateLength ≤ place := by
  obtain ⟨i, member, rfl, byte⟩ := instruction_at marked (opcode?_eq_some_iff.mp fetched)
  have outside := marked_outside (.inr next) i member
  have inside := marked_lt_size next
  obtain ⟨-, -, immediate⟩ := mem_instructions_iff.mp member
  rw [Instruction.next, immediate, slice_eq, List.length_take, List.length_drop, ← size_eq, byte,
    immediateLength_toByte] at outside
  omega

theorem next_isGreatest (marked : c.isOpcodeOffset offset = true)
    (fetched : c.opcode? offset = some op)
    (next : c.isOpcodeOffset (offset + 1 + op.immediateLength) = true) :
    IsGreatest {p | c.isOpcodeOffset p = true ∧ p < offset + 1 + op.immediateLength} offset := by
  rw [← immediateLength_toByte op] at next ⊢
  obtain ⟨front, j, rest, behind, walked⟩ :=
    exists_neighbour marked (opcode?_eq_some_iff.mp fetched) next
  rw [← behind]
  exact neighbour_isGreatest walked

end Code

end SubroutineVM
