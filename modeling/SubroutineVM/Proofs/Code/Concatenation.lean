import SubroutineVM.Proofs.Code.Neighbours

/-!
Codes one behind the other. Where the first of two codes does not end in a PUSH that is cut off, the
second is walked as if it stood alone, further back by the size of the first
(`instructions_append`), and its bytes are marked as they were (`isOpcodeOffset_append_right`).
-/
namespace SubroutineVM

namespace Instruction

def shift (distance : Nat) (i : Instruction) : Instruction := { i with offset := distance + i.offset }

theorem walk_shift (distance offset : Nat) (bytes : List UInt8) :
    walk (distance + offset) bytes = (walk offset bytes).map (shift distance) := by
  fun_induction walk offset bytes with
  | case1 => rw [walk, List.map_nil]
  | case2 offset b rest length ih =>
    rw [walk_cons, List.map_cons, ← ih, Nat.add_assoc, Nat.add_assoc, ← Nat.add_assoc offset]
    rfl

theorem walk_append_whole {offset : Nat} {front : List UInt8}
    (whole : ∀ i ∈ walk offset front, i.isTruncated = false) (rest : List UInt8) :
    walk offset (front ++ rest) = walk offset front ++ walk (offset + front.length) rest := by
  fun_induction walk offset front with
  | case1 => rfl
  | case2 offset b front length ih =>
    obtain ⟨first, later⟩ := List.forall_mem_cons.mp whole
    -- The immediate lies in front of the cut, so that the walk goes on in the same bytes.
    have room : length ≤ front.length := by
      have full : length ≤ (front.take length).length := isTruncated_eq_false_iff.mp first
      rw [List.length_take] at full
      omega
    have behind : offset + 1 + length + (front.drop length).length =
        offset + (b :: front).length := by
      rw [List.length_drop, List.length_cons]
      omega
    rw [List.cons_append, List.cons_append, walk_cons, List.take_append_of_le_length room,
      List.drop_append_of_le_length room, ih later, behind]

end Instruction

namespace Code

def EndsWhole (c : Code) : Prop := ∀ i, c.instructions.getLast? = some i → i.isTruncated = false

variable {c d : Code} {offset : Nat} {op : Opcode}

theorem EndsWhole.every (whole : c.EndsWhole) : ∀ i ∈ c.instructions, i.isTruncated = false := by
  intro i member
  rw [← Bool.not_eq_true]
  intro cut
  rw [whole i (last_of_truncated member cut)] at cut
  cases cut

theorem instructions_append (whole : c.EndsWhole) :
    (c ++ d).instructions = c.instructions ++ d.instructions.map (Instruction.shift c.size) := by
  rw [instructions, toBytes_append, Instruction.walk_append_whole whole.every, instructions,
    instructions, ← Instruction.walk_shift, size_eq, Nat.zero_add, Nat.add_zero]

theorem isOpcodeOffset_append_right (whole : c.EndsWhole) :
    (c ++ d).isOpcodeOffset (c.size + offset) = d.isOpcodeOffset offset := by
  rw [Bool.eq_iff_iff, isOpcodeOffset_iff_exists, isOpcodeOffset_iff_exists,
    instructions_append whole]
  constructor
  · rintro ⟨i, member, place⟩
    rcases List.mem_append.mp member with before | behind
    · have inside := marked_lt_size (isOpcodeOffset_iff_exists.mpr ⟨i, before, rfl⟩)
      omega
    · obtain ⟨j, listed, rfl⟩ := List.mem_map.mp behind
      exact ⟨j, listed, Nat.add_left_cancel place⟩
  · rintro ⟨i, member, rfl⟩
    exact ⟨i.shift c.size, List.mem_append_right _ (List.mem_map_of_mem member), rfl⟩

theorem byte?_append_right : (c ++ d).byte? (c.size + offset) = d.byte? offset := by
  rw [byte?_eq, byte?_eq, toBytes_append, size_eq, List.getElem?_append_right (Nat.le_add_right _ _),
    Nat.add_sub_cancel_left]

theorem holds_append_right (whole : c.EndsWhole) :
    (c ++ d).holds (c.size + offset) op = d.holds offset op := by
  rw [holds, holds, isOpcodeOffset_append_right whole, byte?_append_right]

end Code

end SubroutineVM
