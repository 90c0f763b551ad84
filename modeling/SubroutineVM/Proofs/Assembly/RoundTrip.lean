import SubroutineVM.Proofs.Assembly.Listing

/-!
Listings read back. The listing of a code assembles to that code, a last PUSH that is cut off
getting its full width, and no two codes have one listing (`listing_round_trip`).
-/
namespace SubroutineVM.Assembly

/-- Every listing can be assembled. A last PUSH that is cut off comes back with zeros in front of
    the bytes that were left of its immediate, and everything else comes back as it was. The comment
    behind such a PUSH and the number of its digits keep listings apart all the same. -/
theorem listing_round_trip (c : Code) :
    (∃ d, assemble (disassemble c) = .ok d) ∧
    ((∀ i, c.instructions.getLast? = some i → i.isTruncated = false) →
      assemble (disassemble c) = .ok c) ∧
    (∀ (i : Instruction) (n : Fin 32), c.instructions.getLast? = some i →
      i.opcode? = some (.push n) → i.immediate.length < n + 1 →
      assemble (disassemble c) = .ok (.ofBytes (c.toBytes.take i.offset ++
        [(Opcode.push n).toByte] ++ List.replicate (n + 1 - i.immediate.length) 0 ++
          i.immediate))) ∧
    Function.Injective disassemble := by
  refine ⟨⟨_, assemble_disassemble c⟩, assemble_disassemble_of_whole, ?_, disassemble_injective⟩
  · intro i n ends known short
    have byte := Opcode.toByte_of_ofByte? known
    have width := immediateLength_of_known known
    obtain ⟨-, filled⟩ := Instruction.walk_last ends
    rw [assemble_disassemble, Code.instructions, filled, Instruction.filled, width, byte]
    simp only [Opcode.immediateLength, List.append_assoc, List.cons_append, List.nil_append]

theorem cut_off_push_comes_back_whole :
    assemble (disassemble (.ofBytes [0xb3, 0x62, 0x01])) =
      .ok (.ofBytes ([0xb3] ++ [0x62] ++ [0x00, 0x00] ++ [0x01])) ∧
    assemble (disassemble (.ofBytes [0xfe, 0x62, 0x00, 0x00, 0x01])) =
      .ok (.ofBytes [0xfe, 0x62, 0x00, 0x00, 0x01]) := by
  constructor
  · obtain ⟨-, -, cut, -⟩ := listing_round_trip (.ofBytes [0xb3, 0x62, 0x01])
    exact cut ⟨1, 0x62, [0x01]⟩ 2 (by decide +kernel) rfl (by decide)
  · obtain ⟨-, whole, -⟩ := listing_round_trip (.ofBytes [0xfe, 0x62, 0x00, 0x00, 0x01])
    refine whole ?_
    intro i ends
    have last : (Code.ofBytes [0xfe, 0x62, 0x00, 0x00, 0x01]).instructions.getLast? =
        some ⟨1, 0x62, [0x00, 0x00, 0x01]⟩ := by decide +kernel
    cases last.symm.trans ends
    rfl

end SubroutineVM.Assembly
