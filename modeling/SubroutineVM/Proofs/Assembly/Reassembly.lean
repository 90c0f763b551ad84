import SubroutineVM.Proofs.Assembly.Listing
import SubroutineVM.Proofs.Machine.LastPush

/-!
Runs of a code and of what its listing assembles to. They end alike, but for the word that a PUSH
pushes whose immediate is cut off: a run takes the bytes that are there for the high ones, the
assembler for the low ones. Main statements: `reassembly_keeps_meaning`, and a code whose
reassembly leaves another word (`reassembly_moves_cut_off_immediate`).
-/
namespace SubroutineVM.Assembly

section CutOff

variable {code : Code} {i : Instruction} {n : Fin 32}

theorem reassembly_of_cut_off (last : code.instructions.getLast? = some i)
    (known : i.opcode? = some (.push n)) : ∃ front : Code, front.EndsInPush i.offset n ∧
      code = front ++ .ofBytes i.immediate ∧
      assemble (disassemble code) = .ok (front ++ .ofBytes
        (List.replicate (n + 1 - i.immediate.length) 0 ++ i.immediate)) := by
  have member := List.mem_of_getLast? last
  obtain ⟨marked, -, -⟩ := Code.mem_instructions_iff.mp member
  have inside := Code.marked_lt_size marked
  obtain ⟨joined, filled⟩ := Instruction.walk_last last
  let front := Code.ofBytes (code.toBytes.take i.offset ++ [i.byte])
  have size : front.size = i.offset + 1 := by
    rw [Code.size_eq] at inside
    rw [Code.size_eq, Code.toBytes_ofBytes, List.length_append, List.length_take,
      List.length_singleton, Nat.min_eq_left (by omega)]
  have split : code = front ++ .ofBytes i.immediate := by
    apply Code.ext
    rw [Code.toBytes_append, Code.toBytes_ofBytes, Code.toBytes_ofBytes, List.append_assoc]
    exact joined.symm
  refine ⟨front, ⟨?_, size⟩, split, ?_⟩
  · have held := Code.holds_iff_exists.mpr ⟨i, member, known, rfl⟩
    rw [split, Code.holds_append_left (by rw [size]; omega)] at held
    exact held
  · rw [assemble_disassemble, Code.instructions, filled, Instruction.filled,
      immediateLength_of_known known]
    refine congrArg Except.ok (Code.ext ?_)
    rw [Code.toBytes_append, Code.toBytes_ofBytes, Code.toBytes_ofBytes, Code.toBytes_ofBytes,
      List.append_assoc]
    rfl

theorem last_immediate {front : Code} {offset : Nat} {bytes : List UInt8}
    (ends : front.EndsInPush offset n) (room : bytes.length ≤ n + 1) :
    ((front ++ .ofBytes bytes).immediate (offset + 1) (n + 1)).toNat =
      BigEndian.value bytes <<< (8 * (n + 1 - bytes.length)) := by
  have present : (front ++ .ofBytes bytes).slice (offset + 1) (n + 1) = bytes := by
    rw [← ends.size, Code.slice_append_right, Code.toBytes_ofBytes, List.take_of_length_le room]
  rw [Code.immediate_toNat _ _ (by omega), present]

theorem run_of_cut_off (member : i ∈ code.instructions) (cut : i.isTruncated = true) :
    ∃ again, assemble (disassemble code) = .ok again ∧ ∀ config : Config,
      (∀ fault, run code config = .error fault ↔ run again config = .error fault) ∧
      ∀ outcome, run code config = .ok outcome → ∃ stack pc,
        run again config = .ok ⟨outcome.gasUsed, stack, pc⟩ ∧
        ((∀ r ∈ stepRecords code config, r.pc ≠ i.offset) ∧ stack = outcome.stack ∨
          (∃ r ∈ stepRecords code config, r.pc = i.offset) ∧
          ∃ (top top' : Word) (below : List Word), outcome.stack.items = top :: below ∧
            stack.items = top' :: below ∧ top'.toNat = BigEndian.value i.immediate ∧
            top.toNat = top'.toNat <<< (8 * (immediateLength i.byte - i.immediate.length))) := by
  obtain ⟨n, known⟩ := push_of_truncated cut
  obtain ⟨front, ends, split, assembled⟩ :=
    reassembly_of_cut_off (Code.last_of_truncated member cut) known
  have width := immediateLength_of_known known
  have short : i.immediate.length < n + 1 := by
    rwa [Instruction.isTruncated, decide_eq_true_eq, width] at cut
  let filled : List UInt8 := List.replicate (n + 1 - i.immediate.length) 0 ++ i.immediate
  have length : filled.length = n + 1 := by
    rw [List.length_append, List.length_replicate]
    omega
  have size (bytes : List UInt8) : (Code.ofBytes bytes).size = bytes.length := Code.size_eq _
  have first := last_immediate ends (Nat.le_of_lt short)
  have second := last_immediate ends (Nat.le_of_eq length)
  rw [← split] at first
  rw [length, Nat.sub_self, Nat.mul_zero, Nat.shiftLeft_zero, BigEndian.value_zeros_append] at second
  refine ⟨_, assembled, ?_⟩
  intro config
  obtain ⟨aborts, halts⟩ := run_last_push (x := .ofBytes i.immediate) (y := .ofBytes filled) ends
    (by rw [size]; omega) (by rw [size]; omega) (by rw [size, size]; omega) config
  rw [← split] at aborts halts
  refine ⟨aborts, ?_⟩
  intro outcome succeeded
  obtain ⟨stack, pc, again, endings⟩ := halts outcome succeeded
  refine ⟨stack, pc, again, endings.imp_right ?_⟩
  intro carriedOut
  obtain ⟨met, below, here, there⟩ := carriedOut
  refine ⟨met, _, _, below, here, there, second, ?_⟩
  rw [first, second, width, Opcode.immediateLength]

end CutOff

/-- The reassembly of a code aborts just when the code does, in the same way, and halts with the
    same gas and the same data stack. Only where a run has carried out a PUSH that is cut off, the
    words on top differ by the zeros that it misses. -/
theorem reassembly_keeps_meaning (code : Code) :
    ∃ again, assemble (disassemble code) = .ok again ∧ ∀ config : Config,
      (∀ fault, run code config = .error fault ↔ run again config = .error fault) ∧
      ∀ outcome, run code config = .ok outcome → ∃ stack pc,
        run again config = .ok ⟨outcome.gasUsed, stack, pc⟩ ∧
        ((∀ i ∈ code.instructions, i.isTruncated = true →
          ∀ r ∈ stepRecords code config, r.pc ≠ i.offset) → stack = outcome.stack) ∧
        ∀ i ∈ code.instructions, i.isTruncated = true →
          ∀ r ∈ stepRecords code config, r.pc = i.offset →
            ∃ (top top' : Word) (below : List Word), outcome.stack.items = top :: below ∧
              stack.items = top' :: below ∧ top'.toNat = BigEndian.value i.immediate ∧
              top.toNat = top'.toNat <<< (8 * (immediateLength i.byte - i.immediate.length)) := by
  by_cases cutOff : ∃ i ∈ code.instructions, i.isTruncated = true
  · obtain ⟨i, member, cut⟩ := cutOff
    obtain ⟨again, assembled, runs⟩ := run_of_cut_off member cut
    refine ⟨again, assembled, ?_⟩
    intro config
    obtain ⟨aborts, halts⟩ := runs config
    refine ⟨aborts, ?_⟩
    intro outcome succeeded
    obtain ⟨stack, pc, here, endings⟩ := halts outcome succeeded
    refine ⟨stack, pc, here, ?_, ?_⟩
    · intro unmet
      rcases endings with ⟨-, same⟩ | ⟨⟨r, made, place⟩, -⟩
      · exact same
      · exact absurd place (unmet i member cut r made)
    · intro j member' cut' r made place
      -- There is only one instruction that can be cut off.
      cases (Code.last_of_truncated member cut).symm.trans (Code.last_of_truncated member' cut')
      rcases endings with ⟨unmet, -⟩ | ⟨-, moved⟩
      · exact absurd place (unmet r made)
      · exact moved
  · have whole : ∀ i ∈ code.instructions, i.isTruncated = false := by
      intro i member
      rw [← Bool.not_eq_true]
      intro cut
      exact cutOff ⟨i, member, cut⟩
    have assembled : assemble (disassemble code) = .ok code :=
      assemble_disassemble_of_whole fun i ends => whole i (List.mem_of_getLast? ends)
    refine ⟨code, assembled, ?_⟩
    intro config
    refine ⟨fun _ => Iff.rfl, ?_⟩
    intro outcome succeeded
    refine ⟨outcome.stack, outcome.pc, succeeded, fun _ => rfl, ?_⟩
    intro i member cut
    rw [whole i member] at cut
    cases cut

/-- A PUSH2 of one byte at the end of a code pushes 256, and 1 once the code is reassembled. -/
theorem reassembly_moves_cut_off_immediate :
    let code := Code.ofBytes [0x61, 0x01]
    ∃ again a b, assemble (disassemble code) = .ok again ∧ run code ⟨3, 1024⟩ = .ok a ∧
      run again ⟨3, 1024⟩ = .ok b ∧ a.stack = .ofItems [256] ∧ b.stack = .ofItems [1] ∧
      a.stack ≠ b.stack := by
  intro code
  have assembled : assemble (disassemble code) = .ok (.ofBytes [0x61, 0x00, 0x01]) := by
    decide +kernel
  have here : run code ⟨3, 1024⟩ = .ok ⟨3, .ofItems [256], 2⟩ := by
    rw [run_eq, Ending.result_eq_ok_iff]
    decide +kernel
  have there : run (.ofBytes [0x61, 0x00, 0x01]) ⟨3, 1024⟩ = .ok ⟨3, .ofItems [1], 3⟩ := by
    rw [run_eq, Ending.result_eq_ok_iff]
    decide +kernel
  exact ⟨_, _, _, assembled, here, there, rfl, rfl, by decide⟩

theorem reassembly_behind_stop_and_of_wide_push :
    let stopped := Code.ofBytes [0x60, 0x07, 0x00, 0x61]
    let pushed := Code.ofBytes [0x62, 0x01, 0x02]
    (∃ again pc, assemble (disassemble stopped) = .ok again ∧
      run again ⟨3, 1024⟩ = .ok ⟨3, .ofItems [7], pc⟩) ∧
    ∃ again stack pc, assemble (disassemble pushed) = .ok again ∧
      run again ⟨3, 1024⟩ = .ok ⟨3, stack, pc⟩ ∧
      ∃ top below, stack.items = top :: below ∧ top.toNat = 0x0102 := by
  intro stopped pushed
  have halted : run stopped ⟨3, 1024⟩ = .ok ⟨3, .ofItems [7], 2⟩ := by
    rw [run_eq, Ending.result_eq_ok_iff]
    decide +kernel
  have ended : run pushed ⟨3, 1024⟩ = .ok ⟨3, .ofItems [0x010200], 3⟩ := by
    rw [run_eq, Ending.result_eq_ok_iff]
    decide +kernel
  have cut : ⟨0, 0x62, [0x01, 0x02]⟩ ∈ pushed.instructions := by decide +kernel
  have carriedOut : ⟨0, .push 2, 3, .empty, .empty⟩ ∈ stepRecords pushed ⟨3, 1024⟩ := by
    decide +kernel
  have unmet : ∀ i ∈ stopped.instructions, i.isTruncated = true →
      ∀ r ∈ stepRecords stopped ⟨3, 1024⟩, r.pc ≠ i.offset := by decide +kernel
  constructor
  · obtain ⟨again, assembled, runs⟩ := reassembly_keeps_meaning stopped
    obtain ⟨stack, pc, here, same, -⟩ := (runs ⟨3, 1024⟩).2 _ halted
    rw [same unmet] at here
    exact ⟨again, pc, assembled, here⟩
  · obtain ⟨again, assembled, runs⟩ := reassembly_keeps_meaning pushed
    obtain ⟨stack, pc, here, -, moved⟩ := (runs ⟨3, 1024⟩).2 _ ended
    obtain ⟨-, top, below, -, items, value, -⟩ := moved _ cut rfl _ carriedOut rfl
    exact ⟨again, stack, pc, assembled, here, top, below, items, value⟩

end SubroutineVM.Assembly
