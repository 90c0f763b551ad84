import Mathlib.Data.List.Forall2
import SubroutineVM.Proofs.Assembly.Listing

/-!
The lines of a source and the instructions of its code. The bytes of a statement are one whole
instruction, whatever comes behind them (`walk_encode`), so that the instruction walk finds the
lines again, although it only sees their bytes end to end (`assembly_line_by_line`).
-/
namespace SubroutineVM.Assembly

/-- What the tokens of a line tell about the instruction the line stands for: the name of its
    opcode, and the number that its immediate denotes at full width, or its byte if that is
    undefined. -/
inductive Describes (i : Instruction) : List Token → Prop where
  | plain {op : Opcode} (opcode : i.opcode? = some op) (none : op.immediateLength = 0)
      (bare : i.immediate = []) : Describes i [.name op.mnemonic]
  | push {n : Fin 32} {value : Nat} (opcode : i.opcode? = some (.push n))
      (width : i.immediate.length = n + 1) (denoted : BigEndian.value i.immediate = value) :
      Describes i [.name (Opcode.push n).mnemonic, .number value]
  | undefined (opcode : i.opcode? = none) (bare : i.immediate = []) :
      Describes i [.name Opcode.undefinedName, .number i.byte.toNat]

def LineDescribes (line : List Char) (i : Instruction) : Prop :=
  ∃ tokens, lineTokens? line = some tokens ∧ Describes i tokens

def tokenLines (lines : List (List Char)) : List (List Char) :=
  lines.filter fun line => !(lineWords line).isEmpty

theorem whole_of_describes {i : Instruction} {tokens : List Token}
    (described : Describes i tokens) : i.isTruncated = false := by
  rw [Instruction.isTruncated_eq_false_iff]
  cases described with
  | plain opcode none =>
    rw [immediateLength_of_known opcode, none]
    exact Nat.zero_le _
  | push opcode width =>
    rw [immediateLength_of_known opcode, width]
    exact Nat.le_refl _
  | undefined opcode =>
    rw [immediateLength_of_unknown opcode]
    exact Nat.zero_le _

theorem walk_encode {tokens : List Token} {s : Statement}
    (denotes : Statement.Denotes tokens (some s)) (offset : Nat) (rest : List UInt8) :
    ∃ i behind, Describes i tokens ∧
      Instruction.walk offset (s.encode ++ rest) = i :: Instruction.walk behind rest := by
  cases denotes with
  | @plain op bare =>
    let i : Instruction := ⟨offset, op.toByte, []⟩
    have known : i.opcode? = some op := Opcode.ofByte?_toByte op
    have width : ([] : List UInt8).length = immediateLength op.toByte :=
      ((immediateLength_of_known known).trans bare).symm
    exact ⟨i, _, .plain known bare rfl, Instruction.walk_append offset width rest⟩
  | @push n value fits =>
    let i : Instruction := ⟨offset, (Opcode.push n).toByte, BigEndian.digits (n + 1) value⟩
    have known : i.opcode? = some (.push n) := Opcode.ofByte?_toByte (.push n)
    have length : i.immediate.length = n + 1 := BigEndian.length_digits (n + 1) value
    have width : i.immediate.length = immediateLength i.byte :=
      length.trans (immediateLength_of_known known).symm
    have denoted : BigEndian.value i.immediate = value := by
      rw [BigEndian.value_digits, Nat.mod_eq_of_lt fits]
    exact ⟨i, _, .push known length denoted, Instruction.walk_append offset width rest⟩
  | @undefined byte unknown =>
    let i : Instruction := ⟨offset, byte, []⟩
    have width : ([] : List UInt8).length = immediateLength byte :=
      (immediateLength_of_unknown (i := i) unknown).symm
    exact ⟨i, _, .undefined unknown rfl, Instruction.walk_append offset width rest⟩

theorem encodeLines_cons_eq_ok_iff {n : Nat} {line : List Char} {lines : List (List Char)}
    {bytes : List UInt8} : encodeLines n (line :: lines) = .ok bytes ↔
      ∃ said? rest, Statement.ofLine line = .ok said? ∧ encodeLines (n + 1) lines = .ok rest ∧
        bytes = (said?.map Statement.encode).getD [] ++ rest := by
  rw [encodeLines]
  cases Statement.ofLine line with
  | error problem => simp
  | ok said? => cases encodeLines (n + 1) lines <;> simp [Except.map, eq_comm]

theorem walk_encodeLines {n : Nat} {lines : List (List Char)} {bytes : List UInt8}
    (encoded : encodeLines n lines = .ok bytes) (offset : Nat) :
    List.Forall₂ LineDescribes (tokenLines lines) (Instruction.walk offset bytes) := by
  induction lines generalizing n bytes offset with
  | nil =>
    cases encoded
    rw [Instruction.walk]
    exact .nil
  | cons line lines ih =>
    obtain ⟨said?, rest, read, later, rfl⟩ := encodeLines_cons_eq_ok_iff.mp encoded
    obtain ⟨tokens, words, denotes⟩ := Statement.ofLine_eq_ok_iff.mp read
    cases said? with
    | none =>
      cases denotes
      rw [tokenLines, List.filter_cons, lineTokens?_eq_nil_iff.mp words]
      exact ih later offset
    | some s =>
      obtain ⟨i, behind, described, walked⟩ := walk_encode denotes offset rest
      have filled : lineWords line ≠ [] := by
        intro empty
        rw [lineTokens?_eq_nil_iff.mpr empty] at words
        cases words
        cases denotes
      rw [tokenLines, List.filter_cons, if_pos (by simpa using filled)]
      exact walked ▸ .cons ⟨tokens, words, described⟩ (ih later _)

theorem whole_of_described {lines : List (List Char)} {is : List Instruction}
    (described : List.Forall₂ LineDescribes lines is) : ∀ i ∈ is, i.isTruncated = false := by
  induction described with
  | nil => simp
  | cons here _ ih =>
    obtain ⟨tokens, -, described⟩ := here
    rw [List.forall_mem_cons]
    exact ⟨whole_of_describes described, ih⟩

/-- A source that can be assembled has one instruction in its code for each line with tokens, in
    line order, and each line describes its instruction. All of them are whole, so that the code is
    the one its listing assembles to. -/
theorem assembly_line_by_line (text : String) (code : Code) (assembled : assemble text = .ok code) :
    List.Forall₂ LineDescribes (tokenLines (text.toList.splitOn '\n')) code.instructions ∧
    (∀ i ∈ code.instructions, i.isTruncated = false) ∧
    assemble (disassemble code) = .ok code ∧
    (assemble (disassemble code)).map disassemble = .ok (disassemble code) := by
  rw [assemble] at assembled
  cases encoded : encodeLines 1 (text.toList.splitOn '\n') with
  | error e =>
    rw [encoded] at assembled
    cases assembled
  | ok bytes =>
    rw [encoded] at assembled
    cases assembled
    have described := walk_encodeLines encoded 0
    have whole := whole_of_described described
    have again : assemble (disassemble (.ofBytes bytes)) = .ok (.ofBytes bytes) :=
      assemble_disassemble_of_whole fun i ends => whole i (List.mem_of_getLast? ends)
    rw [again]
    exact ⟨described, whole, rfl, rfl⟩

theorem mixed_source_line_by_line :
    let text := "push2 17 ; decimal\r\n\n  invalid 0xFE\nJumpSub"
    let code := Code.ofBytes [0x61, 0x00, 0x11, 0xfe, 0xb3]
    assemble text = .ok code ∧
    List.Forall₂ LineDescribes
      ["push2 17 ; decimal\r".toList, "  invalid 0xFE".toList, "JumpSub".toList]
      [⟨0, 0x61, [0x00, 0x11]⟩, ⟨3, 0xfe, []⟩, ⟨4, 0xb3, []⟩] ∧
    assemble (disassemble code) = .ok code := by
  intro text code
  have assembled : assemble text = .ok code := by decide +kernel
  have lines : tokenLines (text.toList.splitOn '\n') =
      ["push2 17 ; decimal\r".toList, "  invalid 0xFE".toList, "JumpSub".toList] := by
    decide +kernel
  have walked : code.instructions =
      [⟨0, 0x61, [0x00, 0x11]⟩, ⟨3, 0xfe, []⟩, ⟨4, 0xb3, []⟩] := by decide +kernel
  obtain ⟨described, -, again, -⟩ := assembly_line_by_line text code assembled
  rw [lines, walked] at described
  exact ⟨assembled, described, again⟩

end SubroutineVM.Assembly
