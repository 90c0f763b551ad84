import SubroutineVM.Assembly.Source
import SubroutineVM.Proofs.Code.Concatenation

/-!
Sources one below the other, and codes one behind the other. No line of a source depends on another,
so that the second of two sources is read as if it stood alone, but for the numbers of its lines
(`assemble_joined`). A line break at the end of a source adds nothing (`assemble_closed`), and
neither does a carriage return in front of one (`assemble_carriage_return`). Of two codes the second
keeps its instructions and its listing unless the first takes bytes of it for an immediate
(`instructions_joined`).
-/
namespace SubroutineVM.Assembly

def Error.below (lines : Nat) (e : Error) : Error := ⟨e.line + lines, e.problem⟩

section Lines

variable {n k : Nat} {lines front back : List (List Char)}

theorem encodeLines_below : encodeLines (n + k) lines =
    (encodeLines n lines).mapError (Error.below k) := by
  induction lines generalizing n with
  | nil => rfl
  | cons line lines ih =>
    rw [encodeLines, encodeLines]
    cases Statement.ofLine line with
    | error problem => rfl
    | ok said? =>
      simp only
      rw [Nat.add_right_comm, ih]
      cases encodeLines (n + 1) lines <;> rfl

theorem encodeLines_append : encodeLines n (front ++ back) =
    (encodeLines n front).bind fun bytes =>
      (encodeLines (n + front.length) back).map (bytes ++ ·) := by
  induction front generalizing n with
  | nil =>
    rw [List.nil_append, List.length_nil, Nat.add_zero]
    cases encodeLines n back <;> rfl
  | cons line front ih =>
    rw [List.cons_append, encodeLines, encodeLines, List.length_cons, Nat.add_comm front.length,
      ← Nat.add_assoc]
    cases Statement.ofLine line with
    | error problem => rfl
    | ok said? =>
      simp only [ih]
      cases encodeLines (n + 1) front with
      | error e => rfl
      | ok bytes =>
        cases encodeLines (n + 1 + front.length) back with
        | error e => rfl
        | ok rest => simp [Except.map, Except.bind]

end Lines

section Texts

theorem length_splitOn (c : Char) (text : List Char) :
    (text.splitOn c).length = text.count c + 1 := by
  induction text with
  | nil => rfl
  | cons first text ih =>
    rw [List.splitOn_cons_eq_if_modifyHead, List.count_cons]
    split
    · rw [List.length_cons, ih]
    · rw [List.length_modifyHead, ih, Nat.add_zero]

theorem splitOn_concat {b c : Char} (other : c ≠ b) (text : List Char) :
    ∃ lines last, text.splitOn b = lines ++ [last] ∧
      (text ++ [c]).splitOn b = lines ++ [last ++ [c]] := by
  induction text with
  | nil =>
    refine ⟨[], [], rfl, ?_⟩
    exact List.splitOn_eq_singleton (by simpa using other.symm)
  | cons first text ih =>
    obtain ⟨lines, last, split, longer⟩ := ih
    rw [List.cons_append, List.splitOn_cons_eq_if_modifyHead, List.splitOn_cons_eq_if_modifyHead,
      split, longer]
    split
    · exact ⟨[] :: lines, last, rfl, rfl⟩
    · cases lines with
      | nil => exact ⟨[], first :: last, rfl, rfl⟩
      | cons line lines => exact ⟨(first :: line) :: lines, last, rfl, rfl⟩

theorem splitOn_joined (first second : String) :
    (first ++ "\n" ++ second).toList.splitOn '\n' =
      first.toList.splitOn '\n' ++ second.toList.splitOn '\n' := by
  have joined : (first ++ "\n" ++ second).toList = first.toList ++ '\n' :: second.toList := by
    simp [String.toList_append]
  rw [joined, List.splitOn_append_cons_self]

end Texts

/-- A source above another one. The first error is that of the upper source, if it has one, and
    otherwise that of the lower one, whose first line comes behind all lines of the upper source.
    Without an error the code is that of the upper source and behind it that of the lower one. -/
theorem assemble_joined (first second : String) :
    assemble (first ++ "\n" ++ second) =
      match assemble first, assemble second with
      | .error e, _ => .error e
      | .ok _, .error e => .error ⟨e.line + (first.toList.count '\n' + 1), e.problem⟩
      | .ok c, .ok d => .ok (.ofBytes (c.toBytes ++ d.toBytes)) := by
  have place : 1 + (first.toList.splitOn '\n').length = 1 + (first.toList.count '\n' + 1) := by
    rw [length_splitOn]
  rw [assemble, assemble, assemble, splitOn_joined, encodeLines_append, place, encodeLines_below]
  cases encodeLines 1 (first.toList.splitOn '\n') with
  | error e => rfl
  | ok bytes =>
    cases encodeLines 1 (second.toList.splitOn '\n') with
    | error e => rfl
    | ok rest => rfl

section LineEnds

variable {n : Nat} {line : List Char}

theorem encodeLines_congr {lines others : List (List Char)}
    (alike : lines.map Statement.ofLine = others.map Statement.ofLine) :
    encodeLines n lines = encodeLines n others := by
  induction lines generalizing n others with
  | nil =>
    rw [List.map_nil, eq_comm, List.map_eq_nil_iff] at alike
    rw [alike]
  | cons line lines ih =>
    cases others with
    | nil => cases alike
    | cons other others =>
      obtain ⟨here, behind⟩ := List.cons.inj alike
      rw [encodeLines, encodeLines, here, ih behind]

theorem lineWords_concat {b : Char} (blank : Blank.isBlank b = true) (line : List Char) :
    lineWords (line ++ [b]) = lineWords line := by
  have bare (part : List Char) : Blank.words (part ++ [b]) = Blank.words part := by
    rw [Blank.words, Blank.words, List.splitOnP_append_cons _ _ blank, List.filter_append]
    simp
  have plain : b ≠ ';' := by
    rintro rfl
    cases blank
  rw [lineWords, lineWords, List.takeWhile_append]
  split
  · rename_i uncommented
    have kept : [b].takeWhile (· ≠ ';') = [b] := by simp [plain]
    rw [kept, bare, (List.takeWhile_prefix _).eq_of_length uncommented]
  · rfl

theorem ofLine_concat {b : Char} (blank : Blank.isBlank b = true) (line : List Char) :
    Statement.ofLine (line ++ [b]) = Statement.ofLine line := by
  rw [Statement.ofLine, Statement.ofLine, lineWords_concat blank]

theorem assemble_closed (text : String) : assemble (text ++ "\n") = assemble text := by
  have split := splitOn_joined text ""
  rw [String.append_empty] at split
  rw [assemble, assemble, split, encodeLines_append]
  cases encodeLines 1 (text.toList.splitOn '\n') with
  | error e => rfl
  | ok bytes => exact congrArg (Except.ok ∘ Code.ofBytes) (List.append_nil bytes)

theorem assemble_carriage_return (first second : String) :
    assemble (first ++ "\r\n" ++ second) = assemble (first ++ "\n" ++ second) := by
  obtain ⟨lines, last, split, longer⟩ := splitOn_concat (by decide : '\r' ≠ '\n') first.toList
  have returned : first ++ "\r\n" ++ second = (first ++ "\r") ++ "\n" ++ second := by
    apply String.toList_inj.mp
    simp [String.toList_append]
  rw [assemble, assemble, returned, splitOn_joined, splitOn_joined, String.toList_append, split]
  rw [show "\r".toList = ['\r'] from rfl, longer]
  congr 1
  apply encodeLines_congr
  simp only [List.map_append, List.map_cons, ofLine_concat (by decide : Blank.isBlank '\r' = true)]

end LineEnds

theorem disassemble_append {c d : Code} (whole : c.EndsWhole) :
    disassemble (c ++ d) = disassemble c ++ disassemble d := by
  have moved : (fun i => listingLine i ++ "\n") ∘ Instruction.shift c.size =
      fun i => listingLine i ++ "\n" := rfl
  rw [disassemble, disassemble, disassemble, Code.instructions_append whole, List.map_append,
    List.map_map, moved, String.join_append]

/-- A code behind another one that does not end in a PUSH that is cut off. Instructions and listing
    of the two are those of the first and behind them those of the second, and each offset is marked
    and may be landed on just as in the code that its byte comes from. -/
theorem instructions_joined (c d : Code) (whole : c.EndsWhole) :
    (c ++ d).instructions = c.instructions ++ d.instructions.map (Instruction.shift c.size) ∧
    disassemble (c ++ d) = disassemble c ++ disassemble d ∧
    (∀ offset < c.size, (c ++ d).isOpcodeOffset offset = c.isOpcodeOffset offset ∧
      (c ++ d).isJumpDestination offset = c.isJumpDestination offset ∧
      (c ++ d).isSubroutineEntry offset = c.isSubroutineEntry offset) ∧
    ∀ offset, (c ++ d).isOpcodeOffset (c.size + offset) = d.isOpcodeOffset offset ∧
      (c ++ d).isJumpDestination (c.size + offset) = d.isJumpDestination offset ∧
      (c ++ d).isSubroutineEntry (c.size + offset) = d.isSubroutineEntry offset := by
  refine ⟨Code.instructions_append whole, disassemble_append whole, ?_, ?_⟩
  · intro offset inside
    exact ⟨Code.isOpcodeOffset_append_left inside, Code.holds_append_left inside,
      Code.holds_append_left inside⟩
  · intro offset
    exact ⟨Code.isOpcodeOffset_append_right whole, Code.holds_append_right whole,
      Code.holds_append_right whole⟩

theorem entry_and_destination_joined :
    let c := Code.ofBytes [0x60, 0x5b, 0xb2]
    let d := Code.ofBytes [0x5b, 0x61, 0x01]
    c.EndsWhole ∧ (c ++ d).instructions =
      [⟨0, 0x60, [0x5b]⟩, ⟨2, 0xb2, []⟩] ++ [⟨3, 0x5b, []⟩, ⟨4, 0x61, [0x01]⟩] ∧
    disassemble (c ++ d) = "PUSH1 0x5b\nBEGINSUB\n" ++ "JUMPDEST\nPUSH2 0x01 ; truncated\n" ∧
    (c ++ d).isJumpDestination 1 = false ∧ (c ++ d).isSubroutineEntry 2 = true ∧
    (c ++ d).isJumpDestination (3 + 0) = true := by
  intro c d
  have whole : c.EndsWhole := by
    intro i ends
    have last : c.instructions.getLast? = some ⟨2, 0xb2, []⟩ := by decide +kernel
    cases last.symm.trans ends
    rfl
  have first : c.instructions = [⟨0, 0x60, [0x5b]⟩, ⟨2, 0xb2, []⟩] := by decide +kernel
  have second : d.instructions.map (Instruction.shift c.size) =
      [⟨3, 0x5b, []⟩, ⟨4, 0x61, [0x01]⟩] := by decide +kernel
  have upper : disassemble c = "PUSH1 0x5b\nBEGINSUB\n" := by decide +kernel
  have lower : disassemble d = "JUMPDEST\nPUSH2 0x01 ; truncated\n" := by decide +kernel
  obtain ⟨walked, listed, before, behind⟩ := instructions_joined c d whole
  rw [first, second] at walked
  rw [upper, lower] at listed
  obtain ⟨-, data, -⟩ := before 1 (by decide)
  obtain ⟨-, -, entry⟩ := before 2 (by decide)
  obtain ⟨-, destination, -⟩ := behind 0
  exact ⟨whole, walked, listed, data, entry, destination⟩

-- A PUSH that is cut off takes the bytes behind it for its immediate.
example : (Code.ofBytes [0x5b]).isJumpDestination 0 = true ∧
    (Code.ofBytes [0x60] ++ Code.ofBytes [0x5b]).isJumpDestination (1 + 0) = false := by decide

end SubroutineVM.Assembly
