import SubroutineVM.Assembly.Source
import SubroutineVM.Proofs.Assembly.Grammar
import SubroutineVM.Proofs.Code.Instructions
import SubroutineVM.Proofs.Text.Numerals

/-!
Listings, line by line. The line of an instruction is read as the statement of that instruction
(`ofLine_listingLine`), the source lines of a listing are the lines of its instructions
(`listing_lines`), and so assembling a listing gives the code with its last immediate filled up
(`assemble_disassemble`). A line also shows how many bytes of its immediate are there
(`listingLine_injective`).
-/
namespace SubroutineVM

namespace Blank

theorem words_cons {word : List Char} {b : Char} (filled : word ≠ [])
    (solid : ∀ c ∈ word, isBlank c = false) (blank : isBlank b = true) (rest : List Char) :
    words (word ++ b :: rest) = word :: words rest := by
  rw [words, List.splitOnP_append_cons_of_forall_mem solid _ blank, List.filter_cons, if_pos, words]
  simpa using filled

theorem words_single {word : List Char} (filled : word ≠ [])
    (solid : ∀ c ∈ word, isBlank c = false) : words word = [word] := by
  rw [words, List.splitOnP_eq_singleton solid, List.filter_cons, if_pos, List.filter_nil]
  simpa using filled

end Blank

namespace Assembly

/-- A word that keeps its place in a line: it neither ends nor starts a comment. -/
def IsLexeme (word : List Char) : Prop :=
  word ≠ [] ∧ ∀ c ∈ word, Blank.isBlank c = false ∧ c ≠ ';'

-- Along the word: over characters as a finite type the check would try every one of them.
instance : DecidablePred IsLexeme := fun word =>
  decidable_of_iff (word ≠ [] ∧ (word.all fun c => !Blank.isBlank c && c != ';') = true)
    (by simp [IsLexeme])

section Lines

variable {word : List Char}

theorem takeWhile_lexeme (lexeme : IsLexeme word) (rest : List Char) :
    (word ++ rest).takeWhile (· ≠ ';') = word ++ rest.takeWhile (· ≠ ';') :=
  List.takeWhile_append_of_pos fun c member => decide_eq_true (lexeme.2 c member).2

theorem lineWords_cons (lexeme : IsLexeme word) (rest : List Char) :
    lineWords (word ++ ' ' :: rest) = word :: lineWords rest := by
  rw [lineWords, takeWhile_lexeme lexeme, List.takeWhile_cons_of_pos (by decide)]
  exact Blank.words_cons lexeme.1 (fun c member => (lexeme.2 c member).1) (by decide) _

theorem lineWords_single (lexeme : IsLexeme word) : lineWords word = [word] := by
  have bare := takeWhile_lexeme lexeme []
  rw [List.takeWhile_nil, List.append_nil] at bare
  rw [lineWords, bare]
  exact Blank.words_single lexeme.1 fun c member => (lexeme.2 c member).1

theorem newline_not_mem_lexeme (lexeme : IsLexeme word) : '\n' ∉ word := by
  intro member
  have solid := (lexeme.2 _ member).1
  cases solid

theorem lineWords_comment (rest : List Char) : lineWords (';' :: rest) = [] := rfl

end Lines

theorem name_read (op : Opcode) : IsLexeme op.mnemonic.toList ∧
    Token.ofWord? op.mnemonic.toList = some (.name op.mnemonic) := by
  have every : ∀ op ∈ Opcode.all, IsLexeme op.mnemonic.toList ∧
      Token.ofWord? op.mnemonic.toList = some (.name op.mnemonic) := by decide +kernel
  exact every op op.mem_all

theorem undefinedName_read : IsLexeme Opcode.undefinedName.toList ∧
    Token.ofWord? Opcode.undefinedName.toList = some (.name Opcode.undefinedName) := by
  decide +kernel

theorem hexNumber?_plain {digits : List Char} (filled : digits ≠ [])
    (plain : ∀ c ∈ digits, c ≠ 'x') (short : digits.length ≤ 64) :
    hexNumber? digits = Digits.read? 16 Digits.hex? digits := by
  unfold hexNumber?
  split
  · exact absurd rfl filled
  · exact absurd rfl (plain 'x' (by simp))
  · exact if_pos short

theorem immediateDigits_nil : (immediateDigits []).toList = ['0'] := rfl

theorem immediateDigits_cons (b : UInt8) (rest : List UInt8) :
    (immediateDigits (b :: rest)).toList = Hex.encodeChars (b :: rest) := String.toList_ofList

theorem number_read {digits : List Char} {bytes : List UInt8} (short : bytes.length ≤ 32)
    (written : digits = (immediateDigits bytes).toList) :
    IsLexeme ('0' :: 'x' :: digits) ∧
      Token.ofWord? ('0' :: 'x' :: digits) = some (.number (BigEndian.value bytes)) := by
  cases bytes with
  | nil =>
    rw [written]
    decide +kernel
  | cons b rest =>
    rw [immediateDigits_cons] at written
    have plain : ∀ c ∈ digits, Blank.isBlank c = false ∧ c ≠ ';' ∧ c ≠ 'x' := by
      intro c member
      obtain ⟨n, bound, rfl⟩ := Hex.mem_encodeChars (written ▸ member)
      exact (Hex.digit_sound bound).2
    have length := Hex.length_encodeChars (b :: rest)
    rw [← written] at length
    have filled : digits ≠ [] := by
      rintro rfl
      simp at length
    constructor
    · refine ⟨by simp, ?_⟩
      simp only [List.forall_mem_cons]
      exact ⟨by decide, by decide, fun c member => ⟨(plain c member).1, (plain c member).2.1⟩⟩
    · rw [Token.ofWord?, hexNumber?_plain filled (fun c member => (plain c member).2.2) (by omega),
        written, Hex.read?_encodeChars]
      rfl

section Instructions

variable {i j : Instruction} {op : Opcode} {n : Fin 32}

theorem listingLine_undefined (unknown : i.opcode? = none) : (listingLine i).toList =
    Opcode.undefinedName.toList ++ ' ' :: '0' :: 'x' :: (immediateDigits [i.byte]).toList := by
  simp only [listingLine, unknown, Hex.byteText, String.toList_append]
  rfl

theorem listingLine_plain (known : i.opcode? = some op) (bare : op.immediateLength = 0) :
    (listingLine i).toList = op.mnemonic.toList := by
  simp only [listingLine, known, bare, if_true]

def truncationMark (i : Instruction) : List Char :=
  if i.isTruncated then ' ' :: ';' :: " truncated".toList else []

theorem listingLine_push (known : i.opcode? = some (.push n)) : (listingLine i).toList =
    (Opcode.push n).mnemonic.toList ++
      ' ' :: '0' :: 'x' :: ((immediateDigits i.immediate).toList ++ truncationMark i) := by
  have long : ¬ (Opcode.push n).immediateLength = 0 := Nat.succ_ne_zero n
  simp only [listingLine, known, long, if_false, String.toList_append, truncationMark]
  split
  · simp
  · simp

theorem immediate_eq_nil (fits : i.immediate.length ≤ immediateLength i.byte)
    (bare : immediateLength i.byte = 0) : i.immediate = [] :=
  List.length_eq_zero_iff.mp (Nat.le_zero.mp (bare ▸ fits))

def Statement.ofInstruction (i : Instruction) : Statement :=
  match i.opcode? with
  | none => .undefined i.byte
  | some (.push n) => .push n (BigEndian.value i.immediate)
  | some op => .plain op

theorem encode_ofInstruction (fits : i.immediate.length ≤ immediateLength i.byte) :
    (Statement.ofInstruction i).encode = i.filled := by
  unfold Statement.ofInstruction
  split
  · rename_i unknown
    have bare := immediateLength_of_unknown unknown
    rw [Statement.encode, Instruction.filled, bare, immediate_eq_nil fits bare]
    rfl
  · rename_i n known
    have byte := Opcode.toByte_of_ofByte? known
    rw [immediateLength_of_known known] at fits
    rw [Statement.encode, Instruction.filled, immediateLength_of_known known, byte]
    exact congrArg (i.byte :: ·) (BigEndian.digits_value fits)
  · rename_i op other known
    have byte := Opcode.toByte_of_ofByte? known
    have bare := (immediateLength_of_known known).trans (Opcode.bare_of_ne_push other)
    rw [Statement.encode, Instruction.filled, bare, byte, immediate_eq_nil fits bare]
    rfl

theorem ofLine_listingLine (fits : i.immediate.length ≤ immediateLength i.byte) :
    Statement.ofLine (listingLine i).toList = .ok (some (.ofInstruction i)) := by
  rw [Statement.ofLine_eq_ok_iff]
  unfold Statement.ofInstruction
  split
  · rename_i unknown
    obtain ⟨lexeme, name⟩ := undefinedName_read
    have short : [i.byte].length ≤ 32 := by simp
    obtain ⟨lexeme', number⟩ := number_read short rfl
    rw [BigEndian.value_singleton] at number
    refine ⟨_, lineTokens?_eq_pair_iff.mpr ⟨_, _, ?_, name, number⟩, .undefined unknown⟩
    rw [listingLine_undefined unknown, lineWords_cons lexeme, lineWords_single lexeme']
  · rename_i n known
    have width := immediateLength_of_known known
    rw [width, Opcode.immediateLength] at fits
    have short : i.immediate.length ≤ 32 := by omega
    obtain ⟨lexeme, name⟩ := name_read (.push n)
    obtain ⟨lexeme', number⟩ := number_read short rfl
    refine ⟨_, lineTokens?_eq_pair_iff.mpr ⟨_, _, ?_, name, number⟩, .push (BigEndian.value_lt fits)⟩
    rw [listingLine_push known, lineWords_cons lexeme, truncationMark]
    split
    · have commented := lineWords_cons lexeme' (';' :: " truncated".toList)
      rw [lineWords_comment] at commented
      exact congrArg _ commented
    · rw [List.append_nil, lineWords_single lexeme']
  · rename_i op other known
    have bare := Opcode.bare_of_ne_push other
    obtain ⟨lexeme, name⟩ := name_read op
    refine ⟨_, lineTokens?_eq_single_iff.mpr ⟨_, ?_, name⟩, .plain bare⟩
    rw [listingLine_plain known bare, lineWords_single lexeme]

/-- A lone digit stands for no byte, and bytes have two digits each. -/
theorem immediateDigits_cons_ne_nil (b : UInt8) (rest : List UInt8) :
    (immediateDigits (b :: rest)).toList ≠ (immediateDigits []).toList := by
  intro same
  have length := congrArg List.length same
  rw [immediateDigits_nil, immediateDigits_cons, Hex.length_encodeChars, List.length_cons,
    List.length_singleton] at length
  omega

theorem immediateDigits_injective {front back : List UInt8}
    (same : (immediateDigits front).toList = (immediateDigits back).toList) : front = back := by
  cases front with
  | nil =>
    cases back with
    | nil => rfl
    | cons b back => exact absurd same.symm (immediateDigits_cons_ne_nil b back)
  | cons a front =>
    cases back with
    | nil => exact absurd same (immediateDigits_cons_ne_nil a front)
    | cons b back =>
      rw [immediateDigits_cons, immediateDigits_cons] at same
      exact Hex.encodeChars_injective same

theorem digits_before_mark (i : Instruction) (short : i.immediate.length ≤ 32) :
    ((immediateDigits i.immediate).toList ++ truncationMark i).takeWhile (· ≠ ' ') =
      (immediateDigits i.immediate).toList := by
  have solid : ∀ c ∈ (immediateDigits i.immediate).toList, decide (c ≠ ' ') = true := by
    intro c member
    have lexeme := (number_read short rfl).1
    have solid := (lexeme.2 c (List.mem_cons_of_mem _ (List.mem_cons_of_mem _ member))).1
    apply decide_eq_true
    rintro rfl
    cases solid
  rw [List.takeWhile_append_of_pos solid, truncationMark]
  split
  · simp
  · simp

theorem listingLine_injective (fits : i.immediate.length ≤ immediateLength i.byte)
    (fits' : j.immediate.length ≤ immediateLength j.byte)
    (same : listingLine i = listingLine j) : i.toBytes = j.toBytes := by
  have said := ofLine_listingLine fits
  rw [same, ofLine_listingLine fits'] at said
  have filled : j.filled = i.filled := by
    rw [← encode_ofInstruction fits, ← encode_ofInstruction fits',
      Option.some.inj (Except.ok.inj said)]
  have byte : j.byte = i.byte := (List.cons.inj filled).1
  have opcode : j.opcode? = i.opcode? := congrArg Opcode.ofByte? byte
  have bare (none : immediateLength i.byte = 0) : i.immediate = j.immediate := by
    rw [immediate_eq_nil fits none, immediate_eq_nil fits' (byte.symm ▸ none)]
  suffices immediate : i.immediate = j.immediate by
    rw [Instruction.toBytes, Instruction.toBytes, byte, immediate]
  cases known : i.opcode? with
  | none => exact bare (immediateLength_of_unknown known)
  | some op =>
    have width := immediateLength_of_known known
    rcases op.push_or_bare with ⟨n, rfl⟩ | none
    · rw [byte, width, Opcode.immediateLength] at fits'
      rw [width, Opcode.immediateLength] at fits
      have line := congrArg String.toList same
      rw [listingLine_push known, listingLine_push (opcode.trans known)] at line
      have tail := List.append_cancel_left line
      simp only [List.cons.injEq, true_and] at tail
      have digits := congrArg (List.takeWhile (· ≠ ' ')) tail
      rw [digits_before_mark i (by omega), digits_before_mark j (by omega)] at digits
      exact immediateDigits_injective digits
    · exact bare (width.trans none)

theorem newline_not_mem (fits : i.immediate.length ≤ immediateLength i.byte) :
    '\n' ∉ (listingLine i).toList := by
  cases known : i.opcode? with
  | none =>
    have short : [i.byte].length ≤ 32 := by simp
    rw [listingLine_undefined known, List.mem_append, List.mem_cons]
    rintro (first | space | second)
    · exact newline_not_mem_lexeme undefinedName_read.1 first
    · cases space
    · exact newline_not_mem_lexeme (number_read short rfl).1 second
  | some op =>
    rcases op.push_or_bare with ⟨n, rfl⟩ | bare
    · rw [immediateLength_of_known known, Opcode.immediateLength] at fits
      have short : i.immediate.length ≤ 32 := by omega
      have unbroken : '\n' ∉ truncationMark i := by
        rw [truncationMark]
        split <;> decide
      rw [listingLine_push known, List.mem_append, List.mem_cons, ← List.cons_append,
        ← List.cons_append, List.mem_append]
      rintro (first | space | second | mark)
      · exact newline_not_mem_lexeme (name_read (.push n)).1 first
      · cases space
      · exact newline_not_mem_lexeme (number_read short rfl).1 second
      · exact unbroken mark
    · rw [listingLine_plain known bare]
      exact newline_not_mem_lexeme (name_read op).1

end Instructions

theorem listing_lines (c : Code) : (disassemble c).toList.splitOn '\n' =
    (c.instructions.map fun i => (listingLine i).toList) ++ [[]] := by
  have unbroken : ∀ i ∈ c.instructions, '\n' ∉ (listingLine i).toList := by
    intro i member
    exact newline_not_mem (Instruction.walk_fits i member)
  rw [disassemble, String.toList_join]
  generalize c.instructions = is at unbroken ⊢
  induction is with
  | nil => rfl
  | cons i is ih =>
    have rest := ih fun j member => unbroken j (List.mem_cons_of_mem i member)
    have here := unbroken i List.mem_cons_self
    rw [List.map_cons, List.flatMap_cons, String.toList_append, List.append_assoc]
    exact (List.splitOn_append_cons_self_of_not_mem here _).trans (congrArg _ rest)

theorem encodeLines_listing (n : Nat) {is : List Instruction}
    (fits : ∀ i ∈ is, i.immediate.length ≤ immediateLength i.byte) :
    encodeLines n ((is.map fun i => (listingLine i).toList) ++ [[]]) =
      .ok (is.flatMap Instruction.filled) := by
  induction is generalizing n with
  | nil => rfl
  | cons i is ih =>
    have rest := ih (n + 1) fun j member => fits j (List.mem_cons_of_mem i member)
    have here := fits i List.mem_cons_self
    rw [List.map_cons, List.cons_append, encodeLines, ofLine_listingLine here, rest]
    simp only [Option.map_some, Option.getD_some, encode_ofInstruction here]
    rfl

theorem assemble_disassemble (c : Code) :
    assemble (disassemble c) = .ok (.ofBytes (c.instructions.flatMap Instruction.filled)) := by
  have fits : ∀ i ∈ c.instructions, i.immediate.length ≤ immediateLength i.byte :=
    Instruction.walk_fits
  rw [assemble, listing_lines, encodeLines_listing 1 fits]
  rfl

theorem assemble_disassemble_of_whole {c : Code}
    (whole : ∀ i, c.instructions.getLast? = some i → i.isTruncated = false) :
    assemble (disassemble c) = .ok c := by
  rw [assemble_disassemble, Code.instructions, Instruction.walk_filled whole, Code.ofBytes_toBytes]

theorem toBytes_of_lines {is js : List Instruction}
    (fits : ∀ i ∈ is, i.immediate.length ≤ immediateLength i.byte)
    (fits' : ∀ j ∈ js, j.immediate.length ≤ immediateLength j.byte)
    (same : (is.map fun i => (listingLine i).toList) = js.map fun j => (listingLine j).toList) :
    is.flatMap Instruction.toBytes = js.flatMap Instruction.toBytes := by
  induction is generalizing js with
  | nil =>
    rw [List.map_nil, eq_comm, List.map_eq_nil_iff] at same
    rw [same]
  | cons i is ih =>
    cases js with
    | nil => cases same
    | cons j js =>
      obtain ⟨line, lines⟩ := List.cons.inj same
      have first := listingLine_injective (fits i List.mem_cons_self) (fits' j List.mem_cons_self)
        (String.toList_inj.mp line)
      have rest := ih (fun i member => fits i (List.mem_cons_of_mem _ member))
        (fun j member => fits' j (List.mem_cons_of_mem _ member)) lines
      rw [List.flatMap_cons, List.flatMap_cons, first, rest]

theorem disassemble_injective : Function.Injective disassemble := by
  intro c d same
  have lines := congrArg (fun text => text.toList.splitOn '\n') same
  simp only [listing_lines] at lines
  have bytes := toBytes_of_lines Instruction.walk_fits Instruction.walk_fits
    (List.append_cancel_right lines)
  rw [Instruction.walk_toBytes, Instruction.walk_toBytes] at bytes
  exact Code.ext bytes

end Assembly

end SubroutineVM
