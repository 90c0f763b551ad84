import SubroutineVM.Proofs.Assembly.Correspondence
import SubroutineVM.Proofs.Text.Digits

/-!
The sources that can be assembled, told without the reader. `Numeral` tells which words are numbers,
`LineMeans` what a line can mean, and `Encodes` which bytes that stands for. Main statement: a
source can be assembled just when each of its lines has a meaning, and its code is the bytes of its
lines in their order (`assembly_grammar`).
-/
namespace SubroutineVM.Assembly

open Digits

/-- The words that are numbers, each with its value: hex digits behind `0x` or `0X`, where a second
    `0x` may follow, or decimal digits. -/
inductive Numeral : List Char → Nat → Prop where
  | hex {marker : Char} {rest digits : List Char} {places : List Nat}
      (marked : marker = 'x' ∨ marker = 'X') (filled : rest ≠ [])
      (dropped : rest = digits ∨ rest = '0' :: 'x' :: digits) (short : digits.length ≤ 64)
      (read : List.Forall₂ IsHex digits places) :
      Numeral ('0' :: marker :: rest) (Nat.ofDigits 16 places.reverse)
  | decimal {word : List Char} {places : List Nat} (filled : word ≠ [])
      (read : List.Forall₂ IsDecimal word places)
      (fits : Nat.ofDigits 10 places.reverse < 2 ^ 256) :
      Numeral word (Nat.ofDigits 10 places.reverse)

/-- What a line means, up to its comment. A blank line means nothing. -/
inductive LineMeans (line : List Char) : Option Statement → Prop where
  | nothing (words : lineWords line = []) : LineMeans line none
  | plain {word : List Char} {op : Opcode} (words : lineWords line = [word])
      (named : String.ofList (Uppercase.text word) = op.mnemonic) (other : ∀ n, op ≠ .push n) :
      LineMeans line (some (.plain op))
  | push {word number : List Char} {n : Fin 32} {value : Nat}
      (words : lineWords line = [word, number])
      (named : String.ofList (Uppercase.text word) = (Opcode.push n).mnemonic)
      (numeral : Numeral number value) (fits : value < 256 ^ (n.val + 1)) :
      LineMeans line (some (.push n value))
  | undefined {word number : List Char} {byte : UInt8} (words : lineWords line = [word, number])
      (named : String.ofList (Uppercase.text word) = Opcode.undefinedName)
      (numeral : Numeral number byte.toNat) (free : ∀ op : Opcode, op.toByte ≠ byte) :
      LineMeans line (some (.undefined byte))

inductive Encodes : Option Statement → List UInt8 → Prop where
  | nothing : Encodes none []
  | plain (op : Opcode) : Encodes (some (.plain op)) [op.toByte]
  | push {n : Fin 32} {value : Nat} {immediate : List UInt8} (width : immediate.length = n + 1)
      (denoted : BigEndian.value immediate = value) :
      Encodes (some (.push n value)) ((Opcode.push n).toByte :: immediate)
  | undefined (byte : UInt8) : Encodes (some (.undefined byte)) [byte]

section Words

variable {word : List Char} {value : Nat}

theorem not_isHex_marker (digit : Nat) : ¬ IsHex 'x' digit := by
  intro listed
  cases hex?_eq_some_iff.mpr listed

theorem hexNumber?_read_eq_some_iff {digits : List Char} :
    hexNumber?.read digits = some value ↔ digits.length ≤ 64 ∧ ∃ places,
      List.Forall₂ IsHex digits places ∧ Nat.ofDigits 16 places.reverse = value := by
  rw [hexNumber?.read, ← read?_eq_some_iff hex?_eq_some_iff]
  split
  · rename_i short
    simp [short]
  · rename_i long
    simp [long]

theorem hexNumber?_eq_some_iff : hexNumber? word = some value ↔ word ≠ [] ∧ ∃ digits,
    (word = digits ∨ word = '0' :: 'x' :: digits) ∧ digits.length ≤ 64 ∧ ∃ places,
      List.Forall₂ IsHex digits places ∧ Nat.ofDigits 16 places.reverse = value := by
  simp only [← hexNumber?_read_eq_some_iff]
  rw [hexNumber?.eq_def]
  split
  · simp
  · rename_i rest
    constructor
    · intro read
      exact ⟨List.cons_ne_nil _ _, rest, .inr rfl, read⟩
    · intro listed
      obtain ⟨-, digits, dropped, read⟩ := listed
      rcases dropped with rfl | again
      · -- The second marker would have to be a digit.
        obtain ⟨-, places, every, -⟩ := hexNumber?_read_eq_some_iff.mp read
        cases every with
        | cons _ later =>
          cases later with
          | cons marker => exact absurd marker (not_isHex_marker _)
      · cases again
        exact read
  · rename_i filled single
    constructor
    · intro read
      exact ⟨filled, word, .inl rfl, read⟩
    · intro listed
      obtain ⟨-, digits, dropped, read⟩ := listed
      rcases dropped with rfl | again
      · exact read
      · exact absurd again (single digits)

theorem decimalNumber?_eq_some_iff : decimalNumber? word = some value ↔ value < 2 ^ 256 ∧
    ∃ places, List.Forall₂ IsDecimal word places ∧ Nat.ofDigits 10 places.reverse = value := by
  rw [decimalNumber?, Option.filter_eq_some_iff, read?_eq_some_iff decimal?_eq_some_iff,
    decide_eq_true_eq, Nat.one_shiftLeft, and_comm]

theorem ofWord?_of_decimal {c : Char} {rest : List Char} {digit : Nat} (first : IsDecimal c digit)
    (second : rest.head? ≠ some 'x' ∧ rest.head? ≠ some 'X') :
    Token.ofWord? (c :: rest) = (decimalNumber? (c :: rest)).map .number := by
  rw [Token.ofWord?.eq_def]
  split
  · simp_all
  · simp_all
  · rw [if_pos]
    simp [decimal?_eq_some_iff.mpr first]

theorem numeral_of_number (read : Token.ofWord? word = some (.number value)) :
    Numeral word value := by
  have hex {marker : Char} {rest : List Char} (marked : marker = 'x' ∨ marker = 'X')
      (found : (hexNumber? rest).map Token.number = some (.number value)) :
      Numeral ('0' :: marker :: rest) value := by
    obtain ⟨value, number, same⟩ := Option.map_eq_some_iff.mp found
    cases same
    obtain ⟨filled, digits, dropped, short, places, every, rfl⟩ :=
      hexNumber?_eq_some_iff.mp number
    exact .hex marked filled dropped short every
  rw [Token.ofWord?.eq_def] at read
  split at read
  · exact hex (.inl rfl) read
  · exact hex (.inr rfl) read
  · split at read
    · rename_i first
      obtain ⟨value, number, same⟩ := Option.map_eq_some_iff.mp read
      cases same
      obtain ⟨fits, places, every, rfl⟩ := decimalNumber?_eq_some_iff.mp number
      refine .decimal ?_ every fits
      rintro rfl
      cases first
    · cases read

theorem number_of_numeral (numeral : Numeral word value) :
    Token.ofWord? word = some (.number value) := by
  cases numeral with
  | @hex marker rest digits places marked filled dropped short every =>
    have number := hexNumber?_eq_some_iff.mpr ⟨filled, digits, dropped, short, places, every, rfl⟩
    rcases marked with rfl | rfl
    · rw [Token.ofWord?, number, Option.map_some]
    · rw [Token.ofWord?, number, Option.map_some]
  | @decimal _ places filled every fits =>
    have number := decimalNumber?_eq_some_iff.mpr ⟨fits, places, every, rfl⟩
    cases every with
    | nil => exact absurd rfl filled
    | @cons c digit rest _ first later =>
      rw [ofWord?_of_decimal first ?_, number, Option.map_some]
      cases later with
      | nil => simp
      | @cons c digit rest _ second =>
        have digit := decimal?_eq_some_iff.mpr second
        constructor
        · rintro ⟨⟩
          cases digit
        · rintro ⟨⟩
          cases digit

theorem ofWord?_eq_number_iff : Token.ofWord? word = some (.number value) ↔ Numeral word value :=
  ⟨numeral_of_number, number_of_numeral⟩

theorem digit_upper {c : Char} {digit : Nat} (listed : IsDecimal c digit) :
    Uppercase.char c = [c] := by
  have every : ∀ n : Fin 10, Uppercase.char "0123456789".toList[n] =
      ["0123456789".toList[n]] := by decide
  obtain ⟨inside, rfl⟩ := List.getElem?_eq_some_iff.mp listed
  exact every ⟨digit, inside⟩

theorem first_of_upper (letter : (Uppercase.text word).head?.bind decimal? = none) :
    word.head?.bind decimal? = none := by
  cases word with
  | nil => rfl
  | cons c rest =>
    cases read : decimal? c with
    | none => exact read
    | some digit =>
      rw [Uppercase.text, List.flatMap_cons, digit_upper (decimal?_eq_some_iff.mp read)] at letter
      exact letter

theorem ofWord?_eq_name_iff {name : String} (letter : name.toList.head?.bind decimal? = none) :
    Token.ofWord? word = some (.name name) ↔ String.ofList (Uppercase.text word) = name := by
  rw [Token.ofWord?.eq_def]
  constructor
  · intro read
    split at read
    · simp at read
    · simp at read
    · split at read
      · simp at read
      · cases read
        rfl
  · rintro rfl
    rw [String.toList_ofList] at letter
    have first := first_of_upper letter
    split
    · cases first
    · cases first
    · rw [if_neg (by rw [first]; decide)]

end Words

theorem mnemonic_letter (op : Opcode) : op.mnemonic.toList.head?.bind decimal? = none := by
  have every : ∀ op ∈ Opcode.all, op.mnemonic.toList.head?.bind decimal? = none := by
    decide +kernel
  exact every op op.mem_all

theorem undefinedName_letter : Opcode.undefinedName.toList.head?.bind decimal? = none := by decide

theorem width_pow (n : Fin 32) : 1 <<< (8 * (n.val + 1)) = 256 ^ (n.val + 1) := by
  rw [Nat.one_shiftLeft, Nat.pow_mul]

section Lines

variable {line : List Char} {said? : Option Statement} {bytes : List UInt8}

theorem lineMeans_of_ofLine (read : Statement.ofLine line = .ok said?) :
    LineMeans line said? := by
  obtain ⟨tokens, words, denotes⟩ := Statement.ofLine_eq_ok_iff.mp read
  cases denotes with
  | nothing => exact .nothing (lineTokens?_eq_nil_iff.mp words)
  | plain bare =>
    obtain ⟨word, words, name⟩ := lineTokens?_eq_single_iff.mp words
    refine .plain words ((ofWord?_eq_name_iff (mnemonic_letter _)).mp name) ?_
    rintro n rfl
    cases bare
  | push fits =>
    obtain ⟨word, number, words, name, numeral⟩ := lineTokens?_eq_pair_iff.mp words
    exact .push words ((ofWord?_eq_name_iff (mnemonic_letter _)).mp name)
      (ofWord?_eq_number_iff.mp numeral) (width_pow _ ▸ fits)
  | undefined unknown =>
    obtain ⟨word, number, words, name, numeral⟩ := lineTokens?_eq_pair_iff.mp words
    exact .undefined words ((ofWord?_eq_name_iff undefinedName_letter).mp name)
      (ofWord?_eq_number_iff.mp numeral) (Opcode.ofByte?_eq_none_iff.mp unknown)

theorem ofLine_of_lineMeans (means : LineMeans line said?) :
    Statement.ofLine line = .ok said? := by
  apply Statement.ofLine_eq_ok_iff.mpr
  cases means with
  | nothing words => exact ⟨_, lineTokens?_eq_nil_iff.mpr words, .nothing⟩
  | plain words named other =>
    have name := (ofWord?_eq_name_iff (mnemonic_letter _)).mpr named
    exact ⟨_, lineTokens?_eq_single_iff.mpr ⟨_, words, name⟩,
      .plain (Opcode.bare_of_ne_push other)⟩
  | push words named numeral fits =>
    have name := (ofWord?_eq_name_iff (mnemonic_letter _)).mpr named
    have number := ofWord?_eq_number_iff.mpr numeral
    exact ⟨_, lineTokens?_eq_pair_iff.mpr ⟨_, _, words, name, number⟩, .push (width_pow _ ▸ fits)⟩
  | undefined words named numeral free =>
    have name := (ofWord?_eq_name_iff undefinedName_letter).mpr named
    have number := ofWord?_eq_number_iff.mpr numeral
    exact ⟨_, lineTokens?_eq_pair_iff.mpr ⟨_, _, words, name, number⟩,
      .undefined (Opcode.ofByte?_eq_none_iff.mpr free)⟩

theorem ofLine_iff_lineMeans : Statement.ofLine line = .ok said? ↔ LineMeans line said? :=
  ⟨lineMeans_of_ofLine, ofLine_of_lineMeans⟩

theorem encodes_iff (means : LineMeans line said?) :
    Encodes said? bytes ↔ bytes = (said?.map Statement.encode).getD [] := by
  constructor
  · intro encodes
    cases encodes with
    | nothing | plain | undefined => rfl
    | @push n _ immediate width denoted =>
      have same := BigEndian.digits_value (Nat.le_of_eq width)
      rw [width, Nat.sub_self, List.replicate_zero, List.nil_append, denoted] at same
      exact congrArg _ same.symm
  · rintro rfl
    cases means with
    | nothing => exact .nothing
    | plain => exact .plain _
    | @push _ _ n value words named numeral fits =>
      refine .push (BigEndian.length_digits _ _) ?_
      rw [BigEndian.value_digits, width_pow, Nat.mod_eq_of_lt fits]
    | undefined => exact .undefined _

end Lines

section Sources

variable {n : Nat} {lines : List (List Char)}

theorem encodeLines_succeeds_iff : (∃ bytes, encodeLines n lines = .ok bytes) ↔
    ∀ line ∈ lines, ∃ said?, LineMeans line said? := by
  induction lines generalizing n with
  | nil => simp [encodeLines]
  | cons line lines ih =>
    rw [List.forall_mem_cons, ← ih (n := n + 1)]
    simp only [encodeLines_cons_eq_ok_iff, ofLine_iff_lineMeans]
    constructor
    · intro encoded
      obtain ⟨bytes, said?, rest, means, later, -⟩ := encoded
      exact ⟨⟨said?, means⟩, rest, later⟩
    · intro encoded
      obtain ⟨⟨said?, means⟩, rest, later⟩ := encoded
      exact ⟨_, said?, rest, means, later, rfl⟩

theorem encodeLines_eq_ok_iff {bytes : List UInt8} : encodeLines n lines = .ok bytes ↔
    ∃ said chunks, List.Forall₂ LineMeans lines said ∧ List.Forall₂ Encodes said chunks ∧
      bytes = chunks.flatten := by
  induction lines generalizing n bytes with
  | nil => simp [encodeLines, eq_comm]
  | cons line lines ih =>
    rw [encodeLines_cons_eq_ok_iff]
    simp only [ih, ofLine_iff_lineMeans]
    constructor
    · intro encoded
      obtain ⟨said?, rest, means, ⟨said, chunks, later, chunked, rfl⟩, rfl⟩ := encoded
      exact ⟨said? :: said, _ :: chunks, .cons means later,
        .cons ((encodes_iff means).mpr rfl) chunked, rfl⟩
    · intro listed
      obtain ⟨_, _, every, chunked, rfl⟩ := listed
      cases every with
      | cons means later =>
        cases chunked with
        | cons first chunked =>
          exact ⟨_, _, means, ⟨_, _, later, chunked, rfl⟩, by
            rw [List.flatten_cons, (encodes_iff means).mp first]⟩

theorem assemble_eq_ok_iff {text : String} {code : Code} :
    assemble text = .ok code ↔ encodeLines 1 (text.toList.splitOn '\n') = .ok code.toBytes := by
  rw [assemble]
  cases encodeLines 1 (text.toList.splitOn '\n') with
  | error e => simp [Except.map]
  | ok bytes =>
    simp only [Except.map, Except.ok.injEq]
    constructor
    · rintro rfl
      rfl
    · rintro rfl
      exact Code.ofBytes_toBytes code

end Sources

/-- Which sources can be assembled, and to which code. -/
theorem assembly_grammar (text : String) :
    let lines := text.toList.splitOn '\n'
    ((∃ code, assemble text = .ok code) ↔ ∀ line ∈ lines, ∃ said?, LineMeans line said?) ∧
    ∀ code : Code, assemble text = .ok code ↔ ∃ said chunks, List.Forall₂ LineMeans lines said ∧
      List.Forall₂ Encodes said chunks ∧ code.toBytes = chunks.flatten := by
  intro lines
  simp only [assemble_eq_ok_iff]
  constructor
  · rw [← encodeLines_succeeds_iff (n := 1)]
    constructor
    · intro assembled
      obtain ⟨code, encoded⟩ := assembled
      exact ⟨code.toBytes, encoded⟩
    · intro assembled
      obtain ⟨bytes, encoded⟩ := assembled
      exact ⟨.ofBytes bytes, encoded⟩
  · intro code
    exact encodeLines_eq_ok_iff

theorem wide_value_and_second_marker :
    let wide := "STOP\nPUSH1 256".toList.splitOn '\n'
    let marked := "push2 0X0x0a ; ten\n invalid 0xFE".toList.splitOn '\n'
    (¬ ∀ line ∈ wide, ∃ said?, LineMeans line said?) ∧
      ∃ said chunks, List.Forall₂ LineMeans marked said ∧ List.Forall₂ Encodes said chunks ∧
        [0x61, 0x00, 0x0a, 0xfe] = chunks.flatten := by
  intro wide marked
  obtain ⟨accepted, -⟩ := assembly_grammar "STOP\nPUSH1 256"
  obtain ⟨-, encoded⟩ := assembly_grammar "push2 0X0x0a ; ten\n invalid 0xFE"
  have refused : assemble "STOP\nPUSH1 256" = .error ⟨2, .valueTooLarge 0⟩ := by decide +kernel
  have assembled : assemble "push2 0X0x0a ; ten\n invalid 0xFE" =
      .ok (.ofBytes [0x61, 0x00, 0x0a, 0xfe]) := by decide +kernel
  refine ⟨?_, (encoded _).mp assembled⟩
  intro every
  obtain ⟨code, other⟩ := accepted.mpr every
  cases refused.symm.trans other

end SubroutineVM.Assembly
