import SubroutineVM.Code
import SubroutineVM.Proofs.Text.Digits
import SubroutineVM.Proofs.Text.Numerals

/-!
Hex read back. What counts of a text stands between the white space at its ends and behind one
marker (`IsBare`). It is read just when it is pairs of hex digits, to the bytes whose hex it is in
lower case, and otherwise the report is of its first fault (`hex_reading_exact`).
-/
namespace SubroutineVM

namespace Blank

def Trims (text body : List Char) : Prop :=
  ∃ before after, text = before ++ body ++ after ∧ (∀ c ∈ before, isBlank c = true) ∧
    (∀ c ∈ after, isBlank c = true) ∧ (∀ c ∈ body.head?, isBlank c = false) ∧
    ∀ c ∈ body.getLast?, isBlank c = false

section Trimming

variable {text before body after : List Char}

theorem dropWhile_framed (left : ∀ c ∈ before, isBlank c = true)
    (solid : ∀ c ∈ body.head?, isBlank c = false) :
    (before ++ body).dropWhile isBlank = body := by
  rw [List.dropWhile_append_of_pos left]
  cases body with
  | nil => rfl
  | cons c body =>
    have first := solid c rfl
    rw [List.dropWhile_cons_of_neg (by simp [first])]

theorem head_dropWhile (text : List Char) :
    ∀ c ∈ (text.dropWhile isBlank).head?, isBlank c = false := by
  intro c first
  have kept := List.head?_dropWhile_not isBlank text
  rw [Option.mem_def.mp first] at kept
  exact kept

theorem trim_framed (left : ∀ c ∈ before, isBlank c = true) (right : ∀ c ∈ after, isBlank c = true)
    (first : ∀ c ∈ body.head?, isBlank c = false) (last : ∀ c ∈ body.getLast?, isBlank c = false) :
    trim (before ++ body ++ after) = body := by
  have mirrored : ∀ c ∈ after.reverse, isBlank c = true := by simpa using right
  cases body with
  | nil =>
    have blank : ∀ c ∈ before ++ after, isBlank c = true := List.forall_mem_append.mpr ⟨left, right⟩
    have none : (before ++ after ++ []).dropWhile isBlank = [] := dropWhile_framed blank (by simp)
    rw [List.append_nil] at none ⊢
    rw [trim, none]
    rfl
  | cons c body =>
    have outer : (before ++ (c :: body ++ after)).dropWhile isBlank = c :: body ++ after :=
      dropWhile_framed left first
    rw [trim, List.append_assoc, outer, List.reverse_append,
      dropWhile_framed mirrored (by rwa [List.head?_reverse]), List.reverse_reverse]

theorem trims_trim (text : List Char) : Trims text (trim text) := by
  let inner := text.dropWhile isBlank
  have split : trim text ++ (inner.reverse.takeWhile isBlank).reverse = inner := by
    rw [trim, ← List.reverse_append, List.takeWhile_append_dropWhile, List.reverse_reverse]
  refine ⟨text.takeWhile isBlank, (inner.reverse.takeWhile isBlank).reverse, ?_, ?_, ?_, ?_, ?_⟩
  · rw [List.append_assoc, split, List.takeWhile_append_dropWhile]
  · exact List.all_eq_true.mp List.all_takeWhile
  · intro c member
    exact List.all_eq_true.mp List.all_takeWhile c (List.mem_reverse.mp member)
  · intro c first
    apply head_dropWhile text c
    rw [← show inner = text.dropWhile isBlank from rfl, ← split, List.head?_append,
      Option.mem_def.mp first]
    rfl
  · intro c last
    rw [trim, List.getLast?_reverse] at last
    exact head_dropWhile _ c last

theorem trims_iff : Trims text body ↔ body = trim text := by
  constructor
  · rintro ⟨before, after, rfl, left, right, first, last⟩
    exact (trim_framed left right first last).symm
  · rintro rfl
    exact trims_trim text

end Trimming

end Blank

namespace Hex

/-- What is left of a text without a marker in front. A second marker stays. -/
inductive Unmarks : List Char → List Char → Prop where
  | marked {marker : Char} {digits : List Char} (x : marker = 'x' ∨ marker = 'X') :
      Unmarks ('0' :: marker :: digits) digits
  | plain {digits : List Char}
      (none : ∀ marker rest, digits = '0' :: marker :: rest → marker ≠ 'x' ∧ marker ≠ 'X') :
      Unmarks digits digits

/-- The part of a text that is to be digits. White space behind a marker belongs to it. -/
def IsBare (text digits : List Char) : Prop := ∃ body, Blank.Trims text body ∧ Unmarks body digits

theorem isBare_iff {text digits : List Char} : IsBare text digits ↔ digits = bare text := by
  rw [IsBare]
  simp only [Blank.trims_iff, exists_eq_left]
  generalize trimmed : Blank.trim text = body
  constructor
  · intro unmarks
    cases unmarks with
    | marked x =>
      rw [bare, trimmed]
      rcases x with rfl | rfl <;> rfl
    | plain none =>
      rw [bare, trimmed]
      split
      · exact absurd rfl (none _ _ rfl).1
      · exact absurd rfl (none _ _ rfl).2
      · rfl
  · rintro rfl
    rw [bare, trimmed]
    split
    · exact .marked (.inl rfl)
    · exact .marked (.inr rfl)
    · rename_i lower upper
      refine .plain ?_
      rintro marker rest rfl
      constructor
      · rintro rfl
        exact lower _ rfl
      · rintro rfl
        exact upper _ rfl

def IsDigit (b : UInt8) : Prop :=
  0x30 ≤ b ∧ b ≤ 0x39 ∨ 0x41 ≤ b ∧ b ≤ 0x46 ∨ 0x61 ≤ b ∧ b ≤ 0x66

instance : DecidablePred IsDigit := fun _ => inferInstanceAs (Decidable (_ ∨ _))

section Bytes

variable {b : UInt8} {bytes result : List UInt8} {position : Nat}

@[elab_as_elim]
theorem forall_byte {motive : UInt8 → Prop} (b : UInt8)
    (every : ∀ n : Fin 256, motive (UInt8.ofNat n)) : motive b := by
  have here := every ⟨b.toNat, b.toNat_lt⟩
  rwa [UInt8.ofNat_toNat] at here

theorem digit?_isSome_iff : (digit? b).isSome = true ↔ IsDigit b := by
  refine forall_byte b ?_
  decide +kernel

theorem stray?_eq_none_iff (start : Nat) : stray? start bytes = none ↔ ∀ b ∈ bytes, IsDigit b := by
  induction bytes generalizing start with
  | nil => simp [stray?]
  | cons first bytes ih =>
    rw [stray?, List.forall_mem_cons, ← digit?_isSome_iff, ← ih (start + 1)]
    split
    · rename_i digit
      simp [digit]
    · rename_i other
      simp [other]

theorem stray?_eq_some_iff (start : Nat) : stray? start bytes = some (b, position) ↔
    ∃ front rest, bytes = front ++ b :: rest ∧ start + front.length = position ∧
      (∀ d ∈ front, IsDigit d) ∧ ¬ IsDigit b := by
  induction bytes generalizing start with
  | nil => simp [stray?]
  | cons first bytes ih =>
    rw [stray?]
    split
    · rename_i digit
      rw [digit?_isSome_iff] at digit
      rw [ih]
      constructor
      · rintro ⟨front, rest, rfl, place, before, stray⟩
        refine ⟨first :: front, rest, rfl, ?_, List.forall_mem_cons.mpr ⟨digit, before⟩, stray⟩
        rw [List.length_cons]
        omega
      · rintro ⟨front, rest, split, place, before, stray⟩
        cases front with
        | nil =>
          obtain ⟨rfl, rfl⟩ := List.cons.inj split
          exact absurd digit stray
        | cons other front =>
          obtain ⟨rfl, rfl⟩ := List.cons.inj split
          rw [List.length_cons] at place
          exact ⟨front, rest, rfl, by omega, (List.forall_mem_cons.mp before).2, stray⟩
    · rename_i other
      rw [digit?_isSome_iff] at other
      constructor
      · rintro ⟨⟩
        exact ⟨[], bytes, rfl, rfl, by simp, other⟩
      · rintro ⟨front, rest, split, place, before, stray⟩
        cases front with
        | nil =>
          obtain ⟨rfl, rfl⟩ := List.cons.inj split
          rw [← place]
          rfl
        | cons digit front =>
          obtain ⟨rfl, rfl⟩ := List.cons.inj split
          exact absurd (before first List.mem_cons_self) other

theorem decode_eq_ok_iff : decode bytes = .ok result ↔
    bytes.length % 2 = 0 ∧ (∀ b ∈ bytes, IsDigit b) ∧ join bytes = result := by
  rw [← stray?_eq_none_iff 0, decode]
  split
  · rename_i odd
    simp [odd]
  · rename_i odd
    have even : bytes.length % 2 = 0 := by omega
    cases stray? 0 bytes <;> simp [even]

theorem decode_eq_oddLength_iff : decode bytes = .error .oddLength ↔ bytes.length % 2 = 1 := by
  rw [decode]
  split
  · rename_i odd
    simp [odd]
  · rename_i odd
    cases stray? 0 bytes <;> simp [odd]

theorem decode_eq_strayByte_iff : decode bytes = .error (.strayByte b position) ↔
    bytes.length % 2 = 0 ∧ ∃ front rest, bytes = front ++ b :: rest ∧ front.length = position ∧
      (∀ d ∈ front, IsDigit d) ∧ ¬ IsDigit b := by
  have found : stray? 0 bytes = some (b, position) ↔ ∃ front rest, bytes = front ++ b :: rest ∧
      0 + front.length = position ∧ (∀ d ∈ front, IsDigit d) ∧ ¬ IsDigit b := stray?_eq_some_iff 0
  simp only [Nat.zero_add] at found
  rw [← found, decode]
  split
  · rename_i odd
    simp [odd]
  · rename_i odd
    have even : bytes.length % 2 = 0 := by omega
    cases stray? 0 bytes with
    | none => simp
    | some stray => simp [even, Prod.ext_iff]

theorem encodeChars_join (even : bytes.length % 2 = 0) (known : ∀ b ∈ bytes, IsDigit b) :
    encodeChars (join bytes) = bytes.map fun b => (Char.ofNat b.toNat).toLower := by
  induction bytes using join.induct with
  | case1 high low rest ih =>
    obtain ⟨first, known⟩ := List.forall_mem_cons.mp known
    obtain ⟨second, known⟩ := List.forall_mem_cons.mp known
    obtain ⟨h, highRead⟩ := Option.isSome_iff_exists.mp (digit?_isSome_iff.mpr first)
    obtain ⟨l, lowRead⟩ := Option.isSome_iff_exists.mp (digit?_isSome_iff.mpr second)
    obtain ⟨highBound, highChar⟩ := Digits.hex?_eq_some_iff_toLower.mp highRead
    obtain ⟨lowBound, lowChar⟩ := Digits.hex?_eq_some_iff_toLower.mp lowRead
    have byte : (UInt8.ofNat (16 * h + l)).toNat = 16 * h + l := by
      rw [UInt8.toNat_ofNat']
      omega
    rw [List.length_cons, List.length_cons] at even
    rw [join, highRead, lowRead, Option.getD_some, Option.getD_some, encodeChars_cons, byte,
      ih (by omega) known, List.map_cons, List.map_cons, highChar, lowChar,
      show (16 * h + l) / 16 = h by omega, show (16 * h + l) % 16 = l by omega]
  | case2 bytes short =>
    match bytes with
    | [] => rfl
    | [_] => simp at even
    | high :: low :: rest => exact absurd rfl (short high low rest)

end Bytes

section Characters

variable {c : Char} {digits : List Char}

theorem lead_not_digit (x : UInt8) : ¬ IsDigit (x &&& 31 ||| 192) ∧ ¬ IsDigit (x &&& 15 ||| 224) ∧
    ¬ IsDigit (x &&& 7 ||| 240) := by
  refine forall_byte x ?_
  decide +kernel

theorem utf8_of_ascii (ascii : c.toNat < 128) :
    String.utf8EncodeChar c = [c.toUInt8] ∧ Char.ofNat c.toUInt8.toNat = c := by
  have size : c.utf8Size = 1 := by
    rw [Char.utf8Size_eq_one_iff, UInt32.le_iff_toNat_le]
    exact Nat.le_of_lt_succ ascii
  have byte : c.toUInt8.toNat = c.toNat := by
    rw [← Char.toUInt8_val, UInt32.toNat_toUInt8]
    exact Nat.mod_eq_of_lt (Nat.lt_trans ascii (by decide))
  constructor
  · rw [String.utf8EncodeChar_eq_singleton size, Char.toUInt8_val]
  · rw [byte, Char.ofNat_toNat]

/-- A character takes bytes that are all digits just when it is a digit. -/
theorem utf8_digits_iff : (∀ b ∈ String.utf8EncodeChar c, IsDigit b) ↔
    (Digits.hex? c).isSome = true := by
  by_cases ascii : c.toNat < 128
  · obtain ⟨single, back⟩ := utf8_of_ascii ascii
    rw [single, List.forall_mem_singleton, ← digit?_isSome_iff, digit?, back]
  · have unread : Digits.hex? c = none := by
      rw [Option.eq_none_iff_forall_ne_some]
      intro n read
      exact ascii (Digits.ascii_of_hex? read)
    rw [unread]
    constructor
    · intro known
      rcases Char.utf8Size_eq c with one | two | three | four
      · rw [Char.utf8Size_eq_one_iff, UInt32.le_iff_toNat_le] at one
        exact absurd (Nat.lt_succ_of_le one) ascii
      · rw [String.utf8EncodeChar_eq_cons_cons two] at known
        exact absurd (known _ List.mem_cons_self) (lead_not_digit _).1
      · rw [String.utf8EncodeChar_eq_cons_cons_cons three] at known
        exact absurd (known _ List.mem_cons_self) (lead_not_digit _).2.1
      · rw [String.utf8EncodeChar_eq_cons_cons_cons_cons four] at known
        exact absurd (known _ List.mem_cons_self) (lead_not_digit _).2.2
    · rintro ⟨⟩

theorem chars_of_utf8 (known : ∀ b ∈ digits.flatMap String.utf8EncodeChar, IsDigit b) :
    (digits.flatMap String.utf8EncodeChar).map (fun b => Char.ofNat b.toNat) = digits := by
  induction digits with
  | nil => rfl
  | cons c digits ih =>
    rw [List.flatMap_cons] at known ⊢
    obtain ⟨here, later⟩ := List.forall_mem_append.mp known
    obtain ⟨n, read⟩ := Option.isSome_iff_exists.mp (utf8_digits_iff.mp here)
    obtain ⟨single, back⟩ := utf8_of_ascii (Digits.ascii_of_hex? read)
    rw [List.map_append, ih later, single, List.map_singleton, back, List.singleton_append]

theorem encodeChars_join_utf8 (even : (digits.flatMap String.utf8EncodeChar).length % 2 = 0)
    (known : ∀ b ∈ digits.flatMap String.utf8EncodeChar, IsDigit b) :
    encodeChars (join (digits.flatMap String.utf8EncodeChar)) = digits.map Char.toLower := by
  have back := congrArg (List.map Char.toLower) (chars_of_utf8 known)
  rw [List.map_map] at back
  exact (encodeChars_join even known).trans back

section Shown

variable {before shown after : List Char} {bytes : List UInt8}

theorem hex?_of_shown (same : shown.map Char.toLower = encodeChars bytes) :
    ∀ c ∈ shown, ∃ n, Digits.hex? c = some n := by
  intro c member
  have listed : c.toLower ∈ encodeChars bytes := same ▸ List.mem_map_of_mem member
  obtain ⟨n, bound, lower⟩ := mem_encodeChars listed
  exact ⟨n, Digits.hex?_eq_some_iff_toLower.mpr ⟨bound, lower⟩⟩

theorem digits_of_shown (same : shown.map Char.toLower = encodeChars bytes) :
    (shown.flatMap String.utf8EncodeChar).length % 2 = 0 ∧
      ∀ b ∈ shown.flatMap String.utf8EncodeChar, IsDigit b := by
  have known : ∀ b ∈ shown.flatMap String.utf8EncodeChar, IsDigit b := by
    intro b member
    obtain ⟨c, inside, among⟩ := List.mem_flatMap.mp member
    obtain ⟨n, read⟩ := hex?_of_shown same c inside
    exact utf8_digits_iff.mpr (Option.isSome_of_eq_some read) b among
  refine ⟨?_, known⟩
  have bytewise := congrArg List.length (chars_of_utf8 known)
  have charwise := congrArg List.length same
  rw [List.length_map] at bytewise
  rw [List.length_map, length_encodeChars] at charwise
  omega

theorem isBare_framed (left : ∀ c ∈ before, Blank.isBlank c = true)
    (right : ∀ c ∈ after, Blank.isBlank c = true) (solid : ∀ c ∈ shown, Blank.isBlank c = false)
    (unmarks : Unmarks shown digits) : IsBare (before ++ shown ++ after) digits := by
  refine ⟨shown, ⟨before, after, rfl, left, right, ?_, ?_⟩, unmarks⟩
  · intro c first
    exact solid c (List.mem_of_head? first)
  · intro c last
    exact solid c (List.mem_of_getLast? last)

theorem isBare_of_shown (left : ∀ c ∈ before, Blank.isBlank c = true)
    (right : ∀ c ∈ after, Blank.isBlank c = true)
    (same : shown.map Char.toLower = encodeChars bytes) :
    IsBare (before ++ shown ++ after) shown := by
  have solid : ∀ c ∈ shown, Blank.isBlank c = false ∧ c ≠ 'x' ∧ c ≠ 'X' := by
    intro c member
    obtain ⟨n, read⟩ := hex?_of_shown same c member
    exact Digits.solid_of_hex? read
  apply isBare_framed left right (fun c member => (solid c member).1)
  apply Unmarks.plain
  rintro marker rest rfl
  exact (solid marker (by simp)).2

theorem isBare_of_marked (left : ∀ c ∈ before, Blank.isBlank c = true)
    (right : ∀ c ∈ after, Blank.isBlank c = true)
    (same : shown.map Char.toLower = '0' :: 'x' :: encodeChars bytes) :
    ∃ digits, IsBare (before ++ shown ++ after) digits ∧
      digits.map Char.toLower = encodeChars bytes := by
  obtain ⟨zero, marked, rfl, lowerZero, behind⟩ := List.map_eq_cons_iff.mp same
  obtain ⟨marker, digits, rfl, lowerMarker, rest⟩ := List.map_eq_cons_iff.mp behind
  obtain rfl := Digits.zero_of_toLower lowerZero
  have x := Digits.x_of_toLower lowerMarker
  refine ⟨digits, isBare_framed left right ?_ (.marked x), rest⟩
  rw [List.forall_mem_cons, List.forall_mem_cons]
  refine ⟨by decide, ?_, ?_⟩
  · rcases x with rfl | rfl <;> decide
  · intro c member
    obtain ⟨n, read⟩ := hex?_of_shown rest c member
    exact (Digits.solid_of_hex? read).1

end Shown

end Characters

end Hex

namespace Code

section Reading

variable {text : String} {digits : List Char} {code : Code}

theorem toList_hex : code.hex.toList = Hex.encodeChars code.toBytes := by
  rw [hex, Hex.encode, String.toList_ofList]

theorem toList_text : code.text.toList = '0' :: 'x' :: Hex.encodeChars code.toBytes := by
  rw [Code.text, String.toList_append, toList_hex]
  rfl

theorem read_of_bare (bare : Hex.IsBare text.toList digits) :
    Code.read text = (Hex.decode (digits.flatMap String.utf8EncodeChar)).map ofBytes := by
  rw [Code.read, Hex.read, ← Hex.isBare_iff.mp bare]

theorem read_eq_ok_iff (bare : Hex.IsBare text.toList digits) : Code.read text = .ok code ↔
    (digits.flatMap String.utf8EncodeChar).length % 2 = 0 ∧
      (∀ b ∈ digits.flatMap String.utf8EncodeChar, Hex.IsDigit b) ∧
      code.hex.toList = digits.map Char.toLower := by
  have decoded : Code.read text = .ok code ↔
      Hex.decode (digits.flatMap String.utf8EncodeChar) = .ok code.toBytes := by
    rw [read_of_bare bare]
    cases Hex.decode (digits.flatMap String.utf8EncodeChar) with
    | error e => simp [Except.map]
    | ok bytes => simp [Except.map, Code.ext_iff]
  rw [decoded, Hex.decode_eq_ok_iff, toList_hex]
  apply and_congr_right
  intro even
  apply and_congr_right
  intro known
  rw [← Hex.encodeChars_join_utf8 even known]
  constructor
  · intro joined
    rw [joined]
  · intro same
    exact (Hex.encodeChars_injective same).symm

theorem read_eq_error_iff {e : Hex.Error} (bare : Hex.IsBare text.toList digits) :
    Code.read text = .error e ↔ Hex.decode (digits.flatMap String.utf8EncodeChar) = .error e := by
  rw [read_of_bare bare]
  cases Hex.decode (digits.flatMap String.utf8EncodeChar) <;> simp [Except.map]

theorem read_succeeds_iff (bare : Hex.IsBare text.toList digits) :
    (∃ code, Code.read text = .ok code) ↔ (digits.flatMap String.utf8EncodeChar).length % 2 = 0 ∧
      ∀ b ∈ digits.flatMap String.utf8EncodeChar, Hex.IsDigit b := by
  constructor
  · rintro ⟨code, read⟩
    obtain ⟨even, known, _⟩ := (read_eq_ok_iff bare).mp read
    exact ⟨even, known⟩
  · rintro ⟨even, known⟩
    refine ⟨ofBytes (Hex.join (digits.flatMap String.utf8EncodeChar)),
      (read_eq_ok_iff bare).mpr ⟨even, known, ?_⟩⟩
    rw [toList_hex, toBytes_ofBytes, Hex.encodeChars_join_utf8 even known]

theorem read_shown {before shown after : List Char} (left : ∀ c ∈ before, Blank.isBlank c = true)
    (right : ∀ c ∈ after, Blank.isBlank c = true)
    (same : shown.map Char.toLower = code.hex.toList ∨ shown.map Char.toLower = code.text.toList) :
    Code.read (String.ofList (before ++ shown ++ after)) = .ok code := by
  have counts : ∃ digits, Hex.IsBare (String.ofList (before ++ shown ++ after)).toList digits ∧
      digits.map Char.toLower = Hex.encodeChars code.toBytes := by
    rw [toList_hex, toList_text] at same
    rw [String.toList_ofList]
    rcases same with same | same
    · exact ⟨shown, Hex.isBare_of_shown left right same, same⟩
    · exact Hex.isBare_of_marked left right same
  obtain ⟨digits, bare, same⟩ := counts
  obtain ⟨even, known⟩ := Hex.digits_of_shown same
  exact (read_eq_ok_iff bare).mpr ⟨even, known, by rw [toList_hex, same]⟩

end Reading

/-- Every text has one part that is to be digits. It is read just when its bytes are hex digits, in
    pairs, and then its lower case is the hex of the code. An odd number of bytes is reported before
    a byte that is no digit, and of these the first, with its place among the bytes. The hex of a
    code is read back, with or without its marker, whichever case its digits have and whatever white
    space stands around it. -/
theorem hex_reading_exact :
    (∀ text : String, ∃ digits, (∀ other, Hex.IsBare text.toList other ↔ other = digits) ∧
      let bytes := digits.flatMap String.utf8EncodeChar
      ((∃ code, Code.read text = .ok code) ↔
        bytes.length % 2 = 0 ∧ ∀ b ∈ bytes, Hex.IsDigit b) ∧
      (∀ code, Code.read text = .ok code → code.hex.toList = digits.map Char.toLower) ∧
      (Code.read text = .error .oddLength ↔ bytes.length % 2 = 1) ∧
      ∀ b position, Code.read text = .error (.strayByte b position) ↔
        bytes.length % 2 = 0 ∧ ∃ front rest, bytes = front ++ b :: rest ∧
          front.length = position ∧ (∀ d ∈ front, Hex.IsDigit d) ∧ ¬ Hex.IsDigit b) ∧
    ∀ (code : Code) (before shown after : List Char), (∀ c ∈ before, Blank.isBlank c = true) →
      (∀ c ∈ after, Blank.isBlank c = true) →
      shown.map Char.toLower = code.hex.toList ∨ shown.map Char.toLower = code.text.toList →
      Code.read (String.ofList (before ++ shown ++ after)) = .ok code := by
  constructor
  · intro text
    have bare : Hex.IsBare text.toList (Hex.bare text.toList) := Hex.isBare_iff.mpr rfl
    refine ⟨Hex.bare text.toList, fun other => Hex.isBare_iff, read_succeeds_iff bare, ?_, ?_, ?_⟩
    · intro code read
      exact ((read_eq_ok_iff bare).mp read).2.2
    · rw [read_eq_error_iff bare, Hex.decode_eq_oddLength_iff]
    · intro b position
      rw [read_eq_error_iff bare, Hex.decode_eq_strayByte_iff]
  · intro code before shown after left right same
    exact read_shown left right same

theorem mixed_case_read_back :
    let code := ofBytes [0xb2, 0x00, 0xfe]
    Code.read "\u3000 0XB200fE\n" = .ok code ∧ Code.read "b200Fe\t" = .ok code := by
  have wide : ∀ c ∈ "\u3000 ".toList, Blank.isBlank c = true := List.all_eq_true.mp (by decide)
  have lineEnd : ∀ c ∈ "\n".toList, Blank.isBlank c = true := List.all_eq_true.mp (by decide)
  have tab : ∀ c ∈ "\t".toList, Blank.isBlank c = true := List.all_eq_true.mp (by decide)
  have none : ∀ c ∈ [], Blank.isBlank c = true := by simp
  constructor
  · exact hex_reading_exact.2 (ofBytes [0xb2, 0x00, 0xfe]) "\u3000 ".toList "0XB200fE".toList
      "\n".toList wide lineEnd (.inr (by decide))
  · exact hex_reading_exact.2 (ofBytes [0xb2, 0x00, 0xfe]) [] "b200Fe".toList "\t".toList none tab
      (.inl (by decide))

-- Of two markers the second is in the way, and a character beyond ASCII counts as all its bytes.
example : Code.read "0x0xab" = .error (.strayByte 0x78 1) ∧ Code.read "\u00e9" =
    .error (.strayByte 0xc3 0) ∧ Code.read "\u20ac" = .error .oddLength := by decide +kernel

end Code

end SubroutineVM
