import SubroutineVM.Hex
import SubroutineVM.Text.Blank

/-!
Bytes as a number and as hex digits, there and back. The last base-256 digits of the number that
bytes denote are those bytes, behind zeros where there is room for more (`digits_value`), and the
hex digits of bytes denote the same number as the bytes (`read?_encodeChars`).
-/
namespace SubroutineVM

namespace BigEndian

theorem value_singleton (b : UInt8) : value [b] = b.toNat := by
  simp [value]

theorem value_append_zeros (bytes : List UInt8) (k : Nat) :
    value (bytes ++ List.replicate k 0) = value bytes <<< (8 * k) := by
  induction k with
  | zero => simp
  | succ k ih =>
    rw [List.replicate_succ', ← List.append_assoc, value_concat, ih, UInt8.toNat_zero, Nat.add_zero,
      Nat.mul_succ, Nat.shiftLeft_add, Nat.shiftLeft_eq _ 8, Nat.mul_comm]

theorem value_zeros_append (k : Nat) (bytes : List UInt8) :
    value (List.replicate k 0 ++ bytes) = value bytes := by
  induction k with
  | zero => rfl
  | succ k ih => exact ih

theorem digits_zero (width : Nat) : digits width 0 = List.replicate width 0 := by
  induction width with
  | zero => rfl
  | succ width ih =>
    rw [digits, Nat.zero_div, ih, List.replicate_succ']
    rfl

theorem digits_value {bytes : List UInt8} {width : Nat} (room : bytes.length ≤ width) :
    digits width (value bytes) = List.replicate (width - bytes.length) 0 ++ bytes := by
  induction width generalizing bytes with
  | zero =>
    have empty : bytes = [] := List.length_eq_zero_iff.mp (by omega)
    subst empty
    rfl
  | succ width ih =>
    rcases List.eq_nil_or_concat bytes with rfl | ⟨front, last, rfl⟩
    · exact (digits_zero _).trans (by simp)
    · -- The last byte is the last digit, and the bytes before it are the digits before.
      rw [List.concat_eq_append, List.length_append, List.length_singleton] at room ⊢
      have bound := last.toNat_lt
      have quotient : value (front ++ [last]) / 256 = value front := by
        rw [value_concat]
        omega
      have digit : UInt8.ofNat (value (front ++ [last])) = last := by
        rw [value_concat]
        apply UInt8.toNat_inj.mp
        rw [UInt8.toNat_ofNat']
        omega
      rw [digits, quotient, digit, ih (by omega), List.append_assoc, Nat.add_sub_add_right]

theorem value_lt {bytes : List UInt8} {width : Nat} (room : bytes.length ≤ width) :
    value bytes < 1 <<< (8 * width) := by
  have self : digits bytes.length (value bytes) = bytes := by
    rw [digits_value (Nat.le_refl _), Nat.sub_self]
    rfl
  have bound : value bytes % (1 <<< (8 * bytes.length)) < 1 <<< (8 * bytes.length) := by
    apply Nat.mod_lt
    rw [Nat.one_shiftLeft]
    exact Nat.two_pow_pos _
  rw [← value_digits, self] at bound
  have wider : 1 <<< (8 * bytes.length) ≤ 1 <<< (8 * width) := by
    rw [Nat.one_shiftLeft, Nat.one_shiftLeft]
    exact Nat.pow_le_pow_right (by decide) (by omega)
  exact Nat.lt_of_lt_of_le bound wider

theorem value_injective {front back : List UInt8} (length : front.length = back.length)
    (same : value front = value back) : front = back := by
  have first := digits_value (Nat.le_refl front.length)
  have second := digits_value (Nat.le_refl back.length)
  rw [Nat.sub_self, List.replicate_zero, List.nil_append] at first second
  rw [← first, ← second, same, length]

end BigEndian

namespace Hex

theorem digit_sound {n : Nat} (bound : n < 16) :
    Digits.hex? (Nat.digitChar n) = some n ∧ Blank.isBlank (Nat.digitChar n) = false ∧
      Nat.digitChar n ≠ ';' ∧ Nat.digitChar n ≠ 'x' := by
  have every : ∀ k : Fin 16, Digits.hex? (Nat.digitChar k) = some k.val ∧
      Blank.isBlank (Nat.digitChar k) = false ∧ Nat.digitChar k ≠ ';' ∧
      Nat.digitChar k ≠ 'x' := by decide
  exact every ⟨n, bound⟩

theorem encodeChars_cons (b : UInt8) (rest : List UInt8) :
    encodeChars (b :: rest) =
      Nat.digitChar (b.toNat / 16) :: Nat.digitChar (b.toNat % 16) :: encodeChars rest := rfl

theorem length_encodeChars (bytes : List UInt8) :
    (encodeChars bytes).length = 2 * bytes.length := by
  induction bytes with
  | nil => rfl
  | cons b rest ih =>
    rw [encodeChars_cons, List.length_cons, List.length_cons, List.length_cons, ih]
    omega

theorem mem_encodeChars {bytes : List UInt8} {c : Char} (member : c ∈ encodeChars bytes) :
    ∃ n, n < 16 ∧ c = Nat.digitChar n := by
  induction bytes with
  | nil => cases member
  | cons b rest ih =>
    have bound := b.toNat_lt
    rw [encodeChars_cons] at member
    rcases List.mem_cons.mp member with rfl | member
    · exact ⟨_, by omega, rfl⟩
    · rcases List.mem_cons.mp member with rfl | later
      · exact ⟨_, by omega, rfl⟩
      · exact ih later

theorem read?_encodeChars (bytes : List UInt8) :
    Digits.read? 16 Digits.hex? (encodeChars bytes) = some (BigEndian.value bytes) := by
  suffices counted : ∀ total : Nat,
      (encodeChars bytes).foldlM (fun total c => (Digits.hex? c).map (16 * total + ·)) total =
        some (bytes.foldl (fun total b => 256 * total + b.toNat) total) from counted 0
  -- Two digits later the total is that of one byte later.
  induction bytes with
  | nil => intro total; rfl
  | cons b rest ih =>
    intro total
    have bound := b.toNat_lt
    have high := (digit_sound (n := b.toNat / 16) (by omega)).1
    have low := (digit_sound (n := b.toNat % 16) (by omega)).1
    have byte : 16 * (16 * total + b.toNat / 16) + b.toNat % 16 = 256 * total + b.toNat := by
      omega
    rw [encodeChars_cons, List.foldlM_cons, high, Option.map_some, Option.bind_eq_bind,
      Option.bind_some, List.foldlM_cons, low, Option.map_some, Option.bind_eq_bind,
      Option.bind_some, byte, ih, List.foldl_cons]

theorem encodeChars_injective {front back : List UInt8}
    (same : encodeChars front = encodeChars back) : front = back := by
  have length := congrArg List.length same
  rw [length_encodeChars, length_encodeChars] at length
  have number := read?_encodeChars front
  rw [same, read?_encodeChars] at number
  exact BigEndian.value_injective (by omega) (Option.some.inj number).symm

end Hex

end SubroutineVM
