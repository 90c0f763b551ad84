import Mathlib.Data.List.Forall2
import Mathlib.Data.Nat.Digits.Defs
import SubroutineVM.Digits
import SubroutineVM.Text.Blank

/-!
Digit characters by list, and numbers by their digits. A character is a digit just when it is in
the list of its base (`hex?_eq_some_iff`, `decimal?_eq_some_iff`), a hex digit just when its lower
case is written for a value (`hex?_eq_some_iff_toLower`), and a run of digits denotes the number
that has these digits (`read?_eq_some_iff`).
-/
namespace SubroutineVM.Digits

def IsHex (c : Char) (digit : Nat) : Prop :=
  "0123456789abcdef".toList[digit]? = some c ∨ "0123456789ABCDEF".toList[digit]? = some c

def IsDecimal (c : Char) (digit : Nat) : Prop := "0123456789".toList[digit]? = some c

instance (c : Char) (digit : Nat) : Decidable (IsHex c digit) :=
  inferInstanceAs (Decidable (_ ∨ _))

instance (c : Char) (digit : Nat) : Decidable (IsDecimal c digit) :=
  inferInstanceAs (Decidable (_ = _))

section Reading

variable {c : Char} {digit : Nat}

theorem ascii_of_hex? (read : hex? c = some digit) : c.toNat < 128 := by
  simp only [hex?, Char.le_def, UInt32.le_iff_toNat_le, Char.reduceVal, UInt32.reduceToNat] at read
  rw [Char.toNat]
  split at read
  · omega
  · split at read
    · omega
    · split at read
      · omega
      · cases read

/-- What is checked for each code below 128 holds of every ASCII character. -/
@[elab_as_elim]
theorem forall_ascii {motive : Char → Prop} (ascii : c.toNat < 128)
    (every : ∀ n : Fin 128, motive (Char.ofNat n)) : motive c := by
  have here := every ⟨c.toNat, ascii⟩
  rwa [Char.ofNat_toNat] at here

theorem hex?_of_decimal? (read : decimal? c = some digit) : hex? c = some digit := by
  rw [decimal?] at read
  split at read
  · rename_i inside
    rw [hex?, if_pos inside, read]
  · cases read

theorem hex?_eq_some_iff : hex? c = some digit ↔ IsHex c digit := by
  constructor
  · intro read
    have every : ∀ n : Fin 128, ∀ digit ∈ hex? (Char.ofNat n), IsHex (Char.ofNat n) digit := by
      decide
    have here : ∀ digit ∈ hex? c, IsHex c digit := forall_ascii (ascii_of_hex? read) every
    exact here digit read
  · have every : ∀ n : Fin 16, hex? "0123456789abcdef".toList[n] = some n.val ∧
        hex? "0123456789ABCDEF".toList[n] = some n.val := by decide
    rintro (lower | upper)
    · obtain ⟨inside, rfl⟩ := List.getElem?_eq_some_iff.mp lower
      exact (every ⟨digit, inside⟩).1
    · obtain ⟨inside, rfl⟩ := List.getElem?_eq_some_iff.mp upper
      exact (every ⟨digit, inside⟩).2

theorem ascii_of_toLower (ascii : c.toLower.toNat < 128) : c.toNat < 128 := by
  by_cases upper : c.val ≥ 'A'.val ∧ c.val ≤ 'Z'.val
  · exact Nat.lt_of_le_of_lt (UInt32.le_iff_toNat_le.mp upper.2) (by decide)
  · have same : c.toLower = c := dif_neg upper
    rwa [same] at ascii

theorem hex?_eq_some_iff_toLower :
    hex? c = some digit ↔ digit < 16 ∧ c.toLower = Nat.digitChar digit := by
  constructor
  · intro read
    have every : ∀ n : Fin 128, ∀ digit ∈ hex? (Char.ofNat n), digit < 16 ∧
        (Char.ofNat n).toLower = Nat.digitChar digit := by decide
    have here : ∀ digit ∈ hex? c, digit < 16 ∧ c.toLower = Nat.digitChar digit :=
      forall_ascii (ascii_of_hex? read) every
    exact here digit read
  · rintro ⟨bound, same⟩
    have every : ∀ n : Fin 128, ∀ digit : Fin 16,
        (Char.ofNat n).toLower = Nat.digitChar digit → hex? (Char.ofNat n) = some digit.val := by
      decide +kernel
    have small : ∀ digit : Fin 16, (Nat.digitChar digit).toNat < 128 := by decide
    have ascii := ascii_of_toLower (same ▸ small ⟨digit, bound⟩)
    have here : ∀ digit : Fin 16, c.toLower = Nat.digitChar digit → hex? c = some digit.val :=
      forall_ascii ascii every
    exact here ⟨digit, bound⟩ same

theorem solid_of_hex? (read : hex? c = some digit) :
    Blank.isBlank c = false ∧ c ≠ 'x' ∧ c ≠ 'X' := by
  have every : ∀ n : Fin 128, (hex? (Char.ofNat n)).isSome = true →
      Blank.isBlank (Char.ofNat n) = false ∧ Char.ofNat n ≠ 'x' ∧ Char.ofNat n ≠ 'X' := by decide
  have here : (hex? c).isSome = true → Blank.isBlank c = false ∧ c ≠ 'x' ∧ c ≠ 'X' :=
    forall_ascii (ascii_of_hex? read) every
  exact here (Option.isSome_of_eq_some read)

theorem zero_of_toLower (lower : c.toLower = '0') : c = '0' := by
  have every : ∀ n : Fin 128, (Char.ofNat n).toLower = '0' → Char.ofNat n = '0' := by decide
  have ascii : c.toNat < 128 := ascii_of_toLower (by rw [lower]; decide)
  have here : c.toLower = '0' → c = '0' := forall_ascii ascii every
  exact here lower

theorem x_of_toLower (lower : c.toLower = 'x') : c = 'x' ∨ c = 'X' := by
  have every : ∀ n : Fin 128, (Char.ofNat n).toLower = 'x' →
      Char.ofNat n = 'x' ∨ Char.ofNat n = 'X' := by decide
  have ascii : c.toNat < 128 := ascii_of_toLower (by rw [lower]; decide)
  have here : c.toLower = 'x' → c = 'x' ∨ c = 'X' := forall_ascii ascii every
  exact here lower

theorem decimal?_eq_some_iff : decimal? c = some digit ↔ IsDecimal c digit := by
  constructor
  · intro read
    have every : ∀ n : Fin 128, ∀ digit ∈ decimal? (Char.ofNat n),
        IsDecimal (Char.ofNat n) digit := by decide
    have here : ∀ digit ∈ decimal? c, IsDecimal c digit :=
      forall_ascii (ascii_of_hex? (hex?_of_decimal? read)) every
    exact here digit read
  · intro listed
    have every : ∀ n : Fin 10, decimal? "0123456789".toList[n] = some n.val := by decide
    obtain ⟨inside, rfl⟩ := List.getElem?_eq_some_iff.mp listed
    exact every ⟨digit, inside⟩

variable {base total value : Nat} {digit? : Char → Option Nat} {IsDigit : Char → Nat → Prop}

theorem foldlM_eq_some_iff (known : ∀ {c digit}, digit? c = some digit ↔ IsDigit c digit)
    {digits : List Char} :
    digits.foldlM (fun total c => (digit? c).map (base * total + ·)) total = some value ↔
      ∃ places, List.Forall₂ IsDigit digits places ∧
        places.foldl (fun total digit => base * total + digit) total = value := by
  induction digits generalizing total with
  | nil => simp [pure]
  | cons c digits ih =>
    rw [List.foldlM_cons, Option.bind_eq_bind, Option.bind_eq_some_iff]
    constructor
    · intro read
      obtain ⟨more, first, rest⟩ := read
      obtain ⟨digit, here, rfl⟩ := Option.map_eq_some_iff.mp first
      obtain ⟨places, behind, same⟩ := ih.mp rest
      exact ⟨digit :: places, .cons (known.mp here) behind, same⟩
    · intro listed
      obtain ⟨_, every, same⟩ := listed
      cases every with
      | @cons _ digit _ places here behind =>
        exact ⟨_, Option.map_eq_some_iff.mpr ⟨digit, known.mpr here, rfl⟩,
          ih.mpr ⟨places, behind, same⟩⟩

theorem read?_eq_some_iff (known : ∀ {c digit}, digit? c = some digit ↔ IsDigit c digit)
    {digits : List Char} : read? base digit? digits = some value ↔
      ∃ places, List.Forall₂ IsDigit digits places ∧ Nat.ofDigits base places.reverse = value := by
  rw [read?, foldlM_eq_some_iff known]
  simp only [Nat.ofDigits_eq_foldr, List.foldr_reverse, Nat.cast_id, Nat.add_comm]

end Reading

end SubroutineVM.Digits
