import Mathlib.Data.List.Basic
import SubroutineVM.Json
import SubroutineVM.Proofs.Text.Numerals

/-!
Texts of one line. JSON that is written without spaces is one line, whatever texts are in it
(`isLine_compact`).
-/
namespace SubroutineVM

def IsLine (text : String) : Prop := '\n' ∉ text.toList

instance (text : String) : Decidable (IsLine text) := inferInstanceAs (Decidable (_ ∉ _))

section Texts

variable {front back separator : String} {items : List String}

theorem isLine_append (first : IsLine front) (second : IsLine back) : IsLine (front ++ back) := by
  rw [IsLine, String.toList_append, List.mem_append]
  rintro (inFront | inBack)
  · exact first inFront
  · exact second inBack

theorem isLine_framed {opening closing text : String} (first : IsLine opening)
    (between : IsLine text) (last : IsLine closing) : IsLine (opening ++ text ++ closing) :=
  isLine_append (isLine_append first between) last

theorem isLine_join (every : ∀ item ∈ items, IsLine item) : IsLine (String.join items) := by
  rw [IsLine, String.toList_join, List.mem_flatMap]
  rintro ⟨item, member, inside⟩
  exact every item member inside

theorem isLine_intercalate (clear : IsLine separator) (every : ∀ item ∈ items, IsLine item) :
    IsLine (separator.intercalate items) := by
  induction items with
  | nil =>
    rw [String.intercalate_nil]
    decide
  | cons first rest ih =>
    obtain ⟨here, later⟩ := List.forall_mem_cons.mp every
    cases rest with
    | nil => rwa [String.intercalate_singleton]
    | cons second rest =>
      rw [String.intercalate_cons_cons]
      exact isLine_append (isLine_append here clear) (ih later)

theorem isLine_number (n : Nat) : IsLine (toString n) := by
  rw [IsLine, Nat.toString_eq_repr, Nat.toList_repr]
  intro member
  have digit := Nat.isDigit_of_mem_toDigits (by decide) (by decide) member
  exact absurd digit (by decide)

theorem newline_ne_digitChar {n : Nat} (bound : n < 16) : '\n' ≠ Nat.digitChar n := by
  intro same
  have solid := (Hex.digit_sound bound).2.1
  rw [← same] at solid
  exact absurd solid (by decide)

end Texts

namespace Json

theorem isLine_escape (c : Char) : IsLine (escape c) := by
  rw [escape]
  split
  case h_8 =>
    split
    · rename_i control
      have high := newline_ne_digitChar (n := c.toNat / 16) (by omega)
      have low := newline_ne_digitChar (n := c.toNat % 16) (by omega)
      refine isLine_append (by decide) ?_
      rw [IsLine, String.toList_ofList]
      simp [high, low]
    · rename_i printed
      rw [IsLine, String.toList_singleton, List.mem_singleton]
      rintro rfl
      exact printed (by decide)
  all_goals decide

theorem isLine_quote (s : String) : IsLine (quote s) := by
  refine isLine_framed (by decide) (isLine_join ?_) (by decide)
  intro piece member
  obtain ⟨c, -, rfl⟩ := List.mem_map.mp member
  exact isLine_escape c

theorem isLine_compact (v : Value) : IsLine v.compact := by
  induction v using Value.compact.induct with
  | case1 n =>
    rw [Value.compact]
    exact isLine_number n
  | case2 s =>
    rw [Value.compact]
    exact isLine_quote s
  | case3 items ih =>
    rw [Value.compact]
    refine isLine_framed (by decide) (isLine_intercalate (by decide) ?_) (by decide)
    intro text member
    obtain ⟨⟨item, inside⟩, -, rfl⟩ := List.mem_map.mp member
    exact ih item inside
  | case4 fields ih =>
    rw [Value.compact]
    refine isLine_framed (by decide) (isLine_intercalate (by decide) ?_) (by decide)
    intro text member
    obtain ⟨⟨field, inside⟩, -, rfl⟩ := List.mem_map.mp member
    exact isLine_framed (isLine_quote _) (by decide) (ih field inside)

end Json

end SubroutineVM
