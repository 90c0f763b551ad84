import SubroutineVM.Machine.State
import SubroutineVM.Proofs.Code.Segmentation

/-!
Words that are taken for code offsets. A destination is compared with the code as a number, and an
offset has 64 bits. A word that is too wide for an offset stands for no place in a code whose
offsets have 64 bits (`filter_toOffset?`), so that jumps and calls do the same when they first ask
the word for its offset (`jump_by_offset`, `callSubroutine_by_offset`).
-/
namespace SubroutineVM

/-- All offsets of the code have 64 bits. -/
def Code.Addressable (c : Code) : Prop := c.size ≤ 1 <<< 64

namespace Word

variable {w : Word} {offset : Nat}

theorem toOffset?_eq_some_iff :
    w.toOffset? = some offset ↔ w.toNat < 1 <<< 64 ∧ w.toNat = offset := by
  simp [toOffset?]

theorem toOffset?_eq_none_iff : w.toOffset? = none ↔ 1 <<< 64 ≤ w.toNat := by
  simp [toOffset?]

/-- A test that only places in the code pass is the same for a word and for its offset. -/
theorem filter_toOffset? {c : Code} {allowed : Nat → Bool} (addressable : c.Addressable)
    (inside : ∀ offset, allowed offset = true → offset < c.size) (w : Word) :
    w.toOffset?.filter allowed = if allowed w.toNat then some w.toNat else none := by
  cases denoted : w.toOffset? with
  | some offset =>
    obtain ⟨-, rfl⟩ := toOffset?_eq_some_iff.mp denoted
    exact Option.filter_some
  | none =>
    have wide := toOffset?_eq_none_iff.mp denoted
    have refused : ¬ allowed w.toNat = true := by
      intro passes
      exact absurd (inside _ passes) (Nat.not_lt.mpr (Nat.le_trans addressable wide))
    rw [if_neg refused, Option.filter_none]

end Word

namespace Code

variable {c : Code} {offset : Nat}

theorem holds_lt_size {op : Opcode} (held : c.holds offset op = true) : offset < c.size :=
  marked_lt_size (holds_iff.mp held).1

theorem target_lt_size
    (target : (c.isJumpDestination offset || c.isSubroutineEntry offset) = true) :
    offset < c.size := by
  rcases Bool.or_eq_true_iff.mp target with destination | entry
  · exact holds_lt_size destination
  · exact holds_lt_size entry

end Code

namespace State

variable {c : Context} (addressable : c.code.Addressable)

include addressable

theorem jump_by_offset (dest : Word) (s : State) : s.jump c dest =
    match dest.toOffset?.filter fun offset =>
      c.code.isJumpDestination offset || c.code.isSubroutineEntry offset with
    | some offset => .next { s with pc := offset }
    | none => .fault s (.invalidJumpDestination dest) := by
  rw [Word.filter_toOffset? addressable (fun _ => Code.target_lt_size), jump]
  split <;> rfl

theorem callSubroutine_by_offset (s : State) : s.callSubroutine c =
    match s.stack.peek? 0 with
    | none => .fault s (.stackUnderflow s.stack.size 1)
    | some dest =>
      match dest.toOffset?.filter c.code.isSubroutineEntry with
      | none => .fault s (.invalidJumpDestination dest)
      | some offset =>
        match s.returns.save (s.pc + 1) with
        | .error _ => .fault s .returnStackOverflow
        | .ok returns =>
          { s with returns }.popping fun _ s => .next { s with pc := offset, landing := true } := by
  rw [callSubroutine]
  cases s.stack.peek? 0 with
  | none => rfl
  | some dest =>
    have asked : dest.toOffset?.filter c.code.isSubroutineEntry =
        if c.code.isSubroutineEntry dest.toNat then some dest.toNat else none :=
      Word.filter_toOffset? addressable (fun _ => Code.holds_lt_size) dest
    simp only [asked]
    split <;> rfl

end State

end SubroutineVM
