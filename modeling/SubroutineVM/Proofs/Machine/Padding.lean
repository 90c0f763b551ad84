import SubroutineVM.Proofs.Code.Extension
import SubroutineVM.Proofs.Machine.Agreement
import SubroutineVM.Proofs.Machine.Safety

/-!
Executions of a code with zero bytes behind it. A zero is a STOP, so that an execution which
comes to the end of the code halts among the zeros where it would have halted at the end, and a
PUSH that is cut off takes zeros for the bytes it misses. Main statement:
`implicit_stop_is_zero_padding`.
-/
namespace SubroutineVM

def Context.padded (c : Context) (k : Nat) : Context := { c with code := c.code ++ .zeros k }

/-- The states that stand for a state once zeros are behind the code: itself inside the code, and at
    the end any that is further on. -/
inductive Beside (c : Context) (s : State) : State → Prop where
  | inside (before : s.pc < c.code.size) : Beside c s s
  | behind {place : Nat} (fetching : s.landing = false) (ended : c.code.size ≤ s.pc)
      (further : c.code.size ≤ place) : Beside c s { s with pc := place }

section Executions

variable {c : Context} {s s' t : State} {k gasLimit : Nat}

theorem Safe.fetching_at_end (safe : Safe c gasLimit s) (ended : c.code.size ≤ s.pc) :
    s.landing = false := by
  rw [← Bool.not_eq_true]
  intro landing
  have inside := Code.marked_lt_size (Code.holds_iff.mp (safe.entry landing)).1
  omega

theorem Safe.beside (safe : Safe c gasLimit s) : Beside c s s := by
  by_cases before : s.pc < c.code.size
  · exact .inside before
  · have ended := Nat.le_of_not_lt before
    exact .behind (safe.fetching_at_end ended) ended ended

theorem targets_padded : s.TargetsAgree c (c.padded k) := by
  intro dest below _
  have holds {op : Opcode} (other : op ≠ .stop) :
      (c.padded k).code.holds dest.toNat op = c.code.holds dest.toNat op :=
    Code.holds_append_zeros other
  have entry : (c.padded k).code.isSubroutineEntry dest.toNat =
      c.code.isSubroutineEntry dest.toNat := holds (by decide)
  refine ⟨?_, entry⟩
  rw [Code.isJumpTarget, Code.isJumpTarget, entry, Code.isJumpDestination, holds (by decide),
    Code.isJumpDestination]

theorem step_padded (before : s.pc < c.code.size) : step (c.padded k) s = step c s ∨
    ∃ t place, step c s = .next t ∧ step (c.padded k) s = .next { t with pc := place } ∧
      c.code.size ≤ t.pc ∧ c.code.size ≤ place := by
  have size : (c.padded k).code.size = c.code.size + (Code.zeros k).size := Code.size_append _ _
  rcases step_agrees (c := c) (d := c.padded k) rfl (Code.byte?_append_left before)
    (fun n _ => Code.immediate_append_zeros c.code k _ _)
    (fun op _ => targets_padded.destination op) with
    same | ⟨op, t, -, moved, place, moved'⟩
  · exact .inl same
  · rw [State.behind] at place
    rw [State.behind, size] at moved'
    -- The zeros make a difference only where the code has no place behind the instruction.
    by_cases room : s.pc + 1 + op.immediateLength ≤ c.code.size
    · left
      rw [moved, moved', Nat.min_eq_left (by omega), ← Nat.min_eq_left room, ← place]
    · exact .inr ⟨t, _, moved, moved', by omega, by omega⟩

theorem step_zeros (fetching : s.landing = false) (height : s.stack.size ≤ c.stackLimit)
    (ended : c.code.size ≤ s.pc) : step (c.padded k) s = .halt s := by
  cases here : (c.padded k).code.byte? s.pc with
  | none => exact step_ended fetching here
  | some byte =>
    have zero : byte = 0 := Code.byte?_append_zeros ended here
    have fetched : (c.padded k).code.opcode? s.pc = some .stop := by
      rw [Code.opcode?, here, zero]
      rfl
    have fits : s.stackFault? (c.padded k) .stop = none :=
      State.stackFault?_eq_none_iff.mpr ⟨Nat.zero_le _, height⟩
    rw [step_fetched fetching fetched, execute_paid fits (Nat.zero_le _)]
    rfl

theorem step_at_end (fetching : s.landing = false) (ended : c.code.size ≤ s.pc) :
    step c s = .halt s := by
  refine step_ended fetching ?_
  rw [Code.size_eq] at ended
  rw [Code.byte?_eq, List.getElem?_eq_none ended]

theorem ending_padded (safe : Safe c gasLimit s) (beside : Beside c s s') :
    ∃ place,
      ending (c.padded k) s' = ⟨{ (ending c s).state with pc := place }, (ending c s).cause?⟩ ∧
      (place = (ending c s).state.pc ∨ (ending c s).cause? = none ∧
        c.code.size ≤ (ending c s).state.pc ∧ c.code.size ≤ place) := by
  induction s using execution_induction (c := c) generalizing s' with
  | next s t moved ih =>
    have safe' : Safe c gasLimit t := safe_move safe (move_of moved)
    cases beside with
    | inside before =>
      rw [ending_next moved]
      rcases step_padded (k := k) before with same | ⟨u, place, moved', apart, ended, further⟩
      · rw [ending_next (same.trans moved)]
        exact ih safe' safe'.beside
      · cases moved.symm.trans moved'
        rw [ending_next apart]
        exact ih safe' (.behind (safe'.fetching_at_end ended) ended further)
    | behind fetching ended => cases moved.symm.trans (step_at_end fetching ended)
  | halted s t moved =>
    rw [ending_halt moved]
    cases beside with
    | inside before =>
      rcases step_padded (k := k) before with same | ⟨u, place, moved', -⟩
      · rw [ending_halt (same.trans moved)]
        exact ⟨t.pc, rfl, .inl rfl⟩
      · cases moved.symm.trans moved'
    | @behind place fetching ended further =>
      cases moved.symm.trans (step_at_end fetching ended)
      rw [ending_halt (step_zeros (by exact fetching) (by exact safe.height) (by exact further))]
      exact ⟨place, rfl, .inr ⟨rfl, ended, further⟩⟩
  | faulted s t cause moved =>
    rw [ending_fault moved]
    cases beside with
    | inside before =>
      rcases step_padded (k := k) before with same | ⟨u, place, moved', -⟩
      · rw [ending_fault (same.trans moved)]
        exact ⟨t.pc, rfl, .inl rfl⟩
      · cases moved.symm.trans moved'
    | behind fetching ended => cases moved.symm.trans (step_at_end fetching ended)

theorem halted_inside (safe : Safe c gasLimit s) (halted : (ending c s).cause? = none)
    (inside : (ending c s).state.pc < c.code.size) :
    c.code.holds (ending c s).state.pc .stop = true := by
  obtain ⟨u, member, last⟩ := ending_spec c s
  rcases last with ⟨t, moved, final⟩ | ⟨t, cause, moved, final⟩
  · rw [final] at inside ⊢
    cases move_of moved with
    | ended fetching none =>
      rw [Code.byte?_eq, List.getElem?_eq_none_iff, ← Code.size_eq] at none
      exact absurd inside (Nat.not_lt.mpr none)
    | performed fetching fetched fits enough effect =>
      cases effect with
      | stop => exact Code.holds_iff.mpr ⟨(safe_states safe u member).pc.marked fetched, fetched⟩
  · rw [final] at halted
    cases halted

end Executions

/-- Zeros behind a code do not change how it ends: a success stays one with the same gas and data
    stack, at the same STOP if it halts on one, and an abort stays the same abort. -/
theorem implicit_stop_is_zero_padding (code : Code) (k : Nat) (config : Config) :
    (∀ outcome, run code config = .ok outcome → ∃ pc,
      run (code ++ .zeros k) config = .ok { outcome with pc } ∧
      (outcome.pc < code.size → code.holds outcome.pc .stop = true ∧ pc = outcome.pc) ∧
      (code.size ≤ outcome.pc → code.size ≤ pc)) ∧
    ∀ fault, run code config = .error fault → run (code ++ .zeros k) config = .error fault := by
  have safe := safe_start ⟨code, config.stackLimit⟩ config.gasLimit
  obtain ⟨place, padded, reached⟩ := ending_padded (k := k) safe safe.beside
  rw [Context.padded] at padded
  simp only [run_eq]
  constructor
  · intro outcome succeeded
    obtain ⟨halted, rfl⟩ := Ending.result_eq_ok_iff.mp succeeded
    refine ⟨place, ?_, ?_, ?_⟩
    · rw [padded, halted]
      rfl
    · intro inside
      refine ⟨halted_inside safe halted inside, ?_⟩
      rcases reached with same | ⟨-, ended, -⟩
      · exact same
      · exact absurd inside (Nat.not_lt.mpr ended)
    · intro ended
      rcases reached with same | ⟨-, -, further⟩
      · exact same ▸ ended
      · exact further
  · intro fault failed
    obtain ⟨aborted, pc⟩ := Ending.result_eq_error_iff.mp failed
    rw [padded, Ending.result_eq_error_iff]
    refine ⟨aborted, ?_⟩
    rcases reached with same | ⟨halted, -, -⟩
    · exact same.trans pc
    · cases halted.symm.trans aborted

theorem zeros_behind_cut_off_push :
    (∃ pc, run (.ofBytes [0x61, 0x01] ++ .zeros 3) ⟨3, 1024⟩ = .ok ⟨3, .ofItems [0x100], pc⟩ ∧
      2 ≤ pc) ∧
    run (.ofBytes [0x00, 0x61] ++ .zeros 3) ⟨3, 1024⟩ = .ok ⟨0, .empty, 0⟩ ∧
    run (.ofBytes [0x60, 0x04, 0x56] ++ .zeros 3) ⟨11, 1024⟩ =
      .error ⟨2, .invalidJumpDestination 4⟩ := by
  have pushed : run (.ofBytes [0x61, 0x01]) ⟨3, 1024⟩ = .ok ⟨3, .ofItems [0x100], 2⟩ := by
    rw [run_eq, Ending.result_eq_ok_iff]
    decide +kernel
  have stopped : run (.ofBytes [0x00, 0x61]) ⟨3, 1024⟩ = .ok ⟨0, .empty, 0⟩ := by
    rw [run_eq, Ending.result_eq_ok_iff]
    decide +kernel
  have strayed : run (.ofBytes [0x60, 0x04, 0x56]) ⟨11, 1024⟩ =
      .error ⟨2, .invalidJumpDestination 4⟩ := by
    rw [run_eq, Ending.result_eq_error_iff]
    decide +kernel
  refine ⟨?_, ?_, ?_⟩
  · obtain ⟨pc, padded, -, further⟩ := (implicit_stop_is_zero_padding _ 3 _).1 _ pushed
    exact ⟨pc, padded, further (Nat.le_refl 2)⟩
  · obtain ⟨pc, padded, same, -⟩ := (implicit_stop_is_zero_padding _ 3 _).1 _ stopped
    obtain ⟨-, rfl⟩ := same (by decide)
    exact padded
  · exact (implicit_stop_is_zero_padding _ 3 _).2 _ strayed

end SubroutineVM
