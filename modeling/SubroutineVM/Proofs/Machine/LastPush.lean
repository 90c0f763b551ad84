import SubroutineVM.Proofs.Code.Neighbours
import SubroutineVM.Proofs.Machine.Padding

/-!
Executions of two codes that differ only in the immediate of a PUSH at their end. Up to the PUSH
they make the same moves, and the PUSH is the last instruction of both. Main statements: they end
alike, but for the word on top where the PUSH is carried out (`ends_alike`, `run_last_push`).
-/
namespace SubroutineVM

namespace Code

/-- The last byte is a PUSH, so that bytes behind it are its immediate as far as it has room. -/
structure EndsInPush (c : Code) (offset : Nat) (n : Fin 32) : Prop where
  held : c.holds offset (.push n) = true
  size : c.size = offset + 1

namespace EndsInPush

variable {c x y : Code} {offset place : Nat} {n : Fin 32}

theorem held_append (ends : c.EndsInPush offset n) (x : Code) :
    (c ++ x).holds offset (.push n) = true := by
  rw [holds_append_left (by rw [ends.size]; omega), ends.held]

theorem marked_le (ends : c.EndsInPush offset n) (room : x.size ≤ n + 1)
    (marked : (c ++ x).isOpcodeOffset place = true) : place ≤ offset := by
  obtain ⟨start, fetched⟩ := holds_iff.mp (ends.held_append x)
  apply Nat.le_of_not_lt
  intro behind
  have past := behind_le_marked start fetched marked behind
  have inside := marked_lt_size marked
  rw [size_append, ends.size] at inside
  simp only [Opcode.immediateLength] at past
  omega

theorem holds_alike (ends : c.EndsInPush offset n) (room : x.size ≤ n + 1) (room' : y.size ≤ n + 1)
    (op : Opcode) : (c ++ y).holds place op = (c ++ x).holds place op := by
  by_cases inside : place < c.size
  · rw [holds_append_left inside, holds_append_left inside]
  · have outside {z : Code} (room : z.size ≤ n + 1) : (c ++ z).holds place op = false := by
      rw [← Bool.not_eq_true]
      intro held
      have before := ends.marked_le room (holds_iff.mp held).1
      have size := ends.size
      omega
    rw [outside room, outside room']

end EndsInPush

end Code

def Context.followed (c : Context) (x : Code) : Context := { c with code := c.code ++ x }

def State.pushedAtEnd (c : Context) (n : Fin 32) (s : State) : Ending where
  state := (s.paid (Opcode.push n).cost).goTo c.code.size
    (s.stack.push (c.code.immediate (s.pc + 1) (n + 1)))
  cause? := none

/-- The two ways in which executions with one and with the other immediate end: the same, without
    the PUSH if they halt, or both behind the PUSH. -/
inductive EndsAlike (c : Context) (x y : Code) (offset : Nat) (n : Fin 32) (s : State) : Prop where
  | same (endings : ending (c.followed y) s = ending (c.followed x) s)
      (unmet : (ending (c.followed x) s).cause? = none →
        ∀ u ∈ states (c.followed x) s, u.pc ≠ offset)
  | pushed {u : State} (met : u ∈ states (c.followed x) s) (place : u.pc = offset)
      (here : ending (c.followed x) s = u.pushedAtEnd (c.followed x) n)
      (there : ending (c.followed y) s = u.pushedAtEnd (c.followed y) n)

section Executions

variable {c : Context} {x y : Code} {offset gasLimit : Nat} {n : Fin 32} {s t : State}

theorem targets_followed (ends : c.code.EndsInPush offset n) (room : x.size ≤ n + 1)
    (room' : y.size ≤ n + 1) : s.TargetsAgree (c.followed x) (c.followed y) := by
  intro dest below _
  have holds (op : Opcode) : (c.followed y).code.holds dest.toNat op =
      (c.followed x).code.holds dest.toNat op := ends.holds_alike room room' op
  have entry : (c.followed y).code.isSubroutineEntry dest.toNat =
      (c.followed x).code.isSubroutineEntry dest.toNat := holds .beginsub
  refine ⟨?_, entry⟩
  rw [Code.isJumpTarget, Code.isJumpTarget, entry, Code.isJumpDestination, holds,
    Code.isJumpDestination]

theorem step_followed (ends : c.code.EndsInPush offset n) (room : x.size ≤ n + 1)
    (room' : y.size ≤ n + 1) (safe : Safe (c.followed x) gasLimit s) (before : s.pc < offset) :
    step (c.followed y) s = step (c.followed x) s := by
  have size := ends.size
  obtain ⟨last, -⟩ := Code.holds_iff.mp (ends.held_append x)
  have within {op : Opcode} (fetched : (c.followed x).code.opcode? s.pc = some op) :
      s.pc + 1 + op.immediateLength ≤ offset :=
    Code.behind_le_marked (safe.pc.marked fetched) fetched last before
  have bytes : (c.followed y).code.byte? s.pc = (c.followed x).code.byte? s.pc :=
    (Code.byte?_append_left (by omega)).trans (Code.byte?_append_left (by omega)).symm
  have immediate (k : Fin 32) (fetched : (c.followed x).code.opcode? s.pc = some (.push k)) :
      (c.followed y).code.immediate (s.pc + 1) (k + 1) =
        (c.followed x).code.immediate (s.pc + 1) (k + 1) := by
    have inside := within fetched
    simp only [Opcode.immediateLength] at inside
    exact (Code.immediate_append_left (by omega)).trans
      (Code.immediate_append_left (by omega)).symm
  rcases step_agrees (c := c.followed x) (d := c.followed y) rfl bytes immediate
    (fun op _ => (targets_followed ends room room').destination op) with
    same | ⟨op, t, fetched, moved, place, moved'⟩
  · exact same
  · have inside := within fetched
    have behind (z : Code) : s.behind (c.followed z) op = s.pc + 1 + op.immediateLength := by
      apply Nat.min_eq_left
      rw [Context.followed, Code.size_append]
      omega
    rw [moved', moved, behind, ← behind x, ← place]

theorem ending_of_push (ends : c.code.EndsInPush offset n) (room : x.size ≤ n + 1)
    (fetching : s.landing = false) (place : s.pc = offset) (fits : s.stackFault? c (.push n) = none)
    (enough : (Opcode.push n).cost ≤ s.gas.remaining) :
    ending (c.followed x) s = s.pushedAtEnd (c.followed x) n := by
  obtain ⟨-, fetched⟩ := Code.holds_iff.mp (ends.held_append x)
  rw [← place] at fetched
  have moved := step_push (c := c.followed x) fetching fetched (by exact fits) enough
  have ended : min (s.pc + 1 + (n + 1)) (c.followed x).code.size = (c.followed x).code.size := by
    apply Nat.min_eq_right
    rw [Context.followed, Code.size_append, ends.size, place]
    omega
  rw [ended] at moved
  rw [ending_next moved, ending_halt (step_at_end (by exact fetching) (Nat.le_refl _))]
  rfl

theorem alike_of_fault {cause : Cause} (moved : step (c.followed x) s = .fault t cause)
    (moved' : step (c.followed y) s = .fault t cause) : EndsAlike c x y offset n s := by
  refine .same ((ending_fault moved').trans (ending_fault moved).symm) ?_
  intro halted
  exact absurd halted (not_halted_of_fault moved)

theorem alike_at_push (ends : c.code.EndsInPush offset n) (room : x.size ≤ n + 1)
    (room' : y.size ≤ n + 1) (safe : Safe (c.followed x) gasLimit s) (place : s.pc = offset) :
    EndsAlike c x y offset n s := by
  have fetched (z : Code) : (c.followed z).code.opcode? s.pc = some (.push n) :=
    place ▸ (Code.holds_iff.mp (ends.held_append z)).2
  have fetching : s.landing = false := by
    rw [← Bool.not_eq_true]
    intro landing
    cases (fetched x).symm.trans (Code.holds_iff.mp (safe.entry landing)).2
  cases fits : s.stackFault? c (.push n) with
  | some cause =>
    have refused (z : Code) : step (c.followed z) s = .fault s cause := by
      rw [step_fetched fetching (fetched z)]
      exact execute_unsuited fits
    exact alike_of_fault (refused x) (refused y)
  | none =>
    rcases Nat.lt_or_ge s.gas.remaining (Opcode.push n).cost with short | enough
    · have unpaid (z : Code) : step (c.followed z) s = .fault s .outOfGas := by
        rw [step_fetched fetching (fetched z)]
        exact execute_unpaid fits short
      exact alike_of_fault (unpaid x) (unpaid y)
    · exact .pushed (states_head _ s) place (ending_of_push ends room fetching place fits enough)
        (ending_of_push ends room' fetching place fits enough)

/-- Only the PUSH leads behind itself: what is behind it is the end of one code and not of the
    other. -/
theorem pc_le_of_safe (ends : c.code.EndsInPush offset n) (room : x.size ≤ n + 1)
    (room' : y.size ≤ n + 1) (apart : x.size ≠ y.size) (safe : Safe (c.followed x) gasLimit s)
    (safe' : Safe (c.followed y) gasLimit s) : s.pc ≤ offset := by
  rcases safe.pc with ended | marked
  · rcases safe'.pc with ended' | marked
    · rw [Context.followed, Code.size_append] at ended ended'
      omega
    · exact ends.marked_le room' marked
  · exact ends.marked_le room marked

theorem ends_alike (ends : c.code.EndsInPush offset n) (room : x.size ≤ n + 1)
    (room' : y.size ≤ n + 1) (apart : x.size ≠ y.size) (safe : Safe (c.followed x) gasLimit s)
    (safe' : Safe (c.followed y) gasLimit s) : EndsAlike c x y offset n s := by
  have here (s : State) (safe : Safe (c.followed x) gasLimit s)
      (safe' : Safe (c.followed y) gasLimit s) : EndsAlike c x y offset n s ∨
        s.pc < offset ∧ step (c.followed y) s = step (c.followed x) s := by
    rcases Nat.lt_or_eq_of_le (pc_le_of_safe ends room room' apart safe safe') with before | place
    · exact .inr ⟨before, step_followed ends room room' safe before⟩
    · exact .inl (alike_at_push ends room room' safe place)
  induction s using execution_induction (c := c.followed x) with
  | next s t moved ih =>
    rcases here s safe safe' with alike | ⟨before, same⟩
    · exact alike
    · have moved' := same.trans moved
      cases ih (safe_move safe (move_of moved)) (safe_move safe' (move_of moved')) with
      | same endings unmet =>
        refine .same (by rw [ending_next moved', endings, ending_next moved]) ?_
        intro halted u met
        rw [states_next moved] at met
        rcases List.mem_cons.mp met with rfl | later
        · omega
        · exact unmet (next_of_halted moved halted) u later
      | pushed met place first second =>
        rw [← ending_next moved] at first
        rw [← ending_next moved'] at second
        refine .pushed ?_ place first second
        rw [states_next moved]
        exact List.mem_cons_of_mem s met
  | halted s t moved =>
    rcases here s safe safe' with alike | ⟨before, same⟩
    · exact alike
    · refine .same ((ending_halt (same.trans moved)).trans (ending_halt moved).symm) ?_
      intro _ u met
      rw [states_halt moved] at met
      cases List.mem_singleton.mp met
      omega
  | faulted s t cause moved =>
    rcases here s safe safe' with alike | ⟨-, same⟩
    · exact alike
    · exact alike_of_fault moved (same.trans moved)

theorem record_of_fetched {op : Opcode} (met : s ∈ states c t)
    (fetched : c.code.opcode? s.pc = some op) : ∃ r ∈ records c t, r.pc = s.pc := by
  obtain ⟨op, charged⟩ := charged_of_fetched fetched
  obtain ⟨r, made, place⟩ := record?_of_charged charged
  exact ⟨r, List.mem_filterMap.mpr ⟨s, met, made⟩, place⟩

end Executions

theorem run_last_push {front x y : Code} {offset : Nat} {n : Fin 32}
    (ends : front.EndsInPush offset n) (room : x.size ≤ n + 1) (room' : y.size ≤ n + 1)
    (apart : x.size ≠ y.size) (config : Config) :
    (∀ fault, run (front ++ x) config = .error fault ↔ run (front ++ y) config = .error fault) ∧
    ∀ outcome, run (front ++ x) config = .ok outcome → ∃ stack pc,
      run (front ++ y) config = .ok ⟨outcome.gasUsed, stack, pc⟩ ∧
      ((∀ r ∈ stepRecords (front ++ x) config, r.pc ≠ offset) ∧ stack = outcome.stack ∨
        (∃ r ∈ stepRecords (front ++ x) config, r.pc = offset) ∧ ∃ below,
          outcome.stack.items = (front ++ x).immediate (offset + 1) (n + 1) :: below ∧
          stack.items = (front ++ y).immediate (offset + 1) (n + 1) :: below) := by
  let c : Context := ⟨front, config.stackLimit⟩
  let s := State.start config.gasLimit
  have here : run (front ++ x) config = (ending (c.followed x) s).result := run_eq _ config
  have there : run (front ++ y) config = (ending (c.followed y) s).result := run_eq _ config
  have logged : stepRecords (front ++ x) config = records (c.followed x) s :=
    (runTraced_log _ config).2
  rw [here, there, logged]
  have alike : EndsAlike c x y offset n s :=
    ends_alike ends room room' apart (safe_start _ config.gasLimit) (safe_start _ config.gasLimit)
  cases alike with
  | same endings unmet =>
    rw [endings]
    refine ⟨fun _ => Iff.rfl, ?_⟩
    intro outcome succeeded
    refine ⟨outcome.stack, outcome.pc, succeeded, .inl ⟨?_, rfl⟩⟩
    intro r member
    obtain ⟨u, met, made⟩ := state_of_record member
    obtain ⟨-, place, -⟩ := record?_eq_some_iff.mp made
    rw [place]
    exact unmet (Ending.result_eq_ok_iff.mp succeeded).1 u met
  | @pushed u met place first second =>
    rw [first, second]
    constructor
    · intro fault
      exact iff_of_false (by intro failed; cases failed) (by intro failed; cases failed)
    · intro outcome succeeded
      cases succeeded
      have fetched : (c.followed x).code.opcode? u.pc = some (.push n) :=
        place ▸ (Code.holds_iff.mp (ends.held_append x)).2
      obtain ⟨r, member, same⟩ := record_of_fetched met fetched
      refine ⟨_, _, rfl, .inr ⟨⟨r, member, same.trans place⟩, u.stack.items, ?_, ?_⟩⟩
      · rw [← place]
        rfl
      · rw [← place]
        rfl

end SubroutineVM
