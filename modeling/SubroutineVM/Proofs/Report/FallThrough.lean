import SubroutineVM.Proofs.Machine.Safety
import SubroutineVM.Proofs.Report.Contents

/-!
What the report on a code says about entries that are walked into. Execution comes to a BEGINSUB
by a call, by a jump that is taken, or from the instruction before it in the walk, and the last
of these is what the report looks for. Main statement: `unnamed_entry_reported`.
-/
namespace SubroutineVM

def StepRecord.Names (r : StepRecord) (offset : Nat) : Prop :=
  (∃ dest, r.stack.peek? 0 = some dest ∧ dest.toNat = offset) ∧
    (r.opcode = .jumpsub ∨ r.opcode = .jump ∨
      r.opcode = .jumpi ∧ ∃ condition, r.stack.peek? 1 = some condition ∧ condition ≠ 0)

namespace Issue

theorem start_reported {code : Code} (entry : code.opcode? 0 = some .beginsub) :
    .fallThroughIntoSubroutine 0 ∈ (analyze code).issues := by
  have held : code.isSubroutineEntry 0 = true :=
    Code.holds_iff.mpr ⟨code.aligned_zero.marked entry, entry⟩
  exact fallThrough_mem_iff.mpr ⟨held, .inl rfl⟩

theorem neighbour_reported {code : Code} {place : Nat} {op : Opcode}
    (marked : code.isOpcodeOffset place = true) (fetched : code.opcode? place = some op)
    (leads : op.isTerminator = false)
    (entry : code.opcode? (place + 1 + op.immediateLength) = some .beginsub) :
    .fallThroughIntoSubroutine (place + 1 + op.immediateLength) ∈ (analyze code).issues := by
  have inside := Code.lt_size_of_opcode entry
  have aligned := Code.aligned_behind marked fetched
  rw [Nat.min_eq_left (Nat.le_of_lt inside)] at aligned
  have next := aligned.marked entry
  have leadsTo : code.LeadsTo (place + 1 + op.immediateLength) := by
    refine .inr ⟨place, op, Code.next_isGreatest marked fetched next, fetched, ?_⟩
    refine ⟨?_, ?_, ?_⟩ <;> rintro rfl <;> cases leads
  exact fallThrough_mem_iff.mpr ⟨Code.holds_iff.mpr ⟨next, entry⟩, leadsTo⟩

end Issue

section Executions

variable {c : Context} {s t : State} {r : StepRecord} {gasLimit : Nat}

theorem sequential_leads {op : Opcode} (inSequence : op.isSequential = true) :
    op.isTerminator = false := by
  cases op with
  | stop | jump | returnsub => cases inSequence
  | _ => rfl

theorem entry_behind {code : Code} {place : Nat}
    (entry : code.opcode? (min place code.size) = some .beginsub) :
    min place code.size = place := by
  have inside := Code.lt_size_of_opcode entry
  omega

theorem sequential_reported {code : Code} {place : Nat} {op : Opcode}
    (marked : code.isOpcodeOffset place = true) (fetched : code.opcode? place = some op)
    (leads : op.isTerminator = false)
    (entry : code.opcode? (min (place + 1 + op.immediateLength) code.size) = some .beginsub) :
    .fallThroughIntoSubroutine (min (place + 1 + op.immediateLength) code.size) ∈
      (analyze code).issues := by
  have same := entry_behind entry
  rw [same] at entry ⊢
  exact Issue.neighbour_reported marked fetched leads entry

theorem effect_named_or_reported (safe : Safe c gasLimit s) (fetching : s.landing = false)
    (fetched : c.code.opcode? s.pc = some r.opcode) (shown : r.stack = s.stack)
    {result : Transition} (effect : Effect c s r.opcode result) (moved : result = .next t)
    (arrived : t.opcode? c = some .beginsub) :
    r.Names t.pc ∨ .fallThroughIntoSubroutine t.pc ∈ (analyze c.code).issues := by
  have marked := safe.pc.marked fetched
  generalize charged : r.opcode = op at effect fetched
  cases effect with
  | stop | strayJump | strayBranch | fetchedEntry | strayCall | deepCall | strayReturn => cases moved
  | sequential inSequence =>
    cases moved
    right
    exact sequential_reported marked fetched (sequential_leads inSequence)
      (fetched_of_charged arrived fetching)
  | untaken =>
    cases moved
    right
    exact sequential_reported marked fetched rfl (fetched_of_charged arrived fetching)
  | jump operand =>
    cases moved
    left
    refine ⟨⟨_, ?_, rfl⟩, .inr (.inl charged)⟩
    rw [shown]
    exact Stack.peek?_top operand
  | taken operands nonzero =>
    cases moved
    left
    refine ⟨⟨_, ?_, rfl⟩, .inr (.inr ⟨charged, _, ?_, nonzero⟩)⟩
    · rw [shown]
      exact Stack.peek?_top operands
    · rw [shown]
      exact Stack.peek?_second operands
  | call operand =>
    cases moved
    left
    refine ⟨⟨_, ?_, rfl⟩, .inl charged⟩
    rw [shown]
    exact Stack.peek?_top operand
  | @back address returns saved =>
    cases moved
    right
    -- A return goes on behind a JUMPSUB, and this is the instruction before the entry in the walk.
    have trusted := safe.saved address (saved ▸ List.mem_cons_self)
    obtain ⟨marked, call⟩ := Code.holds_iff.mp trusted.call
    have behind : address - 1 + 1 + Opcode.jumpsub.immediateLength = address :=
      Nat.sub_add_cancel trusted.positive
    have entry := fetched_of_charged arrived fetching
    have reported := Issue.neighbour_reported marked call rfl (behind.symm ▸ entry)
    exact behind ▸ reported

theorem named_or_reported (safe : Safe c gasLimit s) (moved : step c s = .next t)
    (made : s.record? c = some r) (arrived : t.opcode? c = some .beginsub) :
    r.Names t.pc ∨ .fallThroughIntoSubroutine t.pc ∈ (analyze c.code).issues := by
  obtain ⟨-, -, -, shown, -⟩ := record?_eq_some_iff.mp made
  cases advance_of_next moved made with
  | landed landing =>
    right
    obtain ⟨marked, entry⟩ := Code.holds_iff.mp (safe.entry landing)
    exact Issue.neighbour_reported marked entry rfl arrived
  | performed fetching fetched fits enough effect =>
    exact effect_named_or_reported (safe.paid r.cost) fetching fetched shown effect rfl arrived

theorem record_reported {i : Nat} (here : (records c (.start gasLimit))[i]? = some r)
    (entry : r.opcode = .beginsub)
    (unnamed : ∀ j p, j + 1 = i → (records c (.start gasLimit))[j]? = some p → ¬ p.Names r.pc) :
    .fallThroughIntoSubroutine r.pc ∈ (analyze c.code).issues := by
  cases i with
  | zero =>
    rw [← List.head?_eq_getElem?, records_head?] at here
    obtain ⟨charged, place, -⟩ := record?_eq_some_iff.mp here
    rw [entry] at charged
    rw [place]
    exact Issue.start_reported (fetched_of_charged charged rfl)
  | succ j =>
    obtain ⟨inside, -⟩ := List.getElem?_eq_some_iff.mp here
    have earlier := List.getElem?_eq_getElem (Nat.lt_of_succ_lt inside)
    obtain ⟨a, met, b, moved, made, made'⟩ := records_neighbours earlier here
    obtain ⟨charged, place, -⟩ := record?_eq_some_iff.mp made'
    rw [entry] at charged
    rw [place] at unnamed ⊢
    have safe := safe_states (safe_start c gasLimit) a met
    rcases named_or_reported safe moved made charged with named | reported
    · exact absurd named (unnamed j _ rfl earlier)
    · exact reported

end Executions

/-- An executed BEGINSUB that no call and no jump taken just before names is in the report, so that
    in a code that passes each executed BEGINSUB was named. -/
theorem unnamed_entry_reported (code : Code) (config : Config) :
    (∀ i r, (stepRecords code config)[i]? = some r → r.opcode = .beginsub →
      (∀ j p, j + 1 = i → (stepRecords code config)[j]? = some p → ¬ p.Names r.pc) →
      .fallThroughIntoSubroutine r.pc ∈ (analyze code).issues) ∧
    (verify code = .ok () → ∀ i r, (stepRecords code config)[i]? = some r →
      r.opcode = .beginsub →
      ∃ j p, j + 1 = i ∧ (stepRecords code config)[j]? = some p ∧ p.Names r.pc) := by
  obtain ⟨-, logged⟩ := runTraced_log code config
  rw [logged]
  constructor
  · intro i r here entry unnamed
    exact record_reported here entry unnamed
  · intro passes i r here entry
    apply Classical.byContradiction
    intro unnamed
    have reported := record_reported here entry (by
      intro j p place found named
      exact unnamed ⟨j, p, place, found, named⟩)
    have error : Issue.fallThroughIntoSubroutine r.pc ∈ (analyze code).errors :=
      List.mem_filter.mpr ⟨reported, rfl⟩
    rw [verify_eq_ok_iff.mp passes] at error
    cases error

theorem walked_into_and_called :
    .fallThroughIntoSubroutine 2 ∈ (analyze (.ofBytes [0x60, 0x01, 0xb2, 0xb7])).issues ∧
    let steps := stepRecords (.ofBytes [0x60, 0x04, 0xb3, 0x00, 0xb2, 0xb7]) ⟨14, 1024⟩
    ∃ j p, j + 1 = 2 ∧ steps[j]? = some p ∧ p.Names 4 := by
  constructor
  · have first : (stepRecords (.ofBytes [0x60, 0x01, 0xb2, 0xb7]) ⟨10, 1024⟩)[0]? =
        some ⟨0, .push 0, 10, .empty, .empty⟩ := by decide +kernel
    have entry : (stepRecords (.ofBytes [0x60, 0x01, 0xb2, 0xb7]) ⟨10, 1024⟩)[1]? =
        some ⟨2, .beginsub, 7, .ofItems [1], .empty⟩ := by decide +kernel
    refine (unnamed_entry_reported _ ⟨10, 1024⟩).1 1 _ entry rfl ?_
    intro j p place found named
    cases Nat.succ.inj place
    cases first.symm.trans found
    rcases named.2 with called | jumped | ⟨branched, -⟩
    · cases called
    · cases jumped
    · cases branched
  · intro steps
    have entry : steps[2]? = some ⟨4, .beginsub, 3, .empty, .ofItems [3]⟩ := by decide +kernel
    refine (unnamed_entry_reported _ ⟨14, 1024⟩).2 ?_ 2 _ entry rfl
    rw [verify_eq_ok_iff]
    decide +kernel

end SubroutineVM
