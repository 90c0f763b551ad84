import SubroutineVM.Proofs.Machine.Safety

/-!
The two moves of a call. Its JUMPSUB is followed by the landing on the BEGINSUB that it names,
and a BEGINSUB that is come to in any other way is fetched and burns all gas
(`entry_called_or_fatal`). A JUMPSUB that fails leaves both stacks and the program counter as
they were; a landing that fails does not, since the JUMPSUB before it is done by then
(`failed_call_keeps_state`, `unpaid_landing_changes_state`).
-/
namespace SubroutineVM

section Moves

variable {c : Context} {s t u : State} {r : StepRecord} {gasLimit : Nat}

theorem call_moved (fetching : s.landing = false) (fetched : c.code.opcode? s.pc = some .jumpsub)
    (moved : step c s = .next t) : ∃ (dest : Word) (stack : Stack Word),
      s.stack.items = dest :: stack.items ∧ c.code.isSubroutineEntry dest.toNat = true ∧
      Opcode.jumpsub.cost ≤ s.gas.remaining ∧ t = { s.paid Opcode.jumpsub.cost with
        pc := dest.toNat, stack, returns := Stack.push s.returns (s.pc + 1), landing := true } := by
  cases move_of moved with
  | landed landing => cases fetching.symm.trans landing
  | performed _ fetched' fits enough effect =>
    cases fetched.symm.trans fetched'
    cases effect with
    | sequential inSequence => cases inSequence
    | call operand entry room => exact ⟨_, _, operand, entry, enough, rfl⟩

theorem call_refused {cause : Cause} (fetched : c.code.opcode? s.pc = some .jumpsub)
    (moved : step c s = .fault t cause) :
    t.pc = s.pc ∧ t.stack = s.stack ∧ t.returns = s.returns := by
  cases move_of moved with
  | performed _ fetched' fits enough effect =>
    cases fetched.symm.trans fetched'
    cases effect with
    | strayCall | deepCall => exact ⟨rfl, rfl, rfl⟩
  | _ => exact ⟨rfl, rfl, rfl⟩

theorem landing_called (moved : step c s = .next t) (made : s.record? c = some r)
    (landing : t.landing = true) : r.opcode = .jumpsub := by
  cases advance_of_next moved made with
  | landed => cases landing
  | performed fetching fetched fits enough effect =>
    generalize r.opcode = op at effect
    cases effect with
    | call => rfl
    | _ => cases fetching.symm.trans landing

theorem entry_passed (moved : step c s = .next t) (made : s.record? c = some r)
    (entry : r.opcode = .beginsub) :
    t.pc = s.pc + 1 ∧ t.stack = s.stack ∧ t.returns = s.returns := by
  cases advance_of_next moved made with
  | landed => exact ⟨rfl, rfl, rfl⟩
  | performed fetching fetched fits enough effect =>
    rw [entry] at effect
    cases effect with
    | sequential inSequence => cases inSequence

theorem fetched_entry_fatal (safe : Safe c gasLimit s) (fetching : s.landing = false)
    (fetched : c.code.opcode? s.pc = some .beginsub) :
    ∃ t, step c s = .fault t .outOfGas ∧ t.pc = s.pc := by
  have fits : s.stackFault? c .beginsub = none :=
    State.stackFault?_eq_none_iff.mpr ⟨Nat.zero_le _, safe.height⟩
  rw [step_fetched fetching fetched]
  rcases Nat.lt_or_ge s.gas.remaining Opcode.beginsub.cost with short | enough
  · exact ⟨s, execute_unpaid fits short, rfl⟩
  · exact ⟨_, execute_paid fits enough, rfl⟩

theorem unpaid_landing (landing : s.landing = true) {cause : Cause}
    (moved : step c s = .fault t cause) :
    cause = .outOfGas ∧ t = s ∧ s.gas.remaining < Opcode.beginsub.cost := by
  cases move_of moved with
  | unpaidLanding _ short => exact ⟨rfl, rfl, short⟩
  | undefined fetching | unsuited fetching | unpaid fetching | performed fetching =>
    cases fetching.symm.trans landing

end Moves

section Records

variable {c : Context} {s : State} {i : Nat} {r next : StepRecord} {gasLimit : Nat}

theorem call_record (here : (records c s)[i]? = some r) (call : r.opcode = .jumpsub)
    (behind : (records c s)[i + 1]? = some next) :
    next.opcode = .beginsub ∧ c.code.isSubroutineEntry next.pc = true ∧
      (∃ dest : Word, r.stack.items = dest :: next.stack.items ∧ dest.toNat = next.pc) ∧
      next.returns = Stack.push r.returns (r.pc + 1) := by
  obtain ⟨a, -, b, moved, made, made'⟩ := records_neighbours here behind
  obtain ⟨-, place, -, stack, returns⟩ := record?_eq_some_iff.mp made
  obtain ⟨charged, place', -, stack', returns'⟩ := record?_eq_some_iff.mp made'
  cases advance_of_next moved made with
  | landed landing entry => cases call.symm.trans entry
  | performed fetching fetched =>
    rw [call] at fetched
    obtain ⟨dest, below, operand, entry, -, rfl⟩ := call_moved fetching fetched moved
    rw [opcode?_landing rfl] at charged
    rw [place', stack, stack', returns, returns', place]
    exact ⟨(Option.some.inj charged).symm, entry, ⟨dest, operand, rfl⟩, rfl⟩

theorem record_behind_entry (here : (records c s)[i]? = some r) (entry : r.opcode = .beginsub)
    (behind : (records c s)[i + 1]? = some next) :
    next.pc = r.pc + 1 ∧ next.stack = r.stack ∧ next.returns = r.returns := by
  obtain ⟨a, -, b, moved, made, made'⟩ := records_neighbours here behind
  obtain ⟨-, place, -, stack, returns⟩ := record?_eq_some_iff.mp made
  obtain ⟨-, place', -, stack', returns'⟩ := record?_eq_some_iff.mp made'
  rw [place, place', stack, stack', returns, returns']
  exact entry_passed moved made entry

theorem record_fetched_or_called (here : (records c (.start gasLimit))[i]? = some r) :
    (∃ u ∈ states c (.start gasLimit), u.landing = false ∧ u.record? c = some r ∧
      (records c (.start gasLimit)).drop i = records c u) ∨
    ∃ j p, j + 1 = i ∧ (records c (.start gasLimit))[j]? = some p ∧ p.opcode = .jumpsub := by
  cases i with
  | zero =>
    left
    rw [← List.head?_eq_getElem?, records_head?] at here
    exact ⟨_, states_head c _, rfl, here, rfl⟩
  | succ j =>
    obtain ⟨a, -, b, met, p, moved, made, before, made', rest⟩ := record_reached here
    cases landing : b.landing with
    | false => exact .inl ⟨b, met, landing, made', rest⟩
    | true => exact .inr ⟨j, p, rfl, before, landing_called moved made landing⟩

theorem uncalled_entry_last (here : (records c (.start gasLimit))[i]? = some r)
    (entry : r.opcode = .beginsub) (uncalled : ∀ j p, j + 1 = i →
      (records c (.start gasLimit))[j]? = some p → p.opcode ≠ .jumpsub) :
    i + 1 = (records c (.start gasLimit)).length ∧
      (ending c (.start gasLimit)).cause? = some .outOfGas ∧
      (ending c (.start gasLimit)).state.pc = r.pc := by
  rcases record_fetched_or_called here with
    ⟨u, met, fetching, made, rest⟩ | ⟨j, p, place, found, call⟩
  · obtain ⟨charged, place, -⟩ := record?_eq_some_iff.mp made
    rw [entry] at charged
    have safe := safe_states (safe_start c gasLimit) u met
    obtain ⟨t, moved, same⟩ :=
      fetched_entry_fatal safe fetching (fetched_of_charged charged fetching)
    rw [← ending_of_met met, ending_fault moved, place]
    exact ⟨last_of_fault rest made moved, rfl, same⟩
  · exact absurd call (uncalled j p place found)

end Records

/-- Behind the record of a JUMPSUB comes that of the BEGINSUB it calls, and then that of what is
    behind the BEGINSUB, with the same stacks. A BEGINSUB that is come to otherwise is the last
    record, and all gas is gone. -/
theorem entry_called_or_fatal {σ : Type} (code : Code) (config : Config) (observer : Observer σ)
    (seen : σ) :
    (∀ (i : Nat) (r next : StepRecord), (stepRecords code config)[i]? = some r →
      r.opcode = .jumpsub → (stepRecords code config)[i + 1]? = some next →
      next.opcode = .beginsub ∧ code.isSubroutineEntry next.pc = true ∧
        (∃ dest : Word, r.stack.items = dest :: next.stack.items ∧ dest.toNat = next.pc) ∧
        next.returns.toList = r.returns.toList ++ [r.pc + 1] ∧
        ∀ after : StepRecord, (stepRecords code config)[i + 2]? = some after →
          after.pc = next.pc + 1 ∧ after.stack = next.stack ∧ after.returns = next.returns) ∧
    ∀ (i : Nat) (r : StepRecord), (stepRecords code config)[i]? = some r → r.opcode = .beginsub →
      (∀ (j : Nat) (p : StepRecord), j + 1 = i → (stepRecords code config)[j]? = some p →
        p.opcode ≠ .jumpsub) →
      i + 1 = (stepRecords code config).length ∧
        ((Machine.new code config).execute observer seen).result = .error ⟨r.pc, .outOfGas⟩ ∧
        ((Machine.new code config).execute observer seen).machine.state.gas.remaining = 0 := by
  obtain ⟨-, logged⟩ := runTraced_log code config
  rw [logged, execute_result, execute_state]
  constructor
  · intro i r next here call behind
    obtain ⟨entry, valid, operand, returns⟩ := call_record here call behind
    refine ⟨entry, valid, operand, ?_, ?_⟩
    · rw [returns, Stack.toList, Stack.items_push, List.reverse_cons, Stack.toList]
    · intro after later
      exact record_behind_entry behind entry later
  · intro i r here entry uncalled
    obtain ⟨last, aborted, place⟩ := uncalled_entry_last here entry uncalled
    refine ⟨last, Ending.result_eq_error_iff.mpr ⟨aborted, place⟩, ?_⟩
    rw [Ending.settle_aborted aborted]
    rfl

theorem entry_called_and_fallen_into :
    let call := Code.ofBytes [0x60, 0x04, 0xb3, 0x00, 0xb2, 0xb7]
    let fall := Code.ofBytes [0x60, 0x01, 0xb2, 0xb7]
    (∃ next after : StepRecord, (stepRecords call ⟨14, 1024⟩)[2]? = some next ∧
      (stepRecords call ⟨14, 1024⟩)[3]? = some after ∧ next.opcode = .beginsub ∧
      next.returns.toList = [] ++ [3] ∧ after.pc = next.pc + 1) ∧
    2 = (stepRecords fall ⟨100, 1024⟩).length ∧
    ((Machine.new fall ⟨100, 1024⟩).execute .silent ()).result = .error ⟨2, .outOfGas⟩ ∧
    ((Machine.new fall ⟨100, 1024⟩).execute .silent ()).machine.state.gas.remaining = 0 := by
  intro call fall
  have made : (stepRecords call ⟨14, 1024⟩)[1]? =
      some ⟨2, .jumpsub, 11, .ofItems [4], .empty⟩ := by decide +kernel
  have landed : (stepRecords call ⟨14, 1024⟩)[2]? =
      some ⟨4, .beginsub, 3, .empty, .ofItems [3]⟩ := by decide +kernel
  have inside : (stepRecords call ⟨14, 1024⟩)[3]? =
      some ⟨5, .returnsub, 2, .empty, .ofItems [3]⟩ := by decide +kernel
  have before : (stepRecords fall ⟨100, 1024⟩)[0]? =
      some ⟨0, .push 0, 100, .empty, .empty⟩ := by decide +kernel
  have fallen : (stepRecords fall ⟨100, 1024⟩)[1]? =
      some ⟨2, .beginsub, 97, .ofItems [1], .empty⟩ := by decide +kernel
  constructor
  · obtain ⟨entry, -, -, returns, later⟩ :=
      (entry_called_or_fatal call ⟨14, 1024⟩ .silent ()).1 1 _ _ made rfl landed
    exact ⟨_, _, landed, inside, entry, returns, (later _ inside).1⟩
  · refine (entry_called_or_fatal fall ⟨100, 1024⟩ .silent ()).2 1 _ fallen rfl ?_
    intro j p place found
    cases Nat.succ.inj place
    cases before.symm.trans found
    decide

/-- What a call that aborts leaves behind. The JUMPSUB itself fails without a trace of it. Only
    where it has taken the last gas does its landing fail, and then the call stays half done. -/
theorem failed_call_keeps_state {σ : Type} (code : Code) (config : Config)
    (observer : Observer σ) (seen : σ) (s : State) (met : s ∈ (Machine.new code config).visited)
    (fetching : s.landing = false) (call : code.opcode? s.pc = some .jumpsub) :
    let c : Context := ⟨code, config.stackLimit⟩
    let e := (Machine.new code config).execute observer seen
    (∀ t cause, step c s = .fault t cause → e.result = .error ⟨s.pc, cause⟩ ∧
      e.machine.state.pc = s.pc ∧ e.machine.state.stack = s.stack ∧
      e.machine.state.returns = s.returns) ∧
    ∀ t u cause, step c s = .next t → step c t = .fault u cause →
      cause = .outOfGas ∧ s.gas.remaining = Opcode.jumpsub.cost ∧
      ∃ dest : Word, s.stack.items = dest :: e.machine.state.stack.items ∧
        e.machine.state.pc = dest.toNat ∧
        e.machine.state.returns = Stack.push s.returns (s.pc + 1) := by
  intro c e
  rw [visited_new] at met
  have result : e.result = (ending c s).result :=
    (execute_result code config observer seen).trans (by rw [ending_of_met met])
  have state : e.machine.state = (ending c s).settle :=
    (execute_state code config observer seen).trans (by rw [ending_of_met met])
  rw [result, state]
  constructor
  · intro t cause moved
    obtain ⟨pc, stack, returns⟩ := call_refused call moved
    rw [ending_fault moved]
    exact ⟨Ending.result_eq_error_iff.mpr ⟨rfl, pc⟩, pc, stack, returns⟩
  · intro t u cause called moved
    obtain ⟨dest, stack, operand, -, enough, rfl⟩ := call_moved fetching call called
    obtain ⟨rfl, rfl, short⟩ := unpaid_landing rfl moved
    rw [ending_next called, ending_fault moved]
    refine ⟨rfl, ?_, dest, operand, rfl, rfl⟩
    simp only [State.paid, Opcode.cost] at enough short ⊢
    omega

theorem refused_call_and_unpaid_landing :
    let stray := Code.ofBytes [0x60, 0x03, 0xb3]
    let code := Code.ofBytes [0x60, 0x04, 0xb3, 0x00, 0xb2, 0xb7]
    let refused := (Machine.new stray ⟨100, 1024⟩).execute .silent ()
    let unlanded := (Machine.new code ⟨11, 1024⟩).execute .silent ()
    refused.result = .error ⟨2, .invalidJumpDestination 3⟩ ∧
      refused.machine.state.pc = 2 ∧ refused.machine.state.stack = .ofItems [3] ∧
      unlanded.machine.state.returns = .ofItems [3] := by
  intro stray code refused unlanded
  have met : ⟨2, .ofItems [3], .empty, ⟨100, 97⟩, false⟩ ∈
      (Machine.new stray ⟨100, 1024⟩).visited := by decide +kernel
  have met' : ⟨2, .ofItems [4], .empty, ⟨11, 8⟩, false⟩ ∈
      (Machine.new code ⟨11, 1024⟩).visited := by decide +kernel
  have moved : step ⟨stray, 1024⟩ ⟨2, .ofItems [3], .empty, ⟨100, 97⟩, false⟩ =
      .fault ⟨2, .ofItems [3], .empty, ⟨100, 89⟩, false⟩ (.invalidJumpDestination 3) := by
    decide +kernel
  have called : step ⟨code, 1024⟩ ⟨2, .ofItems [4], .empty, ⟨11, 8⟩, false⟩ =
      .next ⟨4, .empty, .ofItems [3], ⟨11, 0⟩, true⟩ := by decide +kernel
  have landed : step ⟨code, 1024⟩ ⟨4, .empty, .ofItems [3], ⟨11, 0⟩, true⟩ =
      .fault ⟨4, .empty, .ofItems [3], ⟨11, 0⟩, true⟩ .outOfGas := by decide +kernel
  obtain ⟨keeps, -⟩ := failed_call_keeps_state stray ⟨100, 1024⟩ .silent () _ met rfl rfl
  obtain ⟨-, loses⟩ := failed_call_keeps_state code ⟨11, 1024⟩ .silent () _ met' rfl rfl
  obtain ⟨result, pc, stack, -⟩ := keeps _ _ moved
  obtain ⟨-, -, dest, -, -, returns⟩ := loses _ _ _ called landed
  exact ⟨result, pc, stack, returns⟩

/-- A landing that cannot be paid keeps neither the data stack, nor the return stack, nor the
    program counter as they were before the call. -/
theorem unpaid_landing_changes_state :
    let code := Code.ofBytes [0x60, 0x04, 0xb3, 0x00, 0xb2, 0xb7]
    let c : Context := ⟨code, 1024⟩
    let s : State := ⟨2, .ofItems [4], .empty, ⟨11, 8⟩, false⟩
    let left := ((Machine.new code ⟨11, 1024⟩).execute .silent ()).machine.state
    s ∈ (Machine.new code ⟨11, 1024⟩).visited ∧ code.opcode? s.pc = some .jumpsub ∧
      (∃ t u, step c s = .next t ∧ step c t = .fault u .outOfGas) ∧
      left.pc ≠ s.pc ∧ left.stack ≠ s.stack ∧ left.returns ≠ s.returns := by
  intro code c s left
  have called : step c s = .next ⟨4, .empty, .ofItems [3], ⟨11, 0⟩, true⟩ := by decide +kernel
  have landed : step c ⟨4, .empty, .ofItems [3], ⟨11, 0⟩, true⟩ =
      .fault ⟨4, .empty, .ofItems [3], ⟨11, 0⟩, true⟩ .outOfGas := by decide +kernel
  have met : s ∈ (Machine.new code ⟨11, 1024⟩).visited := by decide +kernel
  refine ⟨met, by decide +kernel, ⟨_, _, called, landed⟩, ?_, ?_, ?_⟩
  · decide +kernel
  · decide +kernel
  · decide +kernel

end SubroutineVM
