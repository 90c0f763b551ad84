import SubroutineVM.Proofs.Machine.GasThreshold
import SubroutineVM.Proofs.Machine.Safety

/-!
The gas that step records show. A record is made before its charge, so that the last record of
an aborted execution may be unpaid: it counts in the sum of the costs, but the meter never paid
it. Main statement: `trace_accounts_for_gas`.
-/
namespace SubroutineVM

theorem Opcode.cost_le_ten (op : Opcode) : op.cost ≤ 10 := by
  cases op with
  | binary f => cases f <;> decide
  | _ => simp [cost]

section Costs

variable {c : Context} {s t : State} {r : StepRecord}

theorem foldl_cost (rs : List StepRecord) (total : Nat) :
    rs.foldl (fun total r => total + r.cost) total =
      total + rs.foldr (fun r rest => r.cost + rest) 0 := by
  induction rs generalizing total with
  | nil => rfl
  | cons r rs ih =>
    rw [List.foldl_cons, List.foldr_cons, ih]
    omega

theorem totalCost_eq_price {log : TraceLog} (logged : log.steps.toList = records c s) :
    log.totalCost = price c s := by
  rw [TraceLog.totalCost, ← Array.foldl_toList, logged, foldl_cost, price, Nat.zero_add]

theorem last_paid_here (only : records c s = (s.record? c).toList)
    (last : (records c s).getLast? = some r) :
    price c s + r.gas = s.gas.remaining + r.cost ∧ r.gas ≤ s.gas.remaining := by
  cases made : s.record? c with
  | none =>
    rw [only, made] at last
    cases last
  | some first =>
    rw [only, made, Option.toList_some, List.getLast?_singleton] at last
    cases last
    obtain ⟨-, -, gas, -⟩ := record?_eq_some_iff.mp made
    rw [price, only, made, gas]
    simp only [Option.toList_some, List.foldr_cons, List.foldr_nil]
    omega

theorem price_of_last (last : (records c s).getLast? = some r) :
    price c s + r.gas = s.gas.remaining + r.cost ∧ r.gas ≤ s.gas.remaining := by
  induction s using execution_induction (c := c) with
  | next s t moved ih =>
    obtain ⟨first, made⟩ := record?_of_next moved
    obtain ⟨-, -, gas, -⟩ := record?_eq_some_iff.mp made
    obtain ⟨enough, paid⟩ := next_paid moved made
    rw [records_next moved made] at last
    rw [price_next moved made]
    cases later : records c t with
    | nil =>
      rw [later, List.getLast?_singleton] at last
      cases last
      rw [price, later, gas, List.foldr_nil]
      omega
    | cons second rest =>
      rw [later, List.getLast?_cons_cons, ← later] at last
      have rest := ih last
      rw [paid] at rest
      simp only at rest
      omega
  | halted s t moved => exact last_paid_here (records_halt moved) last
  | faulted s t cause moved => exact last_paid_here (records_fault moved) last

theorem price_le (c : Context) (s : State) : price c s ≤ s.gas.remaining + 10 := by
  cases last : (records c s).getLast? with
  | none =>
    rw [price, List.getLast?_eq_none_iff.mp last]
    exact Nat.zero_le _
  | some r =>
    have total := price_of_last last
    have bound : r.cost ≤ 10 := r.opcode.cost_le_ten
    omega

theorem move_limit {result : Transition} (move : Move c s result) :
    result.state.gas.limit = s.gas.limit := by
  cases move with
  | performed fetching fetched fits enough effect => cases effect <;> rfl
  | _ => rfl

theorem ending_limit (c : Context) (s : State) :
    (ending c s).state.gas.limit = s.gas.limit := by
  refine ending_invariant (P := fun u => u.gas.limit = s.gas.limit) ?_ rfl
  intro u same
  exact (move_limit (move_step c u)).trans same

end Costs

/-- The records of an execution start from its gas limit and each takes its cost off. A success has
    paid all of them; an abort forfeits the gas, and then the sum of the costs may pass the limit by
    no more than the last cost. -/
theorem trace_accounts_for_gas (code : Code) (config : Config) :
    let e := (Machine.new code config).execute TraceLog.tracer.observer .empty
    let steps := e.seen.steps.toList
    let gas := e.machine.state.gas
    (∀ r : StepRecord, steps[0]? = some r → r.gas = config.gasLimit) ∧
    (∀ r ∈ steps, code.holds r.pc r.opcode = true ∧ r.cost = r.opcode.cost) ∧
    (∀ (i : Nat) (r next : StepRecord), steps[i]? = some r → steps[i + 1]? = some next →
      r.cost ≤ r.gas ∧ next.gas = r.gas - r.cost) ∧
    (∀ outcome, e.result = .ok outcome → e.seen.totalCost = outcome.gasUsed ∧
      gas.used = outcome.gasUsed ∧ gas.used + gas.remaining = config.gasLimit) ∧
    (∀ fault, e.result = .error fault → gas.used = config.gasLimit ∧ gas.remaining = 0 ∧
      ∀ r, steps.getLast? = some r → r.gas ≤ config.gasLimit ∧
        e.seen.totalCost = config.gasLimit - r.gas + r.cost ∧
        e.seen.totalCost ≤ config.gasLimit + 10) ∧
    (config.gasLimit + 11 ≤ UInt64.size → e.seen.totalCost < UInt64.size) := by
  intro e steps gas
  have logged : steps = records ⟨code, config.stackLimit⟩ (.start config.gasLimit) :=
    (runTraced_log code config).2
  have total : e.seen.totalCost = price ⟨code, config.stackLimit⟩ (.start config.gasLimit) :=
    totalCost_eq_price logged
  have bound := price_le ⟨code, config.stackLimit⟩ (.start config.gasLimit)
  have limit := ending_limit ⟨code, config.stackLimit⟩ (.start config.gasLimit)
  have left : gas = (ending ⟨code, config.stackLimit⟩ (.start config.gasLimit)).settle.gas :=
    congrArg State.gas (execute_state code config _ _)
  have result : e.result = (ending ⟨code, config.stackLimit⟩ (.start config.gasLimit)).result :=
    execute_result code config _ _
  rw [logged, total, left, result]
  refine ⟨?_, ?_, ?_, ?_, ?_, ?_⟩
  · intro r first
    rw [← List.head?_eq_getElem?, records_head?] at first
    obtain ⟨-, -, shown, -⟩ := record?_eq_some_iff.mp first
    exact shown
  · intro r member
    exact ⟨record_held member, rfl⟩
  · intro i r next here behind
    obtain ⟨a, -, b, moved, made, made'⟩ := records_neighbours here behind
    obtain ⟨-, -, shown, -⟩ := record?_eq_some_iff.mp made
    obtain ⟨-, -, shown', -⟩ := record?_eq_some_iff.mp made'
    obtain ⟨enough, paid⟩ := next_paid moved made
    rw [shown, shown', paid]
    exact ⟨enough, rfl⟩
  · intro outcome succeeded
    obtain ⟨halted, rfl⟩ := Ending.result_eq_ok_iff.mp succeeded
    obtain ⟨enough, paid⟩ := halted_paid halted
    rw [Ending.settle_halted halted]
    refine ⟨(halted_used halted).symm, rfl, ?_⟩
    rw [halted_used halted, paid]
    exact Nat.add_sub_cancel' enough
  · intro fault failed
    obtain ⟨aborted, -⟩ := Ending.result_eq_error_iff.mp failed
    rw [Ending.settle_aborted aborted]
    refine ⟨limit, rfl, ?_⟩
    intro r last
    obtain ⟨sum, most⟩ := price_of_last last
    change _ = config.gasLimit + r.cost at sum
    change r.gas ≤ config.gasLimit at most
    change _ ≤ config.gasLimit + 10 at bound
    exact ⟨most, by omega, bound⟩
  · intro small
    change _ ≤ config.gasLimit + 10 at bound
    omega

theorem landing_accounts_for_gas :
    let code := Code.ofBytes [0x60, 0x04, 0xb3, 0x00, 0xb2, 0xb7]
    let paid := (Machine.new code ⟨14, 1024⟩).execute TraceLog.tracer.observer .empty
    let short := (Machine.new code ⟨11, 1024⟩).execute TraceLog.tracer.observer .empty
    paid.seen.totalCost = 14 ∧ paid.machine.state.gas.remaining = 0 ∧
      short.machine.state.gas.used = 11 ∧
      short.seen.steps.toList.getLast? = some ⟨4, .beginsub, 0, .empty, .ofItems [3]⟩ ∧
      short.seen.totalCost = 11 - 0 + 1 ∧ short.seen.totalCost < UInt64.size := by
  intro code paid short
  have succeeded : paid.result = .ok ⟨14, .empty, 3⟩ := by
    rw [execute_result, Ending.result_eq_ok_iff]
    decide +kernel
  have failed : short.result = .error ⟨4, .outOfGas⟩ := by
    rw [execute_result, Ending.result_eq_error_iff]
    decide +kernel
  have last : short.seen.steps.toList.getLast? =
      some ⟨4, .beginsub, 0, .empty, .ofItems [3]⟩ := by
    decide +kernel
  obtain ⟨-, -, -, success, -⟩ := trace_accounts_for_gas code ⟨14, 1024⟩
  obtain ⟨-, -, -, -, abort, fits⟩ := trace_accounts_for_gas code ⟨11, 1024⟩
  obtain ⟨total, used, whole⟩ := success _ succeeded
  obtain ⟨spent, -, sums⟩ := abort _ failed
  obtain ⟨-, sum, -⟩ := sums _ last
  refine ⟨total, ?_, spent, last, sum, fits (by decide)⟩
  rw [used] at whole
  exact Nat.add_eq_left.mp whole

end SubroutineVM
