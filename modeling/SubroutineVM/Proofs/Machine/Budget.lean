import SubroutineVM.Proofs.Code.Segmentation
import SubroutineVM.Proofs.Machine.History

/-!
Executions end within their gas, whatever loops and calls the code makes. Each round of the fetch
loop that leads on has paid something, and only the last one can be free, so that a loop of one
round more than there is gas comes to its end. Main statement: `execution_within_budget`.
-/
namespace SubroutineVM

/-- One round of the fetch loop: an instruction, and with a call the landing behind it. -/
def State.round (c : Context) (s : State) : Transition :=
  match step c s with
  | .next t => if t.landing then land t else .next t
  | last => last

/-- The fetch loop for so many rounds; none where it has not come to its end by then. -/
def loopFor (c : Context) : Nat → State → Option Ending
  | 0, _ => none
  | rounds + 1, s =>
    match s.round c with
    | .next t => loopFor c rounds t
    | .halt t => some ⟨t, none⟩
    | .fault t cause => some ⟨t, some cause⟩

section Rounds

variable {c : Context} {s t : State}

theorem round_of_next (moved : step c s = .next t) :
    s.round c = if t.landing then land t else .next t := by
  rw [State.round, moved]

theorem round_of_halt (moved : step c s = .halt t) : s.round c = .halt t := by
  rw [State.round, moved]

theorem round_of_fault {cause : Cause} (moved : step c s = .fault t cause) :
    s.round c = .fault t cause := by
  rw [State.round, moved]

theorem round_cases (c : Context) (s : State) : s.round c = step c s ∨
    ∃ t, step c s = .next t ∧ s.round c = step c t := by
  cases moved : step c s with
  | next t =>
    rw [round_of_next moved]
    split
    · next landing => exact .inr ⟨t, rfl, (step_landing landing).symm⟩
    · exact .inl rfl
  | halt t => exact .inl (round_of_halt moved)
  | fault t cause => exact .inl (round_of_fault moved)

theorem round_next (led : s.round c = .next t) :
    ending c s = ending c t ∧ t.gas.remaining < s.gas.remaining := by
  rcases round_cases c s with one | ⟨u, moved, two⟩
  · have moved := one.symm.trans led
    exact ⟨ending_next moved, step_decreases moved⟩
  · have moved' := two.symm.trans led
    have first := step_decreases moved
    have second := step_decreases moved'
    exact ⟨(ending_next moved).trans (ending_next moved'), by omega⟩

theorem round_halt (led : s.round c = .halt t) : ending c s = ⟨t, none⟩ := by
  rcases round_cases c s with one | ⟨u, moved, two⟩
  · exact ending_halt (one.symm.trans led)
  · exact (ending_next moved).trans (ending_halt (two.symm.trans led))

theorem round_fault {cause : Cause} (led : s.round c = .fault t cause) :
    ending c s = ⟨t, some cause⟩ := by
  rcases round_cases c s with one | ⟨u, moved, two⟩
  · exact ending_fault (one.symm.trans led)
  · exact (ending_next moved).trans (ending_fault (two.symm.trans led))

theorem loopFor_eq {rounds : Nat} (budget : s.gas.remaining < rounds) :
    loopFor c rounds s = some (ending c s) := by
  -- On the rounds: one that leads on costs gas, so that the others are still more than is left.
  induction rounds generalizing s with
  | zero => omega
  | succ rounds ih =>
    unfold loopFor
    cases led : s.round c with
    | next t =>
      obtain ⟨same, less⟩ := round_next led
      rw [same]
      exact ih (by omega)
    | halt t => rw [round_halt led]
    | fault t cause => rw [round_fault led]

theorem length_states_le (c : Context) (s : State) :
    (states c s).length ≤ s.gas.remaining + 1 := by
  induction s using execution_induction (c := c) with
  | next s t moved ih =>
    have less := step_decreases moved
    rw [states_next moved, List.length_cons]
    omega
  | halted s t moved =>
    rw [states_halt moved, List.length_singleton]
    omega
  | faulted s t cause moved =>
    rw [states_fault moved, List.length_singleton]
    omega

end Rounds

section Chain

def Code.chain (size : Nat) : Code := .ofBytes (List.replicate size Opcode.jumpdest.toByte)

def State.along (place limit gas : Nat) : State := ⟨place, .empty, .empty, ⟨limit, gas⟩, false⟩

variable {stackLimit size place limit gas : Nat}

theorem Code.opcode?_chain (inside : place < size) :
    (chain size).opcode? place = some .jumpdest := by
  unfold opcode?
  rw [byte?_eq, chain, toBytes_ofBytes, List.getElem?_replicate, if_pos inside]
  exact Opcode.ofByte?_toByte .jumpdest

theorem suited_along {c : Context} (place limit gas : Nat) :
    (State.along place limit gas).stackFault? c .jumpdest = none :=
  State.stackFault?_eq_none_iff.mpr ⟨Nat.zero_le _, Nat.zero_le _⟩

theorem step_along (inside : place + 1 < size) :
    step ⟨.chain size, stackLimit⟩ (.along place limit (gas + 1)) =
      .next (.along (place + 1) limit gas) := by
  have fetched := Code.opcode?_chain (Nat.lt_of_succ_lt inside)
  have length : (Code.chain size).size = size := by
    rw [Code.size_eq, Code.chain, Code.toBytes_ofBytes, List.length_replicate]
  rw [step_fetched rfl fetched, execute_paid (suited_along place limit (gas + 1))
    (Nat.le_add_left 1 gas)]
  simp only [perform, State.advance, State.along, State.paid, Opcode.cost, length,
    Nat.add_sub_cancel, Nat.add_zero, Nat.min_eq_left (Nat.le_of_lt inside)]

theorem step_along_unpaid (inside : place < size) :
    step ⟨.chain size, stackLimit⟩ (.along place limit 0) =
      .fault (.along place limit 0) .outOfGas := by
  rw [step_fetched rfl (Code.opcode?_chain inside),
    execute_unpaid (suited_along place limit 0) Nat.zero_lt_one]

theorem length_records_along (inside : place + gas < size) :
    (records ⟨.chain size, stackLimit⟩ (.along place limit gas)).length = gas + 1 := by
  induction gas generalizing place with
  | zero =>
    have here : place < size := by omega
    rw [records_fault (step_along_unpaid here)]
    simp [State.record?, State.opcode?, State.along, Code.opcode?_chain here]
  | succ gas ih =>
    have moved : step ⟨.chain size, stackLimit⟩ (.along place limit (gas + 1)) = _ :=
      step_along (by omega)
    obtain ⟨r, made⟩ := record?_of_next moved
    rw [records_next moved made, List.length_cons, ih (by omega)]

theorem loopFor_along (inside : place + gas < size) :
    loopFor ⟨.chain size, stackLimit⟩ gas (.along place limit gas) = none := by
  induction gas generalizing place with
  | zero => rfl
  | succ gas ih =>
    unfold loopFor State.round
    rw [step_along (by omega)]
    exact ih (by omega)

end Chain

/-- The fetch loop ends after one round more than there is gas, with the result of the execution,
    and no more states are met and no more step records made than that. No smaller bound holds for
    every code. -/
theorem execution_within_budget (code : Code) (config : Config) :
    let c : Context := ⟨code, config.stackLimit⟩
    let s := State.start config.gasLimit
    (loopFor c (config.gasLimit + 1) s).map Ending.result = some (run code config) ∧
    (Machine.new code config).visited.length ≤ config.gasLimit + 1 ∧
    (stepRecords code config).length ≤ config.gasLimit + 1 ∧
    ∃ worst : Code, loopFor ⟨worst, config.stackLimit⟩ config.gasLimit s = none ∧
      (stepRecords worst config).length = config.gasLimit + 1 := by
  intro c s
  have met : (states c s).length ≤ config.gasLimit + 1 := length_states_le c s
  have ended : loopFor c (config.gasLimit + 1) s = some (ending c s) :=
    loopFor_eq (Nat.lt_succ_self config.gasLimit)
  have logged (code : Code) := (runTraced_log code config).2
  have inside : 0 + config.gasLimit < config.gasLimit + 1 := by omega
  refine ⟨?_, ?_, ?_, .chain (config.gasLimit + 1), loopFor_along inside, ?_⟩
  · rw [ended, Option.map_some, run_eq]
  · rw [visited_new]
    exact met
  · rw [logged]
    exact Nat.le_trans (List.length_filterMap_le _ _) met
  · rw [logged]
    exact length_records_along inside

end SubroutineVM
