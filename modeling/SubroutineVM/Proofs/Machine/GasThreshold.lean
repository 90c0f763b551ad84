import SubroutineVM.Proofs.Machine.History

/-!
Executions that differ in their gas. Apart from GAS no instruction sees the meter, so that two
executions of one code go the same way until a charge fails. Main statement: `gas_threshold`,
by which the gas that a successful execution uses is exactly the least that lets it succeed.
-/
namespace SubroutineVM

def State.withGas (s : State) (g : GasMeter) : State := { s with gas := g }

def Transition.withGas (g : GasMeter) : Transition → Transition
  | .next s => .next (s.withGas g)
  | .halt s => .halt (s.withGas g)
  | .fault s cause => .fault (s.withGas g) cause

def StepRecord.withoutGas (r : StepRecord) : Nat × Opcode × Stack Word × ReturnStack :=
  (r.pc, r.opcode, r.stack, r.returns)

section Meter

variable {c : Context} {s : State} {g : GasMeter}

theorem popping_withGas {move move' : Word → State → Transition}
    (same : ∀ w u, move' w (u.withGas g) = (move w u).withGas g) :
    (s.withGas g).popping move' = (s.popping move).withGas g := by
  unfold State.popping
  simp only [State.withGas]
  cases s.stack.pop? with
  | none => rfl
  | some top => exact same top.1 { s with stack := top.2 }

theorem pushing_withGas {w : Word} {move move' : State → Transition}
    (same : ∀ u, move' (u.withGas g) = (move u).withGas g) :
    (s.withGas g).pushing c w move' = (s.pushing c w move).withGas g := by
  unfold State.pushing
  by_cases full : c.stackLimit ≤ s.stack.size
  · rw [if_pos (by exact full), if_pos full]
    rfl
  · rw [if_neg (by exact full), if_neg full]
    exact same { s with stack := s.stack.push w }

theorem advance_withGas (n : Nat) :
    (s.withGas g).advance c n = (s.advance c n).withGas g := rfl

theorem jump_withGas (dest : Word) : (s.withGas g).jump c dest = (s.jump c dest).withGas g := by
  unfold State.jump
  split <;> rfl

theorem callSubroutine_withGas :
    (s.withGas g).callSubroutine c = (s.callSubroutine c).withGas g := by
  unfold State.callSubroutine
  simp only [State.withGas]
  cases s.stack.peek? 0 with
  | none => rfl
  | some dest =>
    by_cases entry : c.code.isSubroutineEntry dest.toNat
    · simp only [entry, if_true]
      cases s.returns.save (s.pc + 1) with
      | error => rfl
      | ok returns =>
        exact popping_withGas (s := { s with returns }) (by intro w u; rfl)
    · simp only [entry]
      rfl

theorem endSubroutine_withGas :
    (s.withGas g).endSubroutine = s.endSubroutine.withGas g := by
  unfold State.endSubroutine
  simp only [State.withGas]
  cases s.returns.restore <;> rfl

theorem perform_withGas {op : Opcode} (blind : op ≠ .gas) :
    perform c op (s.withGas g) = (perform c op s).withGas g := by
  have advance : ∀ n u, State.advance c n (u.withGas g) = (State.advance c n u).withGas g := by
    intro n u
    exact advance_withGas n
  cases op with
  | gas => exact absurd rfl blind
  | stop | jumpdest | beginsub => rfl
  | binary f =>
    simp only [perform]
    refine popping_withGas ?_
    intro a u
    refine popping_withGas ?_
    intro b u
    exact pushing_withGas (advance 0)
  | unary f =>
    simp only [perform]
    refine popping_withGas ?_
    intro a u
    exact pushing_withGas (advance 0)
  | pop =>
    simp only [perform]
    refine popping_withGas ?_
    intro a u
    exact advance 0 u
  | jump =>
    simp only [perform]
    refine popping_withGas ?_
    intro dest u
    exact jump_withGas dest
  | jumpi =>
    simp only [perform]
    refine popping_withGas ?_
    intro dest u
    refine popping_withGas ?_
    intro condition u
    by_cases zero : condition = 0
    · simp only [zero, if_true]
      exact advance 0 u
    · simp only [zero, if_false]
      exact jump_withGas dest
  | pc => exact pushing_withGas (advance 0)
  | push n => exact pushing_withGas (advance (n + 1))
  | dup n =>
    simp only [perform, State.withGas]
    cases s.stack.peek? n with
    | none => rfl
    | some w => exact pushing_withGas (advance 0)
  | swap n =>
    simp only [perform, State.withGas]
    cases s.stack.swap? n <;> rfl
  | jumpsub => exact callSubroutine_withGas
  | returnsub => exact endSubroutine_withGas

end Meter

section Moves

variable {c : Context} {s t : State} {r : StepRecord} {g : GasMeter}

theorem next_paid (moved : step c s = .next t) (made : s.record? c = some r) :
    r.cost ≤ s.gas.remaining ∧ t.gas = ⟨s.gas.limit, s.gas.remaining - r.cost⟩ := by
  cases advance_of_next moved made with
  | landed landing entry enough =>
    refine ⟨enough, ?_⟩
    rw [StepRecord.cost, entry]
    rfl
  | performed fetching fetched fits enough effect =>
    rw [step_fetched fetching fetched, execute_paid fits enough] at moved
    exact ⟨enough, perform_gas moved⟩

theorem step_withGas {op : Opcode} (fetching : s.landing = false)
    (fetched : c.code.opcode? s.pc = some op) (fits : s.stackFault? c op = none)
    (paid : op.cost ≤ s.gas.remaining) (enough : op.cost ≤ g.remaining) (blind : op ≠ .gas) :
    step c (s.withGas g) = (step c s).withGas ⟨g.limit, g.remaining - op.cost⟩ := by
  rw [step_fetched fetching fetched, execute_paid fits paid]
  rw [step_fetched (by exact fetching) (by exact fetched),
    execute_paid (by exact fits) (by exact enough)]
  exact perform_withGas (s := s.paid op.cost) (g := ⟨g.limit, g.remaining - op.cost⟩) blind

theorem next_withGas (moved : step c s = .next t) (made : s.record? c = some r)
    (blind : r.opcode ≠ .gas) (enough : r.cost ≤ g.remaining) :
    step c (s.withGas g) = .next (t.withGas ⟨g.limit, g.remaining - r.cost⟩) := by
  cases advance_of_next moved made with
  | landed landing entry =>
    rw [StepRecord.cost, entry] at enough ⊢
    rw [step_landing (by exact landing), land_paid (by exact enough)]
    rfl
  | performed fetching fetched fits paid effect =>
    rw [step_withGas fetching fetched fits paid enough blind, moved]
    rfl

theorem next_short (moved : step c s = .next t) (made : s.record? c = some r)
    (short : g.remaining < r.cost) :
    step c (s.withGas g) = .fault (s.withGas g) .outOfGas := by
  cases advance_of_next moved made with
  | landed landing entry =>
    rw [StepRecord.cost, entry] at short
    rw [step_landing (by exact landing), land_unpaid (by exact short)]
  | performed fetching fetched fits =>
    rw [step_fetched (by exact fetching) (by exact fetched), execute_unpaid (by exact fits) short]

theorem next_withGas_place (moved : step c s = .next t) (made : s.record? c = some r)
    (enough : r.cost ≤ g.remaining) : ∃ u, step c (s.withGas g) = .next u ∧
      u.pc = t.pc ∧ u.landing = t.landing := by
  by_cases sees : r.opcode = .gas
  · cases advance_of_next moved made with
    | landed landing entry => cases entry.symm.trans sees
    | performed fetching fetched fits paid effect =>
      rw [step_fetched (by exact fetching) (by exact fetched),
        execute_paid (by exact fits) (by exact enough)]
      rw [sees] at effect fits ⊢
      obtain ⟨-, room⟩ := State.stackFault?_eq_none_iff.mp fits
      cases effect with
      | sequential =>
        rw [perform, State.pushing_of_room (by exact room)]
        exact ⟨_, rfl, rfl, rfl⟩
  · exact ⟨_, next_withGas moved made sees enough, rfl, rfl⟩

theorem halt_withGas (moved : step c s = .halt t) :
    t = s ∧ step c (s.withGas g) = .halt (s.withGas g) ∧
      ∀ r, s.record? c = some r → r.cost = 0 := by
  cases move_of moved with
  | ended fetching none =>
    refine ⟨rfl, step_ended (by exact fetching) (by exact none), ?_⟩
    intro r made
    obtain ⟨charged, -⟩ := record?_eq_some_iff.mp made
    rw [opcode?_fetching fetching, Code.opcode?, none] at charged
    cases charged
  | @performed op _ fetching fetched fits enough effect =>
    cases effect with
    | stop =>
      refine ⟨rfl, ?_, ?_⟩
      · rw [step_fetched (by exact fetching) (by exact fetched),
          execute_paid (by exact fits) (Nat.zero_le _)]
        rfl
      · intro r made
        obtain ⟨charged, -⟩ := record?_eq_some_iff.mp made
        have same := fetched.symm.trans (fetched_of_charged charged fetching)
        rw [StepRecord.cost, ← Option.some.inj same]
        rfl

theorem fault_withGas {cause : Cause} (moved : step c s = .fault t cause)
    (other : cause ≠ .outOfGas) (more : s.gas.remaining ≤ g.remaining) :
    ∃ u, step c (s.withGas g) = .fault u cause ∧ u.pc = t.pc := by
  cases move_of moved with
  | unpaidLanding | unpaid => exact absurd rfl other
  | undefined fetching fetched unknown =>
    exact ⟨_, step_undefined (by exact fetching) (by exact fetched) unknown, rfl⟩
  | unsuited fetching fetched unfit =>
    rw [step_fetched (by exact fetching) (by exact fetched), execute_unsuited (by exact unfit)]
    exact ⟨_, rfl, rfl⟩
  | @performed op _ fetching fetched fits enough effect =>
    -- GAS cannot fail any more when its stack effect is checked and it is paid for.
    have blind : op ≠ .gas := by
      rintro rfl
      cases effect
    rw [step_withGas fetching fetched fits enough (Nat.le_trans enough more) blind, moved]
    exact ⟨_, rfl, rfl⟩

theorem record?_withGas : (s.withGas g).record? c =
    (s.record? c).map fun r => { r with gas := g.remaining } := by
  simp only [State.record?, Option.map_map]
  rfl

end Moves

def price (c : Context) (s : State) : Nat := (records c s).foldr (fun r rest => r.cost + rest) 0

section Runs

variable {c : Context} {s t : State} {r : StepRecord} {g : GasMeter}

theorem price_next (moved : step c s = .next t) (made : s.record? c = some r) :
    price c s = r.cost + price c t := by
  rw [price, records_next moved made, List.foldr_cons, price]

theorem price_halt (moved : step c s = .halt t) : price c s = 0 := by
  obtain ⟨-, -, free⟩ := halt_withGas (g := s.gas) moved
  rw [price, records_halt moved]
  cases made : s.record? c with
  | none => rfl
  | some r => simp [free r made]

theorem halted_paid (halted : (ending c s).cause? = none) : price c s ≤ s.gas.remaining ∧
    (ending c s).state.gas = ⟨s.gas.limit, s.gas.remaining - price c s⟩ := by
  induction s using execution_induction (c := c) with
  | next s t moved ih =>
    obtain ⟨r, made⟩ := record?_of_next moved
    obtain ⟨enough, paid⟩ := next_paid moved made
    obtain ⟨rest, left⟩ := ih (next_of_halted moved halted)
    rw [price_next moved made, ending_next moved, left, paid]
    rw [paid] at rest
    simp only at rest
    refine ⟨by omega, ?_⟩
    simp only [Nat.sub_sub]
  | halted s t moved =>
    obtain ⟨rfl, -⟩ := halt_withGas (g := s.gas) moved
    rw [price_halt moved, ending_halt moved]
    exact ⟨Nat.zero_le _, rfl⟩
  | faulted s t cause moved => exact absurd halted (not_halted_of_fault moved)

theorem halted_withGas (halted : (ending c s).cause? = none)
    (blind : ∀ r ∈ records c s, r.opcode ≠ .gas) (enough : price c s ≤ g.remaining) :
    ending c (s.withGas g) =
        ⟨(ending c s).state.withGas ⟨g.limit, g.remaining - price c s⟩, none⟩ ∧
      (records c (s.withGas g)).map StepRecord.withoutGas =
        (records c s).map StepRecord.withoutGas := by
  induction s using execution_induction (c := c) generalizing g with
  | next s t moved ih =>
    obtain ⟨r, made⟩ := record?_of_next moved
    rw [price_next moved made] at enough ⊢
    rw [records_next moved made] at blind ⊢
    obtain ⟨blind, later⟩ := List.forall_mem_cons.mp blind
    have moved' := next_withGas (g := g) moved made blind (by omega)
    have made' : (s.withGas g).record? c = some { r with gas := g.remaining } := by
      rw [record?_withGas, made, Option.map_some]
    obtain ⟨same, steps⟩ := ih (next_of_halted moved halted) later
      (g := ⟨g.limit, g.remaining - r.cost⟩) (by simp only; omega)
    rw [ending_next moved, ending_next moved', records_next moved' made', same, List.map_cons,
      List.map_cons, steps, Nat.sub_sub]
    exact ⟨rfl, rfl⟩
  | halted s t moved =>
    obtain ⟨rfl, moved', -⟩ := halt_withGas (g := g) moved
    rw [price_halt moved, ending_halt moved, ending_halt moved', records_halt moved,
      records_halt moved']
    refine ⟨rfl, ?_⟩
    rw [record?_withGas]
    cases t.record? c <;> rfl
  | faulted s t cause moved => exact absurd halted (not_halted_of_fault moved)

theorem halted_short (halted : (ending c s).cause? = none)
    (blind : ∀ r ∈ records c s, r.opcode ≠ .gas) (short : g.remaining < price c s) :
    (ending c (s.withGas g)).cause? = some .outOfGas := by
  induction s using execution_induction (c := c) generalizing g with
  | next s t moved ih =>
    obtain ⟨r, made⟩ := record?_of_next moved
    rw [price_next moved made] at short
    rw [records_next moved made] at blind
    obtain ⟨blind, later⟩ := List.forall_mem_cons.mp blind
    by_cases unpaid : g.remaining < r.cost
    · rw [ending_fault (next_short moved made unpaid)]
    · have moved' := next_withGas (g := g) moved made blind (by omega)
      rw [ending_next moved']
      apply ih (next_of_halted moved halted) later
      simp only
      omega
  | halted s t moved =>
    rw [price_halt moved] at short
    exact absurd short (Nat.not_lt_zero _)
  | faulted s t cause moved => exact absurd halted (not_halted_of_fault moved)

theorem undefined_of_unrecorded {cause : Cause} (bare : records c s = [])
    (aborted : (ending c s).cause? = some cause) : s.landing = false ∧
      ending c s = ⟨s, some cause⟩ ∧ ∃ byte, c.code.byte? s.pc = some byte ∧
        Opcode.ofByte? byte = none ∧ cause = .invalidOpcode byte := by
  have unrecorded := records_head? c s
  rw [bare, List.head?_nil, eq_comm, State.record?, Option.map_eq_none_iff] at unrecorded
  have fetching : s.landing = false := by
    rw [← Bool.not_eq_true]
    intro landing
    rw [opcode?_landing landing] at unrecorded
    cases unrecorded
  rw [opcode?_fetching fetching] at unrecorded
  cases here : c.code.byte? s.pc with
  | none =>
    rw [ending_halt (step_ended fetching here)] at aborted
    cases aborted
  | some byte =>
    rw [Code.opcode?, here, Option.bind_some] at unrecorded
    have moved := step_undefined (c := c) fetching here unrecorded
    rw [ending_fault moved] at aborted ⊢
    cases aborted
    exact ⟨fetching, rfl, byte, rfl, unrecorded, rfl⟩

/-- An execution that aborts for another cause than its gas aborts there for the same cause under
    more gas. The last record may be that of a GAS, since no later step sees its word. -/
theorem aborted_withGas {cause : Cause} (aborted : (ending c s).cause? = some cause)
    (other : cause ≠ .outOfGas) (blind : ∀ r ∈ (records c s).dropLast, r.opcode ≠ .gas)
    (more : s.gas.remaining ≤ g.remaining) :
    (ending c (s.withGas g)).cause? = some cause ∧
      (ending c (s.withGas g)).state.pc = (ending c s).state.pc := by
  induction s using execution_induction (c := c) generalizing g with
  | next s t moved ih =>
    obtain ⟨r, made⟩ := record?_of_next moved
    obtain ⟨enough, paid⟩ := next_paid moved made
    rw [records_next moved made] at blind
    rw [ending_next moved] at aborted ⊢
    -- The record here may be that of a GAS only if it is the last one.
    by_cases bare : records c t = []
    · obtain ⟨fetching, last, byte, here, unknown, rfl⟩ := undefined_of_unrecorded bare aborted
      obtain ⟨u, moved', pc, landing⟩ :=
        next_withGas_place (g := g) moved made (Nat.le_trans enough more)
      rw [ending_next moved', last,
        ending_fault (step_undefined (landing.trans fetching) (pc ▸ here) unknown)]
      exact ⟨rfl, pc⟩
    · rw [List.dropLast_cons_of_ne_nil bare] at blind
      obtain ⟨blind, later⟩ := List.forall_mem_cons.mp blind
      have moved' := next_withGas (g := g) moved made blind (Nat.le_trans enough more)
      rw [ending_next moved']
      apply ih aborted later
      rw [paid]
      simp only
      omega
  | halted s t moved =>
    rw [ending_halt moved] at aborted
    cases aborted
  | faulted s t found moved =>
    rw [ending_fault moved] at aborted ⊢
    cases aborted
    obtain ⟨u, moved', pc⟩ := fault_withGas moved other more
    rw [ending_fault moved']
    exact ⟨rfl, pc⟩

end Runs

theorem GasMeter.used_of_paid {limit cost : Nat} (enough : cost ≤ limit) :
    GasMeter.used ⟨limit, limit - cost⟩ = cost := by
  simp only [GasMeter.used]
  omega

theorem halted_used {c : Context} {gas : Nat} (halted : (ending c (.start gas)).cause? = none) :
    (ending c (.start gas)).state.gas.used = price c (.start gas) := by
  obtain ⟨enough, left⟩ := halted_paid halted
  rw [left]
  exact GasMeter.used_of_paid enough

theorem start_withGas (gas more : Nat) : (State.start gas).withGas (.full more) = .start more := rfl

/-- The gas that a successful execution without GAS uses is the least that lets it succeed: under as
    much or more it gives the same outcome by the same steps, under less it runs out of gas. An
    execution without GAS that aborts for another cause aborts alike under more gas. -/
theorem gas_threshold (code : Code) (stackLimit gas : Nat) :
    (∀ outcome, run code ⟨gas, stackLimit⟩ = .ok outcome →
      (∀ r ∈ stepRecords code ⟨gas, stackLimit⟩, r.opcode ≠ .gas) →
      (∀ more, outcome.gasUsed ≤ more → run code ⟨more, stackLimit⟩ = .ok outcome ∧
        (stepRecords code ⟨more, stackLimit⟩).map StepRecord.withoutGas =
          (stepRecords code ⟨gas, stackLimit⟩).map StepRecord.withoutGas) ∧
      ∀ less, less < outcome.gasUsed →
        ∃ pc, run code ⟨less, stackLimit⟩ = .error ⟨pc, .outOfGas⟩) ∧
    ∀ fault, run code ⟨gas, stackLimit⟩ = .error fault → fault.cause ≠ .outOfGas →
      (∀ r ∈ (stepRecords code ⟨gas, stackLimit⟩).dropLast, r.opcode ≠ .gas) →
      ∀ more, gas ≤ more → run code ⟨more, stackLimit⟩ = .error fault := by
  have steps (gas : Nat) := (runTraced_log code ⟨gas, stackLimit⟩).2
  simp only [run_eq, steps]
  constructor
  · intro outcome succeeded blind
    obtain ⟨halted, rfl⟩ := Ending.result_eq_ok_iff.mp succeeded
    rw [halted_used halted]
    constructor
    · intro more covers
      obtain ⟨same, alike⟩ := halted_withGas (g := .full more) halted blind covers
      rw [start_withGas] at same alike
      refine ⟨?_, alike⟩
      rw [same, Ending.result_eq_ok_iff]
      refine ⟨rfl, ?_⟩
      simp only [State.withGas, GasMeter.full, GasMeter.used_of_paid covers]
    · intro less short
      have unpaid := halted_short (g := .full less) halted blind short
      rw [start_withGas] at unpaid
      exact ⟨_, Ending.result_eq_error_iff.mpr ⟨unpaid, rfl⟩⟩
  · intro fault failed other blind more covers
    obtain ⟨aborted, pc⟩ := Ending.result_eq_error_iff.mp failed
    obtain ⟨again, same⟩ := aborted_withGas (g := .full more) aborted other blind covers
    rw [start_withGas] at again same
    exact Ending.result_eq_error_iff.mpr ⟨again, same.trans pc⟩

theorem gas_threshold_of_call :
    let code := Code.ofBytes [0x60, 0x04, 0xb3, 0x00, 0xb2, 0xb7]
    run code ⟨100, 1024⟩ = .ok ⟨14, .empty, 3⟩ ∧ run code ⟨14, 1024⟩ = .ok ⟨14, .empty, 3⟩ ∧
      (∃ pc, run code ⟨13, 1024⟩ = .error ⟨pc, .outOfGas⟩) ∧
      run (.ofBytes [0xb3]) ⟨5, 1024⟩ = .error ⟨0, .stackUnderflow 0 1⟩ := by
  intro code
  have succeeded : run code ⟨100, 1024⟩ = .ok ⟨14, .empty, 3⟩ := by
    rw [run_eq, Ending.result_eq_ok_iff]
    decide +kernel
  have failed : run (.ofBytes [0xb3]) ⟨0, 1024⟩ = .error ⟨0, .stackUnderflow 0 1⟩ := by
    rw [run_eq, Ending.result_eq_error_iff]
    decide +kernel
  obtain ⟨enough, short⟩ := (gas_threshold code 1024 100).1 _ succeeded (by decide +kernel)
  refine ⟨succeeded, (enough 14 (Nat.le_refl 14)).1, short 13 (by decide), ?_⟩
  exact (gas_threshold (.ofBytes [0xb3]) 1024 0).2 _ failed (by decide) (by decide +kernel) 5
    (by decide)

end SubroutineVM
