import SubroutineVM.Proofs.Machine.StackEffect

/-!
Executions that differ in the limit of their data stack. The limit decides in the checks only, and
the check of an instruction foretells the size of the stack behind it, so that two executions of
one code go the same way until an instruction would pass the lower limit. Main statement:
`stack_threshold`, by which the most items that a successful execution holds are exactly the
least limit under which it succeeds.
-/
namespace SubroutineVM

def Context.withLimit (c : Context) (stackLimit : Nat) : Context := { c with stackLimit }

/-- The sizes of the data stack before each step and at the end. Behind the size at an index comes
    the one that the step at this index leaves. -/
def stackSizes (steps : List StepRecord) (last : Stack Word) : List Nat :=
  steps.map (·.stack.size) ++ [last.size]

def peak (sizes : List Nat) : Nat := sizes.foldr max 0

structure FirstAbove (sizes : List Nat) (limit : Nat) (i : Nat) : Prop where
  before : ∀ size ∈ sizes.take (i + 1), size ≤ limit
  behind : ∃ size, sizes[i + 1]? = some size ∧ limit < size

theorem peak_le_iff {sizes : List Nat} {limit : Nat} :
    peak sizes ≤ limit ↔ ∀ size ∈ sizes, size ≤ limit := by
  induction sizes with
  | nil => simp [peak]
  | cons size sizes ih =>
    unfold peak at ih ⊢
    rw [List.foldr_cons, Nat.max_le, ih, List.forall_mem_cons]

theorem FirstAbove.cons {sizes : List Nat} {limit i first : Nat} (low : first ≤ limit)
    (above : FirstAbove sizes limit i) : FirstAbove (first :: sizes) limit (i + 1) where
  before := by
    intro size member
    rw [List.take_succ_cons] at member
    rcases List.mem_cons.mp member with rfl | later
    · exact low
    · exact above.before size later
  behind := by
    obtain ⟨size, found, high⟩ := above.behind
    exact ⟨size, by rw [List.getElem?_cons_succ, found], high⟩

section Moves

variable {c : Context} {s t : State} {op : Opcode} {limit : Nat}

theorem popping_congr {move move' : Word → State → Transition}
    (same : ∀ w u, u.stack.size + 1 = s.stack.size → move w u = move' w u) :
    s.popping move = s.popping move' := by
  unfold State.popping
  cases popped : s.stack.pop? with
  | none => rfl
  | some top =>
    have height := Stack.size_of_cons (Stack.pop?_eq_some_iff.mp popped)
    exact same top.1 _ height.symm

theorem pushing_withLimit {w : Word} {n : Nat} (room : s.stack.size < c.stackLimit)
    (room' : s.stack.size < limit) :
    s.pushing (c.withLimit limit) w (State.advance (c.withLimit limit) n) =
      s.pushing c w (State.advance c n) := by
  rw [State.pushing_of_room room, State.pushing_of_room (c := c.withLimit limit) room']
  rfl

theorem perform_withLimit (fits : s.stackFault? c op = none)
    (fits' : s.stackFault? (c.withLimit limit) op = none) :
    perform (c.withLimit limit) op s = perform c op s := by
  obtain ⟨enough, room⟩ := State.stackFault?_eq_none_iff.mp fits
  obtain ⟨-, room'⟩ := State.stackFault?_eq_none_iff.mp fits'
  simp only [Context.withLimit] at room'
  cases op with
  | binary f =>
    simp only [Opcode.stackInputs, Opcode.stackOutputs] at enough room room'
    simp only [perform]
    -- The result is pushed where two operands have made room for it, whatever the limit.
    apply popping_congr
    intro a u first
    apply popping_congr
    intro b v second
    exact pushing_withLimit (by omega) (by omega)
  | unary f =>
    simp only [Opcode.stackInputs, Opcode.stackOutputs] at enough room room'
    simp only [perform]
    apply popping_congr
    intro a u first
    exact pushing_withLimit (by omega) (by omega)
  | pc | gas | push => exact pushing_withLimit room room'
  | dup n =>
    simp only [Opcode.stackInputs, Opcode.stackOutputs] at enough room room'
    simp only [perform]
    split
    · rfl
    · exact pushing_withLimit (by omega) (by omega)
  | _ => rfl

theorem next_withLimit (moved : step c s = .next t) (room : t.stack.size ≤ limit) :
    step (c.withLimit limit) s = .next t := by
  cases move_of moved with
  | landed landing enough => rw [step_landing landing, land_paid enough]
  | performed fetching fetched fits enough effect =>
    have kept : t.stack.size = _ := (effect_completes (s := s.paid _) fits effect).size
    obtain ⟨suited, -⟩ := State.stackFault?_eq_none_iff.mp fits
    have fits' : s.stackFault? (c.withLimit limit) _ = none :=
      State.stackFault?_eq_none_iff.mpr ⟨suited, Nat.le_trans (Nat.le_of_eq kept.symm) room⟩
    rw [step_fetched fetching fetched, execute_paid fits enough] at moved
    rw [step_fetched fetching (by exact fetched), execute_paid fits' enough,
      perform_withLimit (by exact fits) (by exact fits'), moved]

theorem next_over (moved : step c s = .next t) (low : s.stack.size ≤ limit)
    (high : limit < t.stack.size) :
    step (c.withLimit limit) s = .fault s (.stackOverflow limit) := by
  cases move_of moved with
  | landed => exact absurd high (Nat.not_lt_of_le low)
  | performed fetching fetched fits enough effect =>
    have kept : t.stack.size = _ := (effect_completes (s := s.paid _) fits effect).size
    obtain ⟨suited, -⟩ := State.stackFault?_eq_none_iff.mp fits
    have unfit : s.stackFault? (c.withLimit limit) _ = some (.stackOverflow limit) :=
      stackFault?_eq_some_iff.mpr (.inr ⟨suited, Nat.lt_of_lt_of_eq high kept, rfl⟩)
    rw [step_fetched fetching (by exact fetched), execute_unsuited unfit]

theorem halt_withLimit (moved : step c s = .halt t) (room : s.stack.size ≤ limit) :
    t.stack = s.stack ∧ step (c.withLimit limit) s = .halt t := by
  cases move_of moved with
  | ended fetching none => exact ⟨rfl, step_ended fetching (by exact none)⟩
  | performed fetching fetched fits enough effect =>
    cases effect with
    | stop =>
      have fits' : s.stackFault? (c.withLimit limit) .stop = none :=
        State.stackFault?_eq_none_iff.mpr ⟨Nat.zero_le _, room⟩
      rw [step_fetched fetching (by exact fetched), execute_paid fits' enough]
      exact ⟨rfl, rfl⟩

end Moves

def sizesFrom (c : Context) (s : State) : List Nat :=
  stackSizes (records c s) (ending c s).state.stack

section Runs

variable {c : Context} {s t : State} {limit : Nat}

theorem sizesFrom_next (moved : step c s = .next t) :
    sizesFrom c s = s.stack.size :: sizesFrom c t := by
  obtain ⟨r, made⟩ := record?_of_next moved
  obtain ⟨-, -, -, shown, -⟩ := record?_eq_some_iff.mp made
  simp only [sizesFrom, stackSizes, records_next moved made, ending_next moved, List.map_cons,
    List.cons_append, shown]

theorem sizesFrom_halt (moved : step c s = .halt t) :
    sizesFrom c s = (s.record? c).toList.map (·.stack.size) ++ [t.stack.size] := by
  simp only [sizesFrom, stackSizes, records_halt moved, ending_halt moved]

theorem sizesFrom_head (halted : (ending c s).cause? = none) :
    (sizesFrom c s)[0]? = some s.stack.size := by
  cases moved : step c s with
  | next t =>
    rw [sizesFrom_next moved]
    rfl
  | halt t =>
    obtain ⟨same, -⟩ := halt_withLimit moved (Nat.le_refl _)
    rw [sizesFrom_halt moved, same]
    cases made : s.record? c with
    | none => rfl
    | some r =>
      obtain ⟨-, -, -, shown, -⟩ := record?_eq_some_iff.mp made
      simp [shown]
  | fault t cause => exact absurd halted (not_halted_of_fault moved)

theorem sizesFrom_halt_le (moved : step c s = .halt t) (low : s.stack.size ≤ limit) :
    ∀ size ∈ sizesFrom c s, size ≤ limit := by
  obtain ⟨same, -⟩ := halt_withLimit moved low
  rw [sizesFrom_halt moved, same]
  intro size member
  rcases List.mem_append.mp member with shown | last
  · obtain ⟨r, made, rfl⟩ := List.mem_map.mp shown
    obtain ⟨-, -, -, stack, -⟩ := record?_eq_some_iff.mp (Option.mem_toList.mp made)
    rw [stack]
    exact low
  · rw [List.mem_singleton.mp last]
    exact low

theorem halted_withLimit (halted : (ending c s).cause? = none)
    (room : ∀ size ∈ sizesFrom c s, size ≤ limit) :
    ending (c.withLimit limit) s = ending c s ∧ records (c.withLimit limit) s = records c s := by
  induction s using execution_induction (c := c) with
  | next s t moved ih =>
    have halted' := next_of_halted moved halted
    rw [sizesFrom_next moved] at room
    obtain ⟨-, later⟩ := List.forall_mem_cons.mp room
    have moved' := next_withLimit moved (later _ (List.mem_of_getElem? (sizesFrom_head halted')))
    obtain ⟨same, steps⟩ := ih halted' later
    obtain ⟨r, made⟩ := record?_of_next moved
    rw [ending_next moved', ending_next moved, records_next moved' (by exact made),
      records_next moved made, same, steps]
    exact ⟨rfl, rfl⟩
  | halted s t moved =>
    have low := room _ (List.mem_of_getElem? (sizesFrom_head halted))
    obtain ⟨-, moved'⟩ := halt_withLimit moved low
    rw [ending_halt moved', ending_halt moved, records_halt moved', records_halt moved]
    exact ⟨rfl, rfl⟩
  | faulted s t cause moved => exact absurd halted (not_halted_of_fault moved)

theorem halted_over (halted : (ending c s).cause? = none) (low : s.stack.size ≤ limit)
    (high : ¬ ∀ size ∈ sizesFrom c s, size ≤ limit) :
    ∃ i r, (records c s)[i]? = some r ∧ FirstAbove (sizesFrom c s) limit i ∧
      (ending (c.withLimit limit) s).cause? = some (.stackOverflow limit) ∧
      (ending (c.withLimit limit) s).state.pc = r.pc ∧
      records (c.withLimit limit) s = (records c s).take (i + 1) := by
  induction s using execution_induction (c := c) with
  | next s t moved ih =>
    have halted' := next_of_halted moved halted
    obtain ⟨r, made⟩ := record?_of_next moved
    obtain ⟨-, place, -⟩ := record?_eq_some_iff.mp made
    -- This step is the first one to leave too much, or the first one is behind it.
    by_cases beyond : limit < t.stack.size
    · have moved' := next_over moved low beyond
      rw [ending_fault moved', records_fault moved', records_next moved made,
        sizesFrom_next moved]
      refine ⟨0, r, rfl, ⟨?_, t.stack.size, sizesFrom_head halted', beyond⟩, rfl, place.symm, ?_⟩
      · intro size member
        rw [List.mem_singleton.mp member]
        exact low
      · exact congrArg Option.toList made
    · have low' := Nat.le_of_not_lt beyond
      have high' : ¬ ∀ size ∈ sizesFrom c t, size ≤ limit := by
        intro every
        apply high
        rw [sizesFrom_next moved]
        exact List.forall_mem_cons.mpr ⟨low, every⟩
      have moved' := next_withLimit moved low'
      obtain ⟨i, r', here, above, cause, pc, steps⟩ := ih halted' low' high'
      rw [ending_next moved', records_next moved' (by exact made), records_next moved made,
        sizesFrom_next moved]
      refine ⟨i + 1, r', here, above.cons low, cause, pc, ?_⟩
      rw [steps, List.take_succ_cons]
  | halted s t moved => exact absurd (sizesFrom_halt_le moved low) high
  | faulted s t cause moved => exact absurd halted (not_halted_of_fault moved)

end Runs

/-- The most items that a successful execution holds are the least limit of the data stack that lets
    it succeed: under as high a limit it gives the same outcome by the same steps. Under a lower one
    it goes the same way up to the first step that would leave more items, and overflows there. -/
theorem stack_threshold (code : Code) (gas stackLimit : Nat) (outcome : Outcome)
    (succeeded : run code ⟨gas, stackLimit⟩ = .ok outcome) :
    let steps := stepRecords code ⟨gas, stackLimit⟩
    let sizes := stackSizes steps outcome.stack
    (∀ limit, peak sizes ≤ limit → run code ⟨gas, limit⟩ = .ok outcome ∧
      stepRecords code ⟨gas, limit⟩ = steps) ∧
    ∀ limit, limit < peak sizes → ∃ i r, steps[i]? = some r ∧ FirstAbove sizes limit i ∧
      run code ⟨gas, limit⟩ = .error ⟨r.pc, .stackOverflow limit⟩ ∧
      stepRecords code ⟨gas, limit⟩ = steps.take (i + 1) := by
  intro steps sizes
  let c : Context := ⟨code, stackLimit⟩
  have logged (limit : Nat) :
      stepRecords code ⟨gas, limit⟩ = records (c.withLimit limit) (.start gas) :=
    (runTraced_log code ⟨gas, limit⟩).2
  have ran (limit : Nat) :
      run code ⟨gas, limit⟩ = (ending (c.withLimit limit) (.start gas)).result :=
    run_eq code ⟨gas, limit⟩
  have here : (ending c (.start gas)).result = .ok outcome := (ran stackLimit).symm.trans succeeded
  obtain ⟨halted, rfl⟩ := Ending.result_eq_ok_iff.mp here
  have held : sizes = sizesFrom c (.start gas) := by
    simp only [sizes, steps, logged, sizesFrom]
    rfl
  have taken : steps = records c (.start gas) := logged stackLimit
  rw [held, taken]
  constructor
  · intro limit enough
    obtain ⟨same, alike⟩ := halted_withLimit halted (peak_le_iff.mp enough)
    rw [logged, ran, same]
    exact ⟨Ending.result_eq_ok_iff.mpr ⟨halted, rfl⟩, alike⟩
  · intro limit short
    have high : ¬ ∀ size ∈ sizesFrom c (.start gas), size ≤ limit := by
      intro every
      exact absurd (peak_le_iff.mpr every) (Nat.not_le_of_lt short)
    obtain ⟨i, r, here, above, cause, pc, alike⟩ := halted_over halted (Nat.zero_le limit) high
    refine ⟨i, r, here, above, ?_, ?_⟩
    · rw [ran]
      exact Ending.result_eq_error_iff.mpr ⟨cause, pc⟩
    · rw [logged]
      exact alike

theorem stack_threshold_of_sum :
    let code := Code.ofBytes [0x60, 0x01, 0x5a, 0x01]
    let sizes := stackSizes (stepRecords code ⟨20, 1024⟩) (.ofItems [16])
    run code ⟨20, 1024⟩ = .ok ⟨8, .ofItems [16], 4⟩ ∧ peak sizes = 2 ∧
      run code ⟨20, 2⟩ = .ok ⟨8, .ofItems [16], 4⟩ ∧
      ∃ i r, (stepRecords code ⟨20, 1024⟩)[i]? = some r ∧ FirstAbove sizes 1 i ∧
        run code ⟨20, 1⟩ = .error ⟨r.pc, .stackOverflow 1⟩ := by
  intro code sizes
  have succeeded : run code ⟨20, 1024⟩ = .ok ⟨8, .ofItems [16], 4⟩ := by
    rw [run_eq, Ending.result_eq_ok_iff]
    decide +kernel
  have most : peak sizes = 2 := by decide +kernel
  obtain ⟨enough, short⟩ := stack_threshold code 20 1024 _ succeeded
  obtain ⟨same, -⟩ := enough 2 (Nat.le_of_eq most)
  obtain ⟨i, r, here, above, overflow, -⟩ := short 1 (Nat.lt_of_lt_of_eq (by decide) most.symm)
  exact ⟨succeeded, most, same, i, r, here, above, overflow⟩

end SubroutineVM
