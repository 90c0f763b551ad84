import SubroutineVM.Proofs.Machine.StackThreshold

/-!
Executions above other items. What lies below both stacks is a frame: as long as an execution
succeeds it never comes to it, so that it goes the same way with the frame as without. The limit
of the data stack is raised by the frame, and that of the return stack is fixed and must leave
room for it. One step for all instructions, `step_framed`; main statement: `execution_framed`.
-/
namespace SubroutineVM

def Stack.above {α : Type} (base : List α) (s : Stack α) : Stack α :=
  .ofItems (s.items ++ base.reverse)

/-- What lies below the data stack and below the return stack, each listed bottom first. -/
structure Frame where
  words : List Word
  addresses : List Nat

def Context.framed (f : Frame) (c : Context) : Context :=
  c.withLimit (c.stackLimit + f.words.length)

def State.framed (f : Frame) (s : State) : State :=
  { s with stack := s.stack.above f.words, returns := Stack.above f.addresses s.returns }

def Machine.framed (f : Frame) (m : Machine) : Machine :=
  { m with context := m.context.framed f, state := m.state.framed f }

def Frame.Fits (f : Frame) (s : State) : Prop :=
  f.addresses.length + s.returns.size ≤ ReturnStack.limit

/-- A move that does not abort is made above the frame as well, if there is room behind it. -/
def Frame.Carries (f : Frame) : Transition → Transition → Prop
  | .next t, r => f.Fits t → r = .next (t.framed f)
  | .halt t, r => r = .halt (t.framed f)
  | .fault _ _, _ => True

namespace Stack

variable {α : Type} {base : List α} {s t : Stack α} {a : α} {n : Nat}

@[simp] theorem items_above : (s.above base).items = s.items ++ base.reverse := rfl

@[simp] theorem size_above : (s.above base).size = s.size + base.length := by
  simp [size_eq]

theorem toList_above : (s.above base).toList = base ++ s.toList := by
  simp [toList]

theorem push_above : (s.push a).above base = (s.above base).push a := ext rfl

theorem pop?_above (popped : s.pop? = some (a, t)) :
    (s.above base).pop? = some (a, t.above base) := by
  rw [pop?_eq_some_iff] at popped ⊢
  rw [items_above, popped, items_above, List.cons_append]

theorem peek?_above (peeked : s.peek? n = some a) : (s.above base).peek? n = some a := by
  rw [peek?] at peeked ⊢
  obtain ⟨inside, -⟩ := List.getElem?_eq_some_iff.mp peeked
  rw [items_above, List.getElem?_append_left inside, peeked]

theorem swap?_above (swapped : s.swap? n = some t) :
    (s.above base).swap? n = some (t.above base) := by
  rw [swap?_eq_some_iff] at swapped ⊢
  obtain ⟨a, b, rest, items, found, after⟩ := swapped
  obtain ⟨inside, -⟩ := List.getElem?_eq_some_iff.mp found
  refine ⟨a, b, rest ++ base.reverse, ?_, ?_, ?_⟩
  · rw [items_above, items, List.cons_append]
  · rw [List.getElem?_append_left inside, found]
  · rw [items_above, after, List.set_append_left _ _ inside, List.cons_append]

end Stack

section Instructions

variable {c : Context} {s : State} {f : Frame} {op : Opcode}

theorem popping_framed {move move' : Word → State → Transition}
    (carries : ∀ w u, f.Carries (move w u) (move' w (u.framed f))) :
    f.Carries (s.popping move) ((s.framed f).popping move') := by
  unfold State.popping
  cases popped : s.stack.pop? with
  | none => trivial
  | some top =>
    simp only [State.framed, Stack.pop?_above popped]
    exact carries top.1 _

theorem pushing_framed {w : Word} {move move' : State → Transition}
    (carries : ∀ u, f.Carries (move u) (move' (u.framed f))) :
    f.Carries (s.pushing c w move) ((s.framed f).pushing (c.framed f) w move') := by
  by_cases full : c.stackLimit ≤ s.stack.size
  · rw [State.pushing, if_pos full]
    trivial
  · have room : (s.framed f).stack.size < (c.framed f).stackLimit := by
      simp only [State.framed, Stack.size_above, Context.framed, Context.withLimit]
      omega
    rw [State.pushing_of_room (Nat.lt_of_not_le full), State.pushing_of_room room]
    have pushed := carries { s with stack := s.stack.push w }
    rw [State.framed, Stack.push_above] at pushed
    exact pushed

theorem advance_framed {n : Nat} :
    f.Carries (s.advance c n) ((s.framed f).advance (c.framed f) n) := fun _ => rfl

theorem jump_framed {dest : Word} :
    f.Carries (s.jump c dest) ((s.framed f).jump (c.framed f) dest) := by
  cases target : c.code.isJumpTarget dest.toNat with
  | false =>
    rw [State.jump_of_stray target]
    trivial
  | true =>
    rw [State.jump_of_target target, State.jump_of_target (by exact target)]
    exact fun _ => rfl

theorem callSubroutine_framed :
    f.Carries (s.callSubroutine c) ((s.framed f).callSubroutine (c.framed f)) := by
  cases items : s.stack.items with
  | nil =>
    rw [State.callSubroutine, Stack.peek?, items]
    trivial
  | cons dest below =>
    let stack : Stack Word := .ofItems below
    have operand : s.stack.items = dest :: stack.items := items
    cases entry : c.code.isSubroutineEntry dest.toNat with
    | false =>
      rw [State.callSubroutine_of_stray operand entry]
      trivial
    | true =>
      rcases Nat.lt_or_ge s.returns.size ReturnStack.limit with room | full
      · rw [State.callSubroutine_of_entry operand entry room]
        intro fits
        have operand' : (s.framed f).stack.items = dest :: (stack.above f.words).items := by
          rw [State.framed, Stack.items_above, operand, Stack.items_above, List.cons_append]
        have room' : (s.framed f).returns.size < ReturnStack.limit := by
          simp only [Frame.Fits, Stack.size_push] at fits
          simp only [State.framed, Stack.size_above]
          omega
        have moved := State.callSubroutine_of_entry (c := c.framed f) operand' entry room'
        rw [moved, State.framed, State.framed, Stack.push_above]
      · rw [State.callSubroutine_of_full operand entry full]
        trivial

theorem endSubroutine_framed : f.Carries s.endSubroutine (s.framed f).endSubroutine := by
  unfold State.endSubroutine ReturnStack.restore
  cases popped : Stack.pop? s.returns with
  | none => trivial
  | some top =>
    simp only [State.framed, Stack.pop?_above popped]
    exact fun _ => rfl

theorem perform_framed : f.Carries (perform c op s) (perform (c.framed f) op (s.framed f)) := by
  cases op with simp only [perform]
  | stop => rfl
  | binary g =>
    apply popping_framed
    intro a u
    apply popping_framed
    intro b v
    apply pushing_framed
    intro t
    exact advance_framed
  | unary g =>
    apply popping_framed
    intro a u
    apply pushing_framed
    intro t
    exact advance_framed
  | pop =>
    apply popping_framed
    intro a u
    exact advance_framed
  | jump =>
    apply popping_framed
    intro dest u
    exact jump_framed
  | jumpi =>
    apply popping_framed
    intro dest u
    apply popping_framed
    intro condition v
    split
    · exact advance_framed
    · exact jump_framed
  | pc | gas | push =>
    apply pushing_framed
    intro u
    exact advance_framed
  | jumpdest => exact advance_framed
  | dup n =>
    cases peeked : s.stack.peek? n with
    | none => trivial
    | some w =>
      simp only [State.framed, Stack.peek?_above peeked]
      apply pushing_framed
      intro u
      exact advance_framed
  | swap n =>
    cases swapped : s.stack.swap? n with
    | none => trivial
    | some stack =>
      simp only [State.framed, Stack.swap?_above swapped]
      exact advance_framed
  | beginsub => trivial
  | jumpsub => exact callSubroutine_framed
  | returnsub => exact endSubroutine_framed

theorem stackFault?_framed (fits : s.stackFault? c op = none) :
    (s.framed f).stackFault? (c.framed f) op = none := by
  rw [State.stackFault?_eq_none_iff] at fits ⊢
  simp only [State.framed, Stack.size_above, Context.framed, Context.withLimit]
  omega

theorem step_framed : f.Carries (step c s) (step (c.framed f) (s.framed f)) := by
  generalize moved : step c s = result
  cases move_of moved with
  | landed landing enough =>
    intro _
    rw [step_landing (by exact landing), land_paid (by exact enough)]
    rfl
  | ended fetching none => exact step_ended (by exact fetching) (by exact none)
  | unpaidLanding | undefined | unsuited | unpaid => trivial
  | performed fetching fetched fits enough =>
    rw [step_fetched fetching fetched, execute_paid fits enough] at moved
    rw [← moved, step_fetched (by exact fetching) (by exact fetched),
      execute_paid (stackFault?_framed fits) (by exact enough)]
    exact perform_framed

end Instructions

theorem run_framed {c : Context} {s : State} {f : Frame} (halted : (ending c s).cause? = none)
    (fits : ∀ u ∈ states c s, f.Fits u) :
    ending (c.framed f) (s.framed f) = ⟨(ending c s).state.framed f, none⟩ ∧
      states (c.framed f) (s.framed f) = (states c s).map (State.framed f) := by
  have carries (u : State) : f.Carries (step c u) (step (c.framed f) (u.framed f)) := step_framed
  induction s using execution_induction (c := c) with
  | next s t moved ih =>
    rw [states_next moved] at fits
    obtain ⟨-, later⟩ := List.forall_mem_cons.mp fits
    have moved' : step (c.framed f) (s.framed f) = .next (t.framed f) := by
      have carried := carries s
      rw [moved] at carried
      exact carried (later t (states_head c t))
    obtain ⟨same, met⟩ := ih (next_of_halted moved halted) later
    rw [ending_next moved', states_next moved', same, met, ending_next moved, states_next moved,
      List.map_cons]
    exact ⟨rfl, rfl⟩
  | halted s t moved =>
    have moved' : step (c.framed f) (s.framed f) = .halt (t.framed f) := by
      have carried := carries s
      rwa [moved] at carried
    rw [ending_halt moved', states_halt moved', ending_halt moved, states_halt moved]
    exact ⟨rfl, rfl⟩
  | faulted s t cause moved => exact absurd halted (not_halted_of_fault moved)

/-- A machine that succeeds from any state succeeds from the same state above a frame, if the limit
    of its data stack is raised by the frame and its return stack never outgrows its own. It meets
    the same states above the frame and ends in the same one, with the frame as it was below what is
    left on both stacks. -/
theorem execution_framed {σ τ : Type} (m : Machine) (unfinished : m.result? = none)
    (observer : Observer σ) (seen : σ) (other : Observer τ) (kept : τ) (f : Frame)
    (outcome : Outcome) (succeeded : (m.execute observer seen).result = .ok outcome)
    (room : f.addresses.length + peak (m.visited.map (·.returns.size)) ≤ ReturnStack.limit) :
    let first := (m.execute observer seen).machine
    let second := ((m.framed f).execute other kept).machine
    (∃ stack, ((m.framed f).execute other kept).result =
        .ok ⟨outcome.gasUsed, stack, outcome.pc⟩ ∧
      stack.toList = f.words ++ outcome.stack.toList) ∧
    second.state.returns.toList = f.addresses ++ first.state.returns.toList ∧
    second.state = first.state.framed f ∧
    (m.framed f).visited = m.visited.map (State.framed f) := by
  rw [visited_unfinished unfinished] at room ⊢
  rw [visited_unfinished (m := m.framed f) unfinished]
  have fits : ∀ u ∈ states m.context m.state, f.Fits u := by
    intro u met
    have low : u.returns.size ≤ peak ((states m.context m.state).map (·.returns.size)) :=
      peak_le_iff.mp (Nat.le_refl _) _ (List.mem_map_of_mem met)
    exact Nat.le_trans (Nat.add_le_add_left low _) room
  rw [execute_unfinished unfinished] at succeeded ⊢
  rw [execute_unfinished (m := m.framed f) unfinished]
  obtain ⟨halted, rfl⟩ := Ending.result_eq_ok_iff.mp succeeded
  obtain ⟨same, met⟩ := run_framed halted fits
  have ended : ending (m.framed f).context (m.framed f).state =
      ⟨(ending m.context m.state).state.framed f, none⟩ := same
  simp only [ended, Ending.settle, halted]
  exact ⟨⟨_, rfl, Stack.toList_above⟩, Stack.toList_above, trivial, met⟩

theorem rest_of_call_above_full_frame :
    let m : Machine := ⟨⟨.ofBytes [0x60, 0x04, 0xb3, 0x00, 0xb2, 0x80, 0x01, 0xb7], 2⟩,
      ⟨5, .ofItems [7], .ofItems [3], ⟨10, 10⟩, false⟩, none⟩
    let f : Frame := ⟨[1, 2], List.replicate 1022 9⟩
    let second := (m.framed f).execute .silent ()
    (m.execute .silent ()).result = .ok ⟨8, .ofItems [14], 3⟩ ∧
      (∃ stack, second.result = .ok ⟨8, stack, 3⟩ ∧ stack.toList = [1, 2, 14]) ∧
      second.machine.state.returns.toList = List.replicate 1022 9 := by
  intro m f second
  have succeeded : (m.execute .silent ()).result = .ok ⟨8, .ofItems [14], 3⟩ := by
    rw [execute_unfinished rfl, Ending.result_eq_ok_iff]
    decide +kernel
  have room : f.addresses.length + peak (m.visited.map (·.returns.size)) ≤ ReturnStack.limit := by
    have deepest : peak (m.visited.map (·.returns.size)) = 1 := by decide +kernel
    rw [deepest, List.length_replicate]
    decide
  obtain ⟨result, returns, -⟩ :=
    execution_framed m rfl .silent () .silent () f ⟨8, .ofItems [14], 3⟩ succeeded room
  have bare : (m.execute .silent ()).machine.state.returns.toList = [] := by
    rw [execute_unfinished rfl]
    decide +kernel
  rw [bare, List.append_nil] at returns
  exact ⟨succeeded, result, returns⟩

end SubroutineVM
