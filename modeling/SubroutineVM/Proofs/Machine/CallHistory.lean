import SubroutineVM.Proofs.Machine.Safety

/-!
The return stack as a history of calls. Replaying the step records of an execution, one address
pushed for a JUMPSUB and one taken off for a RETURNSUB, gives the return stack of the next
record. Main statement: `return_stack_is_call_history`, which also says that a RETURNSUB goes
back behind the JUMPSUB that it closes as a bracket.
-/
namespace SubroutineVM

/-- The addresses of the open calls behind a record, the innermost last. -/
def StepRecord.replay (opened : List Nat) (r : StepRecord) : List Nat :=
  match r.opcode with
  | .jumpsub => opened ++ [r.pc + 1]
  | .returnsub => opened.dropLast
  | _ => opened

def replay (rs : List StepRecord) : List Nat := rs.foldl StepRecord.replay []

inductive Nested : List StepRecord → Prop where
  | nil : Nested []
  | plain {r : StepRecord} {rest : List StepRecord} (noCall : r.opcode ≠ .jumpsub)
      (noReturn : r.opcode ≠ .returnsub) (tail : Nested rest) : Nested (r :: rest)
  | call {r back : StepRecord} {inner rest : List StepRecord} (isCall : r.opcode = .jumpsub)
      (inside : Nested inner) (isReturn : back.opcode = .returnsub) (tail : Nested rest) :
      Nested (r :: (inner ++ back :: rest))

structure Closes (rs : List StepRecord) (call back : Nat) : Prop where
  order : call < back
  isCall : ∃ r, rs[call]? = some r ∧ r.opcode = .jumpsub
  isReturn : ∃ r, rs[back]? = some r ∧ r.opcode = .returnsub
  between : Nested ((rs.take back).drop (call + 1))

/-- Records cut at their open calls, the innermost first. -/
inductive Pending : List StepRecord → List StepRecord → Prop where
  | nested {rs : List StepRecord} (all : Nested rs) : Pending rs []
  | call {front inner calls : List StepRecord} {r : StepRecord} (outer : Pending front calls)
      (isCall : r.opcode = .jumpsub) (inside : Nested inner) :
      Pending (front ++ r :: inner) (r :: calls)

theorem replay_call {opened : List Nat} {r : StepRecord} (isCall : r.opcode = .jumpsub) :
    r.replay opened = opened ++ [r.pc + 1] := by
  rw [StepRecord.replay, isCall]

theorem replay_return {opened : List Nat} {r : StepRecord} (isReturn : r.opcode = .returnsub) :
    r.replay opened = opened.dropLast := by
  rw [StepRecord.replay, isReturn]

theorem replay_plain {opened : List Nat} {r : StepRecord} (noCall : r.opcode ≠ .jumpsub)
    (noReturn : r.opcode ≠ .returnsub) : r.replay opened = opened := by
  rw [StepRecord.replay]
  split
  · contradiction
  · contradiction
  · rfl

section Brackets

theorem nested_append {a b : List StepRecord} (first : Nested a) (second : Nested b) :
    Nested (a ++ b) := by
  induction first with
  | nil => exact second
  | plain noCall noReturn tail ih => exact .plain noCall noReturn ih
  | call isCall inside isReturn tail _ ih =>
    rw [List.cons_append, List.append_assoc, List.cons_append]
    exact .call isCall inside isReturn ih

theorem nested_replay {rs : List StepRecord} (nested : Nested rs) (opened : List Nat) :
    rs.foldl StepRecord.replay opened = opened := by
  induction nested generalizing opened with
  | nil => rfl
  | plain noCall noReturn tail ih => rw [List.foldl_cons, replay_plain noCall noReturn, ih]
  | call isCall inside isReturn tail innerIh restIh =>
    rw [List.foldl_cons, replay_call isCall, List.foldl_append, innerIh, List.foldl_cons,
      replay_return isReturn, List.dropLast_concat, restIh]

theorem pending_append {rs calls b : List StepRecord} (pending : Pending rs calls)
    (nested : Nested b) : Pending (rs ++ b) calls := by
  cases pending with
  | nested all => exact .nested (nested_append all nested)
  | call outer isCall inside =>
    rw [List.append_assoc, List.cons_append]
    exact .call outer isCall (nested_append inside nested)

theorem exists_pending {rs : List StepRecord} {n : Nat}
    (covered : ∀ j r, j < n → rs[j]? = some r → r.opcode = .returnsub → replay (rs.take j) ≠ []) :
    ∃ calls, Pending (rs.take n) calls := by
  induction n with
  | zero => exact ⟨[], .nested .nil⟩
  | succ n ih =>
    obtain ⟨calls, pending⟩ := ih (fun j r before => covered j r (Nat.lt_succ_of_lt before))
    rw [List.take_add_one]
    cases here : rs[n]? with
    | none => exact ⟨calls, pending_append pending .nil⟩
    | some r =>
      rw [Option.toList_some]
      by_cases isCall : r.opcode = .jumpsub
      · exact ⟨r :: calls, .call pending isCall .nil⟩
      · by_cases isReturn : r.opcode = .returnsub
        · have openCall := covered n r (Nat.lt_succ_self n) here isReturn
          generalize rs.take n = front at pending openCall
          cases pending with
          | nested all => exact absurd (nested_replay all []) openCall
          | @call before inner outer call rest isCall inside =>
            -- The return closes the innermost open call, and the two become nested.
            refine ⟨outer, ?_⟩
            rw [List.append_assoc, List.cons_append]
            exact pending_append rest (.call isCall inside isReturn .nil)
        · exact ⟨calls, pending_append pending (.plain isCall isReturn .nil)⟩

/-- Of two calls with nested records behind them neither lies behind the other: it would be open at
    the end. -/
theorem innermost_call_unique {front front' inner inner' : List StepRecord} {r r' : StepRecord}
    (isCall : r.opcode = .jumpsub) (isCall' : r'.opcode = .jumpsub) (inside : Nested inner)
    (inside' : Nested inner') (same : front ++ r :: inner = front' ++ r' :: inner') :
    front = front' := by
  have absurd_open : ∀ {a b : List StepRecord} {call : StepRecord}, call.opcode = .jumpsub →
      Nested (a ++ call :: b) → ¬ Nested b := by
    intro a b call isCall whole tail
    have closed := nested_replay whole []
    rw [List.foldl_append, List.foldl_cons, replay_call isCall, nested_replay tail] at closed
    exact absurd closed (by simp)
  -- If one front were longer, its call would lie among the nested records behind the other call.
  rcases List.append_eq_append_iff.mp same with ⟨gap, longer, rest⟩ | ⟨gap, longer, rest⟩
  · cases gap with
    | nil => simpa using longer.symm
    | cons first gap =>
      rw [List.cons_append] at rest
      obtain ⟨-, split⟩ := List.cons.inj rest
      rw [split] at inside
      exact absurd inside' (absurd_open isCall' inside)
  · cases gap with
    | nil => simpa using longer
    | cons first gap =>
      rw [List.cons_append] at rest
      obtain ⟨-, split⟩ := List.cons.inj rest
      rw [split] at inside'
      exact absurd inside (absurd_open isCall inside')

theorem split_at {rs : List StepRecord} {k : Nat} {r : StepRecord} (here : rs[k]? = some r) :
    rs = rs.take k ++ r :: rs.drop (k + 1) := by
  obtain ⟨inside, rfl⟩ := List.getElem?_eq_some_iff.mp here
  rw [← List.drop_eq_getElem_cons inside, List.take_append_drop]

theorem closing_call {rs : List StepRecord} {i : Nat} {r : StepRecord} (here : rs[i]? = some r)
    (isReturn : r.opcode = .returnsub)
    (covered : ∀ j r, j < i + 1 → rs[j]? = some r → r.opcode = .returnsub →
      replay (rs.take j) ≠ []) :
    ∃ j call, rs[j]? = some call ∧ Closes rs j i ∧ (∀ k, Closes rs k i → k = j) ∧
      replay (rs.take i) = replay (rs.take j) ++ [call.pc + 1] := by
  obtain ⟨calls, pending⟩ :=
    exists_pending (fun j r before => covered j r (Nat.lt_succ_of_lt before))
  have openCall := covered i r (Nat.lt_succ_self i) here isReturn
  obtain ⟨inside, -⟩ := List.getElem?_eq_some_iff.mp here
  generalize prior : rs.take i = earlier at pending openCall
  have length : earlier.length = i := by rw [← prior, List.length_take]; omega
  cases pending with
  | nested all => exact absurd (nested_replay all []) openCall
  | @call front inner outer call rest isCall nested =>
    rw [List.length_append, List.length_cons] at length
    have found : rs[front.length]? = some call := by
      rw [← List.getElem?_take_of_lt (show front.length < i by omega), prior]
      simp
    have outside : rs.take front.length = front := by
      rw [← Nat.min_eq_left (show front.length ≤ i by omega), ← List.take_take, prior]
      exact List.take_left
    refine ⟨front.length, call, found, ?_, ?_, ?_⟩
    · refine ⟨by omega, ⟨call, found, isCall⟩, ⟨r, here, isReturn⟩, ?_⟩
      rw [prior, List.append_cons, List.drop_left' (by simp)]
      exact nested
    · intro k closes
      obtain ⟨other, found', isCall'⟩ := closes.isCall
      have between := closes.between
      rw [← List.getElem?_take_of_lt closes.order] at found'
      have split := split_at found'
      rw [List.take_take, Nat.min_eq_left (Nat.le_of_lt closes.order)] at split
      rw [prior] at split between
      have same := innermost_call_unique isCall isCall' nested between split
      rw [same, List.length_take]
      have := closes.order
      omega
    · rw [outside, replay, List.foldl_append, List.foldl_cons, replay_call isCall,
        nested_replay nested]
      rfl

end Brackets

section Executions

variable {c : Context} {s t : State} {r : StepRecord} {gasLimit : Nat}

theorem sequential_keeps_calls {op : Opcode} (inSequence : op.isSequential = true) :
    op ≠ .jumpsub ∧ op ≠ .returnsub := by
  constructor
  · rintro rfl
    cases inSequence
  · rintro rfl
    cases inSequence

theorem replay_effect {result : Transition} (effect : Effect c s r.opcode result)
    (moved : result = .next t) (place : r.pc = s.pc) :
    t.returns.toList = r.replay s.returns.toList := by
  generalize charged : r.opcode = op at effect
  cases effect with
  | sequential inSequence =>
    cases moved
    obtain ⟨noCall, noReturn⟩ := sequential_keeps_calls (charged ▸ inSequence)
    rw [replay_plain noCall noReturn]
    rfl
  | jump | untaken | taken =>
    cases moved
    rw [replay_plain (by rw [charged]; decide) (by rw [charged]; decide)]
    rfl
  | call =>
    cases moved
    rw [replay_call charged, place]
    simp [Stack.toList]
  | back saved =>
    cases moved
    rw [replay_return charged]
    simp [Stack.toList, saved]
  | stop | strayJump | strayBranch | fetchedEntry | strayCall | deepCall | strayReturn =>
    cases moved

theorem replay_step (moved : step c s = .next t) (made : s.record? c = some r) :
    t.returns.toList = r.replay s.returns.toList := by
  obtain ⟨-, place, -⟩ := record?_eq_some_iff.mp made
  cases advance_of_next moved made with
  | landed landing entry =>
    rw [replay_plain (by rw [entry]; decide) (by rw [entry]; decide)]
    rfl
  | performed fetching fetched fits enough effect =>
    exact replay_effect (s := s.paid r.cost) effect rfl place

theorem record_returns (made : s.record? c = some r) : r.returns = s.returns := by
  obtain ⟨-, -, -, -, returns⟩ := record?_eq_some_iff.mp made
  exact returns

theorem replay_last {i : Nat} (here : (s.record? c).toList[i]? = some r) :
    r.returns.toList = ((s.record? c).toList.take i).foldl StepRecord.replay s.returns.toList := by
  cases made : s.record? c with
  | none => simp [made] at here
  | some only =>
    rw [made] at here
    cases i with
    | zero =>
      cases here
      rw [record_returns made]
      rfl
    | succ i => simp at here

theorem records_replay {i : Nat} (here : (records c s)[i]? = some r) :
    r.returns.toList = ((records c s).take i).foldl StepRecord.replay s.returns.toList := by
  induction s using execution_induction (c := c) generalizing i with
  | next s t moved ih =>
    obtain ⟨first, made⟩ := record?_of_next moved
    rw [records_next moved made] at here ⊢
    cases i with
    | zero =>
      cases here
      rw [record_returns made]
      rfl
    | succ i =>
      rw [List.getElem?_cons_succ] at here
      rw [List.take_succ_cons, List.foldl_cons, ← replay_step moved made]
      exact ih here
  | halted s t moved =>
    rw [records_halt moved] at here ⊢
    exact replay_last here
  | faulted s t cause moved =>
    rw [records_fault moved] at here ⊢
    exact replay_last here

theorem records_depth (safe : Safe c gasLimit s) (member : r ∈ records c s) :
    r.depth ≤ ReturnStack.limit := by
  obtain ⟨a, met, made⟩ := state_of_record member
  rw [StepRecord.depth, record_returns made]
  exact (safe_states safe a met).depth

theorem return_taken {i : Nat} {next : StepRecord} (here : (records c s)[i]? = some r)
    (isReturn : r.opcode = .returnsub) (behind : (records c s)[i + 1]? = some next) :
    r.returns.items = next.pc :: next.returns.items := by
  obtain ⟨a, -, b, moved, made, made'⟩ := records_neighbours here behind
  obtain ⟨-, place, -⟩ := record?_eq_some_iff.mp made'
  rw [record_returns made, record_returns made', place]
  cases advance_of_next moved made with
  | landed landing entry =>
    rw [entry] at isReturn
    cases isReturn
  | performed fetching fetched fits enough effect =>
    rw [isReturn] at effect
    cases effect with
    | sequential inSequence => cases inSequence
    | back saved => exact saved

theorem start_replay {i : Nat} (here : (records c (.start gasLimit))[i]? = some r) :
    r.returns.toList = replay ((records c (.start gasLimit)).take i) := records_replay here

theorem return_replay {i : Nat} {next : StepRecord}
    (here : (records c (.start gasLimit))[i]? = some r) (isReturn : r.opcode = .returnsub)
    (behind : (records c (.start gasLimit))[i + 1]? = some next) :
    replay ((records c (.start gasLimit)).take i) = next.returns.toList ++ [next.pc] := by
  rw [← start_replay here, Stack.toList, return_taken here isReturn behind, List.reverse_cons,
    Stack.toList]

theorem return_closes_call {i : Nat} {next : StepRecord}
    (here : (records c (.start gasLimit))[i]? = some r) (isReturn : r.opcode = .returnsub)
    (behind : (records c (.start gasLimit))[i + 1]? = some next) :
    ∃ j call, (records c (.start gasLimit))[j]? = some call ∧
      Closes (records c (.start gasLimit)) j i ∧
      (∀ k, Closes (records c (.start gasLimit)) k i → k = j) ∧
      next.pc = call.pc + 1 ∧ next.returns = call.returns := by
  obtain ⟨inside, -⟩ := List.getElem?_eq_some_iff.mp behind
  have covered : ∀ j r, j < i + 1 → (records c (.start gasLimit))[j]? = some r →
      r.opcode = .returnsub → replay ((records c (.start gasLimit)).take j) ≠ [] := by
    intro j r before found isReturn
    rw [return_replay found isReturn (List.getElem?_eq_getElem (by omega))]
    exact List.concat_ne_nil _ _
  obtain ⟨j, call, found, closes, unique, opened⟩ := closing_call here isReturn covered
  have addresses := (return_replay here isReturn behind).symm.trans opened
  obtain ⟨outer, address⟩ := List.append_inj' addresses rfl
  have same := outer.trans (start_replay found).symm
  refine ⟨j, call, found, closes, unique, ?_, ?_⟩
  · simpa using address
  · exact Stack.ext (List.reverse_inj.mp same)

end Executions

/-- The return stack that a record shows is what the calls and returns before it leave open, and a
    return goes back behind the call that it closes, with the return stack of that call. -/
theorem return_stack_is_call_history (code : Code) (config : Config) :
    (∀ i r, (stepRecords code config)[i]? = some r →
      r.returns.toList = replay ((stepRecords code config).take i) ∧
        r.depth = (replay ((stepRecords code config).take i)).length ∧ r.depth ≤ 1023 ∧
        (r.opcode = .returnsub → replay ((stepRecords code config).take i) = [] →
          i + 1 = (stepRecords code config).length)) ∧
    (∀ i r next, (stepRecords code config)[i]? = some r → r.opcode = .returnsub →
      (stepRecords code config)[i + 1]? = some next →
      ∃ j call, (stepRecords code config)[j]? = some call ∧
        Closes (stepRecords code config) j i ∧
        (∀ k, Closes (stepRecords code config) k i → k = j) ∧
        next.pc = call.pc + 1 ∧ next.returns = call.returns) := by
  obtain ⟨-, logged⟩ := runTraced_log code config
  rw [logged]
  constructor
  · intro i r here
    have replayed := start_replay here
    refine ⟨replayed, ?_, ?_, ?_⟩
    · rw [← replayed, StepRecord.depth, Stack.toList, List.length_reverse, r.returns.size_eq]
    · exact records_depth (safe_start _ _) (List.mem_of_getElem? here)
    · intro isReturn bare
      obtain ⟨inside, -⟩ := List.getElem?_eq_some_iff.mp here
      refine Nat.le_antisymm inside (Nat.le_of_not_lt ?_)
      intro more
      have opened := return_replay here isReturn (List.getElem?_eq_getElem more)
      exact List.concat_ne_nil _ _ (opened.symm.trans bare)
  · intro i r next here isReturn behind
    exact return_closes_call here isReturn behind

theorem inner_return_goes_back :
    let code := Code.ofBytes [0x60, 0x04, 0xb3, 0x00, 0xb2, 0x60, 0x09, 0xb3, 0xb7, 0xb2, 0xb7]
    let steps := stepRecords code ⟨28, 1024⟩
    ∃ r next, steps[6]? = some r ∧ steps[7]? = some next ∧
      r.returns.toList = replay (steps.take 6) ∧ ∃ j call, steps[j]? = some call ∧
        Closes steps j 6 ∧ next.pc = call.pc + 1 ∧ next.returns = call.returns := by
  intro code steps
  have here : steps[6]? = some ⟨10, .returnsub, 4, .empty, .ofItems [8, 3]⟩ := by decide +kernel
  have behind : steps[7]? = some ⟨8, .returnsub, 2, .empty, .ofItems [3]⟩ := by decide +kernel
  obtain ⟨history, returns⟩ := return_stack_is_call_history code ⟨28, 1024⟩
  obtain ⟨j, call, found, closes, -, back⟩ := returns 6 _ _ here rfl behind
  exact ⟨_, _, here, behind, (history 6 _ here).1, j, call, found, closes, back⟩

end SubroutineVM
