import SubroutineVM.Proofs.Machine.Aborts
import SubroutineVM.Proofs.Machine.LastPush
import SubroutineVM.Proofs.Machine.Obstacles

/-!
Executions that have nothing to do with what is behind their code. An instruction looks behind the
code only if it goes there: to a destination, or to the end because its immediate is cut off. An
execution that halts before the end has come there never, and one that aborts only if it aborts on
the destination. Main statement: `run_local`.
-/
namespace SubroutineVM

/-- A result before the end of a code: on a STOP, or with an abort that is not due to a destination
    behind the code. -/
inductive Result.Within (size : Nat) : Result → Prop where
  | halted {outcome : Outcome} (inside : outcome.pc < size) : Within size (.ok outcome)
  | aborted {fault : Fault}
      (known : ∀ dest, fault.cause = .invalidJumpDestination dest → dest.toNat < size) :
      Within size (.error fault)

section Moves

variable {c : Context} {x : Code} {s : State} {op : Opcode}

theorem opcode?_followed (before : s.pc < c.code.size) :
    (c.followed x).code.opcode? s.pc = c.code.opcode? s.pc := by
  rw [Code.opcode?, Code.opcode?, Context.followed, Code.byte?_append_left before]

theorem record?_followed (before : s.pc < c.code.size) :
    s.record? (c.followed x) = s.record? c := by
  rw [State.record?, State.record?, State.opcode?, State.opcode?, opcode?_followed before]

theorem destination_followed (led : ∀ dest, s.destination? op = some dest →
    dest.toNat < c.code.size) : s.DestinationAgrees c (c.followed x) op := by
  intro dest asked
  have holds (mark : Opcode) :
      (c.followed x).code.holds dest.toNat mark = c.code.holds dest.toNat mark :=
    Code.holds_append_left (led dest asked)
  simp only [Code.isJumpTarget, Code.isJumpDestination, Code.isSubroutineEntry, holds, and_self]

theorem known_of_asked {dest : Word} (effect : Effect c (s.paid op.cost) op (step c s))
    (known : ∀ t dest, step c s = .fault t (.invalidJumpDestination dest) →
      dest.toNat < c.code.size)
    (asked : s.destination? op = some dest) : dest.toNat < c.code.size := by
  apply Classical.byContradiction
  intro outside
  have failed := Obstacle.strays_of_asked asked (fun admitted => outside admitted.1) effect
  cases moved : step c s with
  | fault t cause =>
    rw [moved] at failed
    simp only [Transition.fault?, Option.some.injEq, Fault.mk.injEq] at failed
    obtain ⟨-, rfl⟩ := failed
    exact outside (known t dest moved)
  | _ =>
    rw [moved] at failed
    cases failed

theorem step_paid_local (fetching : s.landing = false) (before : s.pc < c.code.size)
    (fetched : c.code.opcode? s.pc = some op) (fits : s.stackFault? c op = none)
    (enough : op.cost ≤ s.gas.remaining)
    (inside : ∀ t, step c s = .next t → t.pc < c.code.size)
    (known : ∀ t dest, step c s = .fault t (.invalidJumpDestination dest) →
      dest.toNat < c.code.size) : step (c.followed x) s = step c s := by
  have effect := step_performed fetching fetched fits enough
  have led : s.DestinationAgrees c (c.followed x) op := by
    apply destination_followed
    intro dest asked
    exact known_of_asked effect known asked
  have immediate (n : Fin 32) (push : op = .push n) :
      (c.followed x).code.immediate (s.pc + 1) (n + 1) = c.code.immediate (s.pc + 1) (n + 1) := by
    subst push
    have place := inside _ (step_push fetching fetched fits enough)
    simp only [State.goTo] at place
    exact Code.immediate_append_left (by omega)
  have alike := step_alike (c := c) (d := c.followed x) rfl fetching fetched
    ((opcode?_followed before).trans fetched) immediate led
  generalize step (c.followed x) s = there at alike ⊢
  generalize step c s = here at alike inside ⊢
  cases alike with
  | same => rfl
  | @apart t place =>
    have ahead := inside t rfl
    have unclipped : s.behind (c.followed x) op = t.pc := by
      rw [State.behind] at place ⊢
      rw [Context.followed, Code.size_append]
      omega
    rw [unclipped]

theorem step_local (before : s.pc < c.code.size)
    (inside : ∀ t, step c s = .next t → t.pc < c.code.size)
    (known : ∀ t dest, step c s = .fault t (.invalidJumpDestination dest) →
      dest.toNat < c.code.size) : step (c.followed x) s = step c s := by
  have bytes : (c.followed x).code.byte? s.pc = c.code.byte? s.pc := Code.byte?_append_left before
  generalize moved : step c s = result
  cases move_of moved with
  | landed landing enough => rw [step_landing landing, land_paid enough]
  | unpaidLanding landing short => rw [step_landing landing, land_unpaid short]
  | ended fetching none => exact step_ended fetching (bytes.trans none)
  | undefined fetching here unknown => exact step_undefined fetching (bytes.trans here) unknown
  | unsuited fetching fetched unfit =>
    rw [step_fetched fetching ((opcode?_followed before).trans fetched)]
    exact execute_unsuited unfit
  | unpaid fetching fetched fits short =>
    rw [step_fetched fetching ((opcode?_followed before).trans fetched)]
    exact execute_unpaid fits short
  | performed fetching fetched fits enough =>
    rw [← moved]
    exact step_paid_local fetching before fetched fits enough inside known

end Moves

section Executions

variable {c : Context} {x : Code} {gasLimit : Nat} {s t : State}

theorem before_of_within (safe : Safe c gasLimit s)
    (within : (ending c s).result.Within c.code.size) : s.pc < c.code.size := by
  apply Classical.byContradiction
  intro outside
  have ended := Nat.le_of_not_lt outside
  rw [ending_halt (step_at_end (safe.fetching_at_end ended) ended)] at within
  cases within with
  | halted inside => exact outside inside

theorem run_followed (safe : Safe c gasLimit s)
    (within : (ending c s).result.Within c.code.size) :
    ending (c.followed x) s = ending c s ∧ records (c.followed x) s = records c s := by
  induction s using execution_induction (c := c) with
  | next s t moved ih =>
    have safe' : Safe c gasLimit t := safe_move safe (move_of moved)
    have before := before_of_within safe within
    rw [ending_next moved] at within
    have moved' : step (c.followed x) s = .next t := by
      rw [← moved]
      refine step_local before ?_ ?_
      · intro u same
        cases moved.symm.trans same
        exact before_of_within safe' within
      · intro u dest same
        cases moved.symm.trans same
    obtain ⟨endings, rest⟩ := ih safe' within
    obtain ⟨r, made⟩ := record?_of_next moved
    constructor
    · rw [ending_next moved', endings, ending_next moved]
    · rw [records_next moved' ((record?_followed before).trans made), rest, records_next moved made]
  | halted s t moved =>
    have before := before_of_within safe within
    have moved' : step (c.followed x) s = .halt t := by
      rw [← moved]
      exact step_local before (by simp [moved]) (by simp [moved])
    rw [ending_halt moved', ending_halt moved, records_halt moved', records_halt moved,
      record?_followed before]
    exact ⟨rfl, rfl⟩
  | faulted s t cause moved =>
    have before := before_of_within safe within
    rw [ending_fault moved] at within
    have moved' : step (c.followed x) s = .fault t cause := by
      rw [← moved]
      refine step_local before (by simp [moved]) ?_
      intro u dest same
      cases moved.symm.trans same
      cases within with
      | aborted known => exact known dest rfl
    rw [ending_fault moved', ending_fault moved, records_fault moved', records_fault moved,
      record?_followed before]
    exact ⟨rfl, rfl⟩

theorem abortRecord?_followed (c : Context) (x : Code) (gasLimit : Nat) :
    abortRecord? (c.followed x) (ending c (.start gasLimit)).result =
      abortRecord? c (ending c (.start gasLimit)).result := by
  cases failed : (ending c (.start gasLimit)).result with
  | ok outcome => rfl
  | error fault =>
    obtain ⟨aborted, place⟩ := Ending.result_eq_error_iff.mp failed
    have inside := Code.marked_lt_size (ending_blamed aborted).1
    rw [place] at inside
    rw [abortRecord?, abortRecord?, AbortRecord.ofFault, AbortRecord.ofFault, Context.followed,
      Code.opcode?, Code.byte?_append_left inside, Code.opcode?]

end Executions

/-- A run that ends before the end of its code is the same run whatever is behind the code, and a
    tracer is handed the same records. -/
theorem run_local {σ : Type} (code rest : Code) (config : Config)
    (within : (run code config).Within code.size) (t : Tracer σ) (seen : σ) :
    run (code ++ rest) config = run code config ∧
      runTraced (code ++ rest) config t seen = runTraced code config t seen := by
  let c : Context := ⟨code, config.stackLimit⟩
  rw [run_eq] at within
  obtain ⟨endings, same⟩ := run_followed (x := rest) (safe_start c config.gasLimit) within
  have aborts := abortRecord?_followed c rest config.gasLimit
  rw [Context.followed] at endings same aborts
  have result : run (code ++ rest) config = run code config := by
    rw [run_eq, run_eq, endings]
  have log : (runTraced (code ++ rest) config TraceLog.tracer .empty).2 =
      (runTraced code config TraceLog.tracer .empty).2 := by
    rw [runTraced_log_eq, runTraced_log_eq, endings, same, aborts]
  refine ⟨result, ?_⟩
  rw [runTraced_eq, runTraced_eq code, result, log]

theorem stop_and_known_destination_before_appended_push :
    let call := Code.ofBytes [0x60, 0x04, 0xb3, 0x00, 0xb2, 0xb7]
    let stray := Code.ofBytes [0x60, 0x01, 0x56]
    let rest := Code.ofBytes [0x5b, 0x61]
    (run call ⟨20, 1024⟩).Within 6 ∧ run (call ++ rest) ⟨20, 1024⟩ = .ok ⟨14, .empty, 3⟩ ∧
      runTraced (call ++ rest) ⟨20, 1024⟩ TraceLog.tracer .empty =
        runTraced call ⟨20, 1024⟩ TraceLog.tracer .empty ∧
      (run stray ⟨11, 1024⟩).Within 3 ∧
      run (stray ++ rest) ⟨11, 1024⟩ = .error ⟨2, .invalidJumpDestination 1⟩ := by
  intro call stray rest
  have stopped : run call ⟨20, 1024⟩ = .ok ⟨14, .empty, 3⟩ := by
    rw [run_eq, Ending.result_eq_ok_iff]
    decide +kernel
  have strayed : run stray ⟨11, 1024⟩ = .error ⟨2, .invalidJumpDestination 1⟩ := by
    rw [run_eq, Ending.result_eq_error_iff]
    decide +kernel
  have halted : (run call ⟨20, 1024⟩).Within 6 := stopped ▸ .halted (by decide)
  have aborted : (run stray ⟨11, 1024⟩).Within 3 := by
    rw [strayed]
    refine .aborted ?_
    intro dest same
    cases same
    decide
  obtain ⟨result, traced⟩ := run_local call rest ⟨20, 1024⟩ halted TraceLog.tracer .empty
  obtain ⟨result', -⟩ := run_local stray rest ⟨11, 1024⟩ aborted TraceLog.tracer .empty
  exact ⟨halted, result.trans stopped, traced, aborted, result'.trans strayed⟩

end SubroutineVM
