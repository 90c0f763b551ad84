import SubroutineVM.Proofs.Code.Instructions
import SubroutineVM.Proofs.Machine.Observation
import SubroutineVM.Proofs.Machine.Safety
import SubroutineVM.Proofs.Machine.StackEffect

/-!
What an abort leaves behind. A move that aborts stays where it is, and what is there is to blame
(`fault_blamed`). It leaves both stacks as they were, but for the operands of a jump, which are
taken before the destination is looked at (`fault_leaves`). Main statement: `state_after_abort`.
-/
namespace SubroutineVM

/-- What an abort at a place is due to: an undefined byte, or an opcode that could not go on. -/
inductive Code.Blamed (c : Code) (place : Nat) : Cause → Prop where
  | undefined {byte : UInt8} (here : c.byte? place = some byte)
      (unknown : Opcode.ofByte? byte = none) : Blamed c place (.invalidOpcode byte)
  | opcode {op : Opcode} {cause : Cause} (fetched : c.opcode? place = some op)
      (other : ∀ byte, cause ≠ .invalidOpcode byte) : Blamed c place cause

/-- How many operands an instruction has taken off the data stack when it aborts. -/
def Cause.taken : Cause → Opcode → Nat
  | .invalidJumpDestination _, .jump => 1
  | .invalidJumpDestination _, .jumpi => 2
  | _, _ => 0

structure Cause.Leaves (cause : Cause) (op : Opcode) (before after : Stack Word) : Prop where
  size : before.size = after.size + cause.taken op
  items : after.items = before.items.drop (cause.taken op)

section Moves

variable {c : Context} {s t : State} {cause : Cause} {op : Opcode} {gasLimit : Nat}

theorem stackFault?_defined (unfit : s.stackFault? c op = some cause) (byte : UInt8) :
    cause ≠ .invalidOpcode byte := by
  rintro rfl
  rcases stackFault?_eq_some_iff.mp unfit with ⟨-, other⟩ | ⟨-, -, other⟩
  · cases other
  · cases other

theorem fault_blamed (safe : Safe c gasLimit s) (moved : step c s = .fault t cause) :
    t.pc = s.pc ∧ c.code.Blamed s.pc cause := by
  cases move_of moved with
  | unpaidLanding landing =>
    have entry := (Code.holds_iff.mp (safe.entry landing)).2
    exact ⟨rfl, .opcode entry (by simp)⟩
  | undefined _ here unknown => exact ⟨rfl, .undefined here unknown⟩
  | unsuited _ fetched unfit => exact ⟨rfl, .opcode fetched (stackFault?_defined unfit)⟩
  | unpaid _ fetched => exact ⟨rfl, .opcode fetched (by simp)⟩
  | performed _ fetched fits enough effect =>
    cases effect with
    | strayJump | strayBranch | fetchedEntry | strayCall | deepCall | strayReturn =>
      exact ⟨rfl, .opcode fetched (by simp)⟩

theorem Cause.Leaves.untouched {stack : Stack Word} (none : cause.taken op = 0) :
    cause.Leaves op stack stack where
  size := by omega
  items := by rw [none, List.drop_zero]

theorem Cause.Leaves.of_checked {stack : Stack Word} (unfit : s.stackFault? c op = some cause)
    (shown : Opcode) : cause.Leaves shown stack stack := by
  apply Leaves.untouched
  rcases stackFault?_eq_some_iff.mp unfit with ⟨-, rfl⟩ | ⟨-, -, rfl⟩
  · rfl
  · rfl

theorem fault_leaves (moved : step c s = .fault t cause) (charged : s.opcode? c = some op) :
    t.returns = s.returns ∧ cause.Leaves op s.stack t.stack := by
  cases move_of moved with
  | unpaidLanding | undefined | unpaid => exact ⟨rfl, .untouched rfl⟩
  | unsuited _ _ unfit => exact ⟨rfl, .of_checked unfit op⟩
  | performed fetching fetched fits enough effect =>
    cases fetched.symm.trans (fetched_of_charged charged fetching)
    -- A call looks at its destination before it takes it, a jump only afterwards.
    cases effect with
    | strayJump operand =>
      refine ⟨rfl, Stack.size_of_cons operand, ?_⟩
      simp only [State.paid] at operand
      rw [operand, Cause.taken, List.drop_succ_cons, List.drop_zero]
    | strayBranch operands =>
      refine ⟨rfl, Stack.size_of_cons_cons operands, ?_⟩
      simp only [State.paid] at operands
      rw [operands, Cause.taken, List.drop_succ_cons, List.drop_succ_cons, List.drop_zero]
    | fetchedEntry | strayCall | deepCall | strayReturn => exact ⟨rfl, .untouched rfl⟩

theorem recorded_of_fault (moved : step c s = .fault t cause)
    (defined : ∀ byte, cause ≠ .invalidOpcode byte) : ∃ r, s.record? c = some r := by
  have charged : ∃ op, s.opcode? c = some op := by
    cases move_of moved with
    | unpaidLanding landing => exact ⟨_, opcode?_landing landing⟩
    | undefined => exact absurd rfl (defined _)
    | unsuited fetching fetched | unpaid fetching fetched | performed fetching fetched =>
      exact ⟨_, (opcode?_fetching fetching).trans fetched⟩
  obtain ⟨op, charged⟩ := charged
  obtain ⟨r, made, -⟩ := record?_of_charged charged
  exact ⟨r, made⟩

end Moves

section Executions

variable {c : Context} {s u : State} {cause : Cause} {gasLimit : Nat}

theorem last_record {t : State} {r : StepRecord} (met : u ∈ states c s)
    (moved : step c u = .fault t cause) (made : u.record? c = some r) :
    (records c s).getLast? = some r := by
  obtain ⟨front, whole⟩ := records_of_met met
  rw [← whole, records_fault moved, made]
  exact List.getLast?_concat

theorem ending_blamed (aborted : (ending c (.start gasLimit)).cause? = some cause) :
    c.code.isOpcodeOffset (ending c (.start gasLimit)).state.pc = true ∧
      c.code.Blamed (ending c (.start gasLimit)).state.pc cause := by
  obtain ⟨u, met, t, moved, last⟩ := ending_faulted aborted
  have safe := safe_states (safe_start c gasLimit) u met
  obtain ⟨place, blamed⟩ := fault_blamed safe moved
  simp only [last, place]
  refine ⟨?_, blamed⟩
  cases blamed with
  | undefined here => exact safe.pc.marked_of_byte here
  | opcode fetched => exact safe.pc.marked fetched

theorem ending_recorded (aborted : (ending c (.start gasLimit)).cause? = some cause)
    (defined : ∀ byte, cause ≠ .invalidOpcode byte) :
    ∃ r, (records c (.start gasLimit)).getLast? = some r ∧
      r.pc = (ending c (.start gasLimit)).state.pc ∧ c.code.opcode? r.pc = some r.opcode ∧
      (ending c (.start gasLimit)).state.returns = r.returns ∧
      cause.Leaves r.opcode r.stack (ending c (.start gasLimit)).state.stack := by
  obtain ⟨u, met, t, moved, last⟩ := ending_faulted aborted
  have safe := safe_states (safe_start c gasLimit) u met
  obtain ⟨place, -⟩ := fault_blamed safe moved
  obtain ⟨r, made⟩ := recorded_of_fault moved defined
  obtain ⟨charged, pc, -, stack, returns⟩ := record?_eq_some_iff.mp made
  obtain ⟨kept, leaves⟩ := fault_leaves moved charged
  refine ⟨r, last_record met moved made, ?_, (Code.holds_iff.mp (safe.holds_record made)).2, ?_, ?_⟩
  · rw [last, pc, place]
  · rw [last, returns, kept]
  · rw [last, stack]
    exact leaves

end Executions

section Names

variable {code : Code} {place : Nat} {cause : Cause}

theorem Code.Blamed.exists_byte (blamed : code.Blamed place cause) :
    ∃ byte, code.byte? place = some byte := by
  cases blamed with
  | undefined here => exact ⟨_, here⟩
  | opcode fetched => exact ⟨_, Code.opcode?_eq_some_iff.mp fetched⟩

theorem Code.Blamed.name_iff (blamed : code.Blamed place cause) :
    Opcode.name? (code.opcode? place) = Opcode.undefinedName ↔
      ∃ byte, cause = .invalidOpcode byte := by
  cases blamed with
  | undefined here unknown =>
    rw [Code.opcode?, here, Option.bind_some, unknown]
    exact ⟨fun _ => ⟨_, rfl⟩, fun _ => rfl⟩
  | @opcode op _ fetched other =>
    rw [fetched]
    constructor
    · intro same
      exact absurd same op.mnemonic_ne_undefinedName
    · rintro ⟨byte, rfl⟩
      exact absurd rfl (other byte)

end Names

/-- An aborted execution leaves a finished machine without gas at the place of the fault. Its tracer
    is given the step records and then one abort record, which names the cause and the byte at that
    place. Unless this byte is undefined, the last step record is that of the instruction that
    failed: it shows the return stack that is left, and the data stack but for the operands of a
    JUMP or a JUMPI to a wrong destination, which are gone. -/
theorem state_after_abort {σ : Type} (code : Code) (config : Config) (t : Tracer σ) (seen : σ)
    (fault : Fault) (aborted : run code config = .error fault) :
    let e := (Machine.new code config).execute t.observer seen
    let steps := stepRecords code config
    let record : AbortRecord := .ofFault ⟨code, config.stackLimit⟩ fault
    e.result = .error fault ∧ e.machine.isFinished = true ∧
    e.machine.state.gas.remaining = 0 ∧ e.machine.state.pc = fault.pc ∧
    e.seen = t.abort record (steps.foldl t.receive seen) ∧
    record.pc = fault.pc ∧ record.error = fault.cause.message ∧
    (∃ byte, code.byte? fault.pc = some byte ∧
      record.op = Opcode.name? (Opcode.ofByte? byte)) ∧
    (record.op = Opcode.undefinedName ↔ ∃ byte, fault.cause = .invalidOpcode byte) ∧
    ((∀ byte, fault.cause ≠ .invalidOpcode byte) → ∃ last, steps.getLast? = some last ∧
      last.pc = fault.pc ∧ last.opcode.mnemonic = record.op ∧
      e.machine.state.returns = last.returns ∧
      fault.cause.Leaves last.opcode last.stack e.machine.state.stack) := by
  intro e steps record
  have logged : steps = records ⟨code, config.stackLimit⟩ (.start config.gasLimit) :=
    (runTraced_log code config).2
  rw [run_eq] at aborted
  have received : e.seen = t.read (runTraced code config TraceLog.tracer .empty).2 seen :=
    congrArg Prod.snd (runTraced_eq code config t seen)
  have result : e.result = .error fault := (execute_result code config _ _).trans aborted
  have finished : e.machine.isFinished = true := by
    simp only [e, execute_eq, Machine.isFinished, Option.isSome_some]
  have state : e.machine.state =
      (ending ⟨code, config.stackLimit⟩ (.start config.gasLimit)).settle :=
    execute_state code config _ _
  obtain ⟨cause, place⟩ := Ending.result_eq_error_iff.mp aborted
  obtain ⟨-, blamed⟩ := ending_blamed cause
  rw [Ending.settle_aborted cause] at state
  rw [state, logged]
  rw [place] at blamed
  refine ⟨result, finished, rfl, place, ?_, rfl, rfl, ?_, blamed.name_iff, ?_⟩
  · rw [received, runTraced_log_eq, aborted]
    rfl
  · obtain ⟨byte, here⟩ := blamed.exists_byte
    refine ⟨byte, here, ?_⟩
    simp only [record, AbortRecord.op, AbortRecord.ofFault, Code.opcode?, here, Option.bind_some]
  · intro defined
    obtain ⟨last, shown, pc, fetched, returns, leaves⟩ := ending_recorded cause defined
    refine ⟨last, shown, pc.trans place, ?_, returns, leaves⟩
    rw [pc, place] at fetched
    simp only [record, AbortRecord.op, AbortRecord.ofFault, fetched, Opcode.name?]

theorem state_after_stray_branch_and_unpaid_landing :
    let branch := Code.ofBytes [0x60, 0x01, 0x60, 0x03, 0x57]
    let call := Code.ofBytes [0x60, 0x04, 0xb3, 0x00, 0xb2, 0xb7]
    let strayed := (Machine.new branch ⟨100, 1024⟩).execute TraceLog.tracer.observer .empty
    let unpaid := (Machine.new call ⟨11, 1024⟩).execute TraceLog.tracer.observer .empty
    run branch ⟨100, 1024⟩ = .error ⟨4, .invalidJumpDestination 3⟩ ∧
      strayed.machine.state.pc = 4 ∧ strayed.machine.state.stack.items = [3, 1].drop 2 ∧
      run call ⟨11, 1024⟩ = .error ⟨4, .outOfGas⟩ ∧
      unpaid.machine.state.gas.remaining = 0 ∧ unpaid.machine.state.returns = .ofItems [3] := by
  intro branch call strayed unpaid
  have failed : run branch ⟨100, 1024⟩ = .error ⟨4, .invalidJumpDestination 3⟩ := by
    rw [run_eq, Ending.result_eq_error_iff]
    decide +kernel
  have failed' : run call ⟨11, 1024⟩ = .error ⟨4, .outOfGas⟩ := by
    rw [run_eq, Ending.result_eq_error_iff]
    decide +kernel
  have shown : (stepRecords branch ⟨100, 1024⟩).getLast? =
      some ⟨4, .jumpi, 94, .ofItems [3, 1], .empty⟩ := by decide +kernel
  have shown' : (stepRecords call ⟨11, 1024⟩).getLast? =
      some ⟨4, .beginsub, 0, .empty, .ofItems [3]⟩ := by decide +kernel
  obtain ⟨-, -, -, pc, -, -, -, -, -, left⟩ :=
    state_after_abort branch ⟨100, 1024⟩ TraceLog.tracer .empty _ failed
  obtain ⟨-, -, gas, -, -, -, -, -, -, left'⟩ :=
    state_after_abort call ⟨11, 1024⟩ TraceLog.tracer .empty _ failed'
  obtain ⟨last, same, -, -, -, leaves⟩ := left (by simp)
  cases shown.symm.trans same
  obtain ⟨last', same', -, -, returns, -⟩ := left' (by simp)
  cases shown'.symm.trans same'
  exact ⟨failed, pc, leaves.items, failed', gas, returns⟩

end SubroutineVM
