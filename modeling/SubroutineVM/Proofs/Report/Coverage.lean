import SubroutineVM.Proofs.Machine.Aborts
import SubroutineVM.Proofs.Machine.Calls
import SubroutineVM.Proofs.Report.Contents

/-!
The report on a code covers its executions. Each marked byte has a row, and an execution keeps to
marked bytes, so that its records and its abort are at rows. Its jumps and calls land at listed
offsets, and an undefined byte that it meets is reported. Main statement:
`report_covers_execution`.
-/
namespace SubroutineVM

def Report.Lists (report : Report) (offset : Nat) (op : String) : Prop :=
  ∃ row ∈ report.instructions, row.offset = offset ∧ row.op = op

def StepRecord.IsTakenJump (r : StepRecord) : Prop :=
  r.opcode = .jump ∨
    r.opcode = .jumpi ∧ ∃ condition, r.stack.peek? 1 = some condition ∧ condition ≠ 0

section Rows

variable {code : Code} {place : Nat} {byte : UInt8} {op : Opcode}

theorem row_at (marked : code.isOpcodeOffset place = true) (here : code.byte? place = some byte) :
    (analyze code).Lists place (Opcode.name? (code.opcode? place)) := by
  obtain ⟨i, member, rfl, rfl⟩ := Code.instruction_at marked here
  refine ⟨.ofInstruction i, List.mem_map_of_mem member, rfl, ?_⟩
  rw [Code.opcode?, here]
  rfl

theorem row_of_opcode (held : code.holds place op = true) :
    (analyze code).Lists place op.mnemonic := by
  obtain ⟨marked, fetched⟩ := Code.holds_iff.mp held
  have row := row_at marked (Code.opcode?_eq_some_iff.mp fetched)
  rwa [fetched] at row

theorem entry_listed (entry : code.isSubroutineEntry place = true) :
    place ∈ (analyze code).subroutineEntries := mem_offsetsOf_iff.mpr entry

theorem target_listed (target : code.isJumpTarget place = true) :
    place ∈ (analyze code).jumpDestinations ∨ place ∈ (analyze code).subroutineEntries := by
  rw [Code.isJumpTarget, Bool.or_eq_true] at target
  exact target.imp mem_offsetsOf_iff.mpr entry_listed

end Rows

section Moves

variable {c : Context} {s t : State} {r : StepRecord} {gasLimit : Nat} {cause : Cause}

theorem not_takenJump {op : Opcode} (shown : r.opcode = op) (noJump : op ≠ .jump)
    (noBranch : op ≠ .jumpi) : ¬ r.IsTakenJump := by
  rintro (jump | ⟨branch, -⟩)
  · exact noJump (shown.symm.trans jump)
  · exact noBranch (shown.symm.trans branch)

theorem jump_moved (jumps : r.IsTakenJump) (moved : step c s = .next t)
    (made : s.record? c = some r) : ∃ dest, r.stack.peek? 0 = some dest ∧ t.pc = dest.toNat ∧
      t.landing = false ∧ c.code.isJumpTarget dest.toNat = true := by
  obtain ⟨-, -, -, shown, -⟩ := record?_eq_some_iff.mp made
  cases advance_of_next moved made with
  | landed _ entry => exact absurd jumps (not_takenJump entry (by decide) (by decide))
  | performed fetching fetched fits enough effect =>
    rw [StepRecord.IsTakenJump, shown] at jumps
    rw [shown]
    rcases jumps with jump | ⟨branch, condition, read, nonzero⟩
    · rw [jump] at effect
      cases effect with
      | sequential inSequence => cases inSequence
      | jump operand target =>
        exact ⟨_, Stack.peek?_top operand, rfl, fetching, target⟩
    · rw [branch] at effect
      cases effect with
      | sequential inSequence => cases inSequence
      | untaken operands =>
        have zero := Option.some.inj (read.symm.trans (Stack.peek?_second operands))
        exact absurd zero nonzero
      | taken operands _ target =>
        exact ⟨_, Stack.peek?_top operands, rfl, fetching, target⟩

theorem halted_at_stop (moved : step c s = .halt t) (made : s.record? c = some r) :
    r.opcode = .stop := by
  obtain ⟨charged, -⟩ := record?_eq_some_iff.mp made
  cases move_of moved with
  | ended fetching none =>
    have fetched := fetched_of_charged charged fetching
    rw [Code.opcode?, none] at fetched
    cases fetched
  | performed fetching fetched fits enough effect =>
    have fetched' := fetched_of_charged charged fetching
    cases effect with
    | stop => exact Option.some.inj (fetched'.symm.trans fetched)

theorem record?_of_target (fetching : s.landing = false)
    (target : c.code.isJumpTarget s.pc = true) : ∃ r, s.record? c = some r ∧ r.pc = s.pc := by
  obtain ⟨-, destination | entry⟩ := Code.isJumpTarget_iff.mp target
  · exact record?_of_charged ((opcode?_fetching fetching).trans destination)
  · exact record?_of_charged ((opcode?_fetching fetching).trans entry)

end Moves

section Records

variable {c : Context} {r : StepRecord} {gasLimit : Nat}

theorem record_row (member : r ∈ records c (.start gasLimit)) :
    (analyze c.code).Lists r.pc r.opcode.mnemonic :=
  row_of_opcode (record_held member)

theorem abort_row {code : Code} {config : Config} {r : AbortRecord}
    (kept : (runTraced code config TraceLog.tracer .empty).2.abort? = some r) :
    (analyze code).Lists r.pc r.op ∧
      (r.op = Opcode.undefinedName ↔ ∃ byte, r.cause = .invalidOpcode byte) := by
  rw [runTraced_log_eq] at kept
  cases result : (ending ⟨code, config.stackLimit⟩ (.start config.gasLimit)).result with
  | ok outcome =>
    rw [result] at kept
    cases kept
  | error f =>
    rw [result] at kept
    cases kept
    obtain ⟨cause, place⟩ := Ending.result_eq_error_iff.mp result
    obtain ⟨marked, blamed⟩ := ending_blamed cause
    rw [place] at marked blamed
    obtain ⟨byte, here⟩ := Code.byte?_of_marked marked
    exact ⟨row_at marked here, blamed.name_iff⟩

theorem abort_reported {code : Code} {config : Config} {place : Nat} {byte : UInt8}
    (aborted : run code config = .error ⟨place, .invalidOpcode byte⟩) :
    .undefinedOpcode place byte ∈ (analyze code).issues := by
  rw [run_eq, Ending.result_eq_error_iff] at aborted
  obtain ⟨cause, rfl⟩ := aborted
  obtain ⟨marked, blamed⟩ := ending_blamed cause
  cases blamed with
  | undefined here unknown => exact undefined_mem_iff.mpr ⟨marked, here, unknown⟩
  | opcode fetched other => exact absurd rfl (other byte)

theorem jump_record {i : Nat} (here : (records c (.start gasLimit))[i]? = some r)
    (jumps : r.IsTakenJump) :
    ((∃ cause, (ending c (.start gasLimit)).cause? = some cause) ∧
      (ending c (.start gasLimit)).state.pc = r.pc ∧
      i + 1 = (records c (.start gasLimit)).length) ∨
    ∃ dest next, r.stack.peek? 0 = some dest ∧
      (records c (.start gasLimit))[i + 1]? = some next ∧ next.pc = dest.toNat ∧
      c.code.isJumpTarget dest.toNat = true := by
  obtain ⟨a, met, made, rest⟩ := record_met here
  obtain ⟨-, place, -⟩ := record?_eq_some_iff.mp made
  cases moved : step c a with
  | next b =>
    right
    obtain ⟨dest, read, arrived, fetching, target⟩ := jump_moved jumps moved made
    obtain ⟨next, made', place'⟩ := record?_of_target fetching (arrived ▸ target)
    refine ⟨dest, next, read, ?_, place'.trans arrived, target⟩
    rw [← List.getElem?_drop, rest, records_next moved made, List.getElem?_cons_succ,
      ← List.head?_eq_getElem?, records_head?, made']
  | halt t =>
    have stop := halted_at_stop moved made
    exact absurd jumps (not_takenJump stop (by decide) (by decide))
  | fault t cause =>
    left
    obtain ⟨same, -⟩ := fault_blamed (safe_states (safe_start c gasLimit) a met) moved
    rw [← ending_of_met met, ending_fault moved]
    exact ⟨⟨cause, rfl⟩, same.trans place.symm, last_of_fault rest made moved⟩

end Records

/-- All that an execution shows is in the report: the instructions it records and the one it aborts
    at, the offsets that its jumps and calls lead to, and an undefined byte it meets. -/
theorem report_covers_execution (code : Code) (config : Config) :
    let report := analyze code
    let steps := stepRecords code config
    (∀ r ∈ steps, report.Lists r.pc r.opcode.mnemonic) ∧
    (∀ r, (runTraced code config TraceLog.tracer .empty).2.abort? = some r →
      report.Lists r.pc r.op ∧
        (r.op = Opcode.undefinedName ↔ ∃ byte, r.cause = .invalidOpcode byte)) ∧
    (∀ i r, steps[i]? = some r → r.IsTakenJump →
      ((∃ cause, run code config = .error ⟨r.pc, cause⟩) ∧ i + 1 = steps.length) ∨
      ∃ dest next, r.stack.peek? 0 = some dest ∧ steps[i + 1]? = some next ∧
        next.pc = dest.toNat ∧
        (next.pc ∈ report.jumpDestinations ∨ next.pc ∈ report.subroutineEntries)) ∧
    (∀ i r next, steps[i]? = some r → r.opcode = .jumpsub → steps[i + 1]? = some next →
      next.opcode = .beginsub ∧ next.pc ∈ report.subroutineEntries ∧
        ∃ dest, r.stack.peek? 0 = some dest ∧ dest.toNat = next.pc) ∧
    (∀ place byte, run code config = .error ⟨place, .invalidOpcode byte⟩ →
      .undefinedOpcode place byte ∈ report.issues) ∧
    ((∀ place byte, .undefinedOpcode place byte ∉ report.issues) →
      ∀ place byte, run code config ≠ .error ⟨place, .invalidOpcode byte⟩) := by
  intro report steps
  have logged : steps = records ⟨code, config.stackLimit⟩ (.start config.gasLimit) :=
    (runTraced_log code config).2
  rw [logged]
  refine ⟨fun _ => record_row, fun _ => abort_row, ?_, ?_, fun _ _ => abort_reported, ?_⟩
  · intro i r here jumps
    rw [run_eq]
    rcases jump_record here jumps with
      ⟨⟨cause, aborted⟩, place, last⟩ | ⟨dest, next, read, found, arrived, target⟩
    · exact .inl ⟨⟨cause, Ending.result_eq_error_iff.mpr ⟨aborted, place⟩⟩, last⟩
    · exact .inr ⟨dest, next, read, found, arrived, arrived ▸ target_listed target⟩
  · intro i r next here call behind
    obtain ⟨entry, valid, ⟨dest, operand, arrived⟩, -⟩ := call_record here call behind
    exact ⟨entry, entry_listed valid, dest, Stack.peek?_top operand, arrived⟩
  · intro clean place byte aborted
    exact clean place byte (abort_reported aborted)

theorem jump_call_and_abort_covered :
    let code := Code.ofBytes [0x60, 0x05, 0x56, 0xb2, 0xb7, 0x5b, 0x60, 0x03, 0xb3, 0x0c]
    let report := analyze code
    report.Lists 8 "JUMPSUB" ∧ report.Lists 9 "INVALID" ∧
      (5 ∈ report.jumpDestinations ∨ 5 ∈ report.subroutineEntries) ∧
      3 ∈ report.subroutineEntries ∧ .undefinedOpcode 9 0x0c ∈ report.issues ∧
      ∀ place byte, run (.ofBytes [0x5b]) ⟨1, 1024⟩ ≠ .error ⟨place, .invalidOpcode byte⟩ := by
  intro code report
  have jump : (stepRecords code ⟨26, 1024⟩)[1]? = some ⟨2, .jump, 23, .ofItems [5], .empty⟩ := by
    decide +kernel
  have landed : (stepRecords code ⟨26, 1024⟩)[2]? = some ⟨5, .jumpdest, 15, .empty, .empty⟩ := by
    decide +kernel
  have call : (stepRecords code ⟨26, 1024⟩)[4]? =
      some ⟨8, .jumpsub, 11, .ofItems [3], .empty⟩ := by decide +kernel
  have entered : (stepRecords code ⟨26, 1024⟩)[5]? =
      some ⟨3, .beginsub, 3, .empty, .ofItems [9]⟩ := by decide +kernel
  have count : (stepRecords code ⟨26, 1024⟩).length = 7 := by decide +kernel
  have aborted : run code ⟨26, 1024⟩ = .error ⟨9, .invalidOpcode 0x0c⟩ := by
    rw [run_eq, Ending.result_eq_error_iff]
    decide +kernel
  have kept : (runTraced code ⟨26, 1024⟩ TraceLog.tracer .empty).2.abort? =
      some ⟨9, none, .invalidOpcode 0x0c⟩ := by decide +kernel
  have clean : (analyze (.ofBytes [0x5b])).issues = [] := by decide +kernel
  obtain ⟨rows, abort, jumps, calls, undefined, -⟩ := report_covers_execution code ⟨26, 1024⟩
  refine ⟨rows _ (List.mem_of_getElem? call), (abort _ kept).1, ?_,
    (calls 4 _ _ call rfl entered).2.1, undefined 9 _ aborted, ?_⟩
  · rcases jumps 1 _ jump (.inl rfl) with ⟨-, last⟩ | ⟨dest, next, -, found, -, listed⟩
    · rw [count] at last
      cases last
    · cases landed.symm.trans found
      exact listed
  · refine (report_covers_execution (.ofBytes [0x5b]) ⟨1, 1024⟩).2.2.2.2.2 ?_
    intro place byte found
    rw [clean] at found
    cases found

end SubroutineVM
