import SubroutineVM.Machine.Log
import SubroutineVM.Proofs.Machine.Calls
import SubroutineVM.Proofs.Machine.Observation

/-!
The log of an execution beside its trace. A landing is recorded and not logged, and it is recorded
directly behind the call that it belongs to, so that the trace shows what the log leaves out
(`entries_eq`). Main statement: `log_follows_trace`.
-/
namespace SubroutineVM

def StepRecord.LandsBehind (before? : Option StepRecord) (r : StepRecord) : Prop :=
  r.opcode = .beginsub ∧ before?.map StepRecord.opcode = some .jumpsub

instance (before? : Option StepRecord) (r : StepRecord) : Decidable (r.LandsBehind before?) :=
  inferInstanceAs (Decidable (_ ∧ _))

/-- The records that are not of landings, when `before?` is the record before the first. -/
def withoutLandings (before? : Option StepRecord) : List StepRecord → List StepRecord
  | [] => []
  | r :: rest =>
    if r.LandsBehind before? then withoutLandings (some r) rest
    else r :: withoutLandings (some r) rest

def StepRecord.entry (r : StepRecord) : LogEntry := .fetched r.pc r.opcode r.gas

def entries (c : Context) (s : State) : List LogEntry :=
  (states c s).filterMap (LogEntry.ofState? c)

/-- A state lands exactly if the record before it is that of a call. -/
def State.Succeeds (before? : Option StepRecord) (s : State) : Prop :=
  s.landing = true ↔ before?.map StepRecord.opcode = some .jumpsub

section Entries

variable {c : Context} {s t : State} {r : StepRecord} {before? : Option StepRecord}

theorem ofState?_landing (landing : s.landing = true) : LogEntry.ofState? c s = none := by
  rw [LogEntry.ofState?, if_pos landing]

theorem ofState?_fetching (fetching : s.landing = false) :
    LogEntry.ofState? c s = (s.record? c).map StepRecord.entry := by
  rw [LogEntry.ofState?, if_neg (by rw [fetching]; decide), State.record?,
    opcode?_fetching fetching, Option.map_map]
  rfl

theorem start_succeeds (gasLimit : Nat) : (State.start gasLimit).Succeeds none := by
  simp [State.Succeeds, State.start]

theorem landing_iff_call (moved : step c s = .next t) (made : s.record? c = some r) :
    t.landing = true ↔ r.opcode = .jumpsub := by
  constructor
  · exact landing_called moved made
  · intro call
    cases advance_of_next moved made with
    | landed _ entry => cases call.symm.trans entry
    | performed fetching fetched =>
      rw [call] at fetched
      obtain ⟨-, -, -, -, -, rfl⟩ := call_moved fetching fetched moved
      rfl

theorem next_succeeds (moved : step c s = .next t) (made : s.record? c = some r) :
    t.Succeeds (some r) := by
  rw [State.Succeeds, landing_iff_call moved made, Option.map_some, Option.some.injEq]

theorem fetching_of_unrecorded (unmade : s.record? c = none) : s.landing = false := by
  cases landing : s.landing with
  | false => rfl
  | true =>
    obtain ⟨r, made, -⟩ := record?_of_charged (c := c) (opcode?_landing landing)
    cases unmade.symm.trans made

theorem landsBehind_iff (succeeds : s.Succeeds before?) (made : s.record? c = some r) :
    r.LandsBehind before? ↔ s.landing = true := by
  obtain ⟨charged, -⟩ := record?_eq_some_iff.mp made
  constructor
  · rintro ⟨-, call⟩
    exact succeeds.mpr call
  · intro landing
    rw [opcode?_landing landing] at charged
    exact ⟨(Option.some.inj charged).symm, succeeds.mp landing⟩

theorem withoutLandings_cons (r : StepRecord) (rest : List StepRecord) :
    withoutLandings before? (r :: rest) =
      withoutLandings before? [r] ++ withoutLandings (some r) rest := by
  rw [withoutLandings, withoutLandings]
  split <;> rfl

theorem entry_of_state (succeeds : s.Succeeds before?) :
    (LogEntry.ofState? c s).toList =
      (withoutLandings before? (s.record? c).toList).map StepRecord.entry := by
  cases made : s.record? c with
  | none =>
    rw [ofState?_fetching (fetching_of_unrecorded made), made]
    rfl
  | some r =>
    rw [Option.toList_some, withoutLandings]
    cases landing : s.landing with
    | true =>
      rw [ofState?_landing landing, if_pos ((landsBehind_iff succeeds made).mpr landing)]
      rfl
    | false =>
      have kept : ¬ r.LandsBehind before? := by
        rw [landsBehind_iff succeeds made, landing]
        decide
      rw [ofState?_fetching landing, made, if_neg kept]
      rfl

theorem entries_first {us : List State} (met : states c s = s :: us) :
    entries c s = (LogEntry.ofState? c s).toList ++ us.filterMap (LogEntry.ofState? c) := by
  rw [entries, met]
  cases logged : LogEntry.ofState? c s with
  | none => rw [List.filterMap_cons_none logged]; rfl
  | some entry => rw [List.filterMap_cons_some logged]; rfl

theorem entries_eq (succeeds : s.Succeeds before?) :
    entries c s = (withoutLandings before? (records c s)).map StepRecord.entry := by
  -- The record before goes along, for it decides whether that of the state is left out.
  induction s using execution_induction (c := c) generalizing before? with
  | next s t moved ih =>
    obtain ⟨r, made⟩ := record?_of_next moved
    have later : (states c t).filterMap (LogEntry.ofState? c) = _ :=
      ih (next_succeeds moved made)
    rw [entries_first (states_next moved), later, entry_of_state succeeds, made,
      records_next moved made, withoutLandings_cons, List.map_append]
    rfl
  | halted s t moved =>
    rw [entries_first (states_halt moved), records_halt moved, entry_of_state succeeds]
    exact List.append_nil _
  | faulted s t cause moved =>
    rw [entries_first (states_fault moved), records_fault moved, entry_of_state succeeds]
    exact List.append_nil _

end Entries

theorem foldl_logger (c : Context) (us : List State) (lines : Array LogEntry) :
    us.foldl (fun lines u => logger.visit c u lines) lines =
      lines ++ (us.filterMap (LogEntry.ofState? c)).toArray := by
  rw [← List.foldl_push_eq_append', List.foldl_filterMap]
  congr 1
  funext lines u
  simp only [logger]
  cases LogEntry.ofState? c u <;> rfl

section Both

variable {σ τ : Type}

theorem foldl_both (a : Observer σ) (b : Observer τ) (c : Context) (us : List State)
    (seen : σ × τ) :
    us.foldl (fun seen u => (a.both b).visit c u seen) seen =
      (us.foldl (fun seen u => a.visit c u seen) seen.1,
        us.foldl (fun seen u => b.visit c u seen) seen.2) := by
  induction us generalizing seen with
  | nil => rfl
  | cons u us ih => rw [List.foldl_cons, ih]; rfl

theorem execute_both (code : Code) (config : Config) (a : Observer σ) (b : Observer τ)
    (seen : σ × τ) : ((Machine.new code config).execute (a.both b) seen).seen =
      (((Machine.new code config).execute a seen.1).seen,
        ((Machine.new code config).execute b seen.2).seen) := by
  simp only [execute_eq, foldl_both]
  rfl

end Both

theorem log_eq (code : Code) (config : Config) :
    let c : Context := ⟨code, config.stackLimit⟩
    ((Machine.new code config).execute logger #[]).seen.toList =
      (withoutLandings none (stepRecords code config)).map StepRecord.entry ++
        [.ofResult c (run code config)] := by
  intro c
  have recorded : stepRecords code config = records c (.start config.gasLimit) :=
    (runTraced_log code config).2
  have logged := entries_eq (c := c) (start_succeeds config.gasLimit)
  rw [execute_eq, run_eq, recorded, ← logged, entries]
  simp only [foldl_logger]
  simp [logger, c]

/-- The log of the first execution, whatever else observes it, has a line for each step record but
    those of a BEGINSUB directly behind a JUMPSUB, and one line more for the end. Later executions
    of the machine show an observer nothing. -/
theorem log_follows_trace {σ : Type} (code : Code) (config : Config) (beside : Observer σ)
    (seen : σ) (calls : List ObservedCall) :
    let first := (Machine.new code config).execute (logger.both beside) (#[], seen)
    let trace := (runTraced code config TraceLog.tracer .empty).2
    (∃ last, first.seen.1.toList =
        ((withoutLandings none trace.steps.toList).map fun r => .fetched r.pc r.opcode r.gas) ++
          [last] ∧
      (∀ outcome, first.result = .ok outcome → last = .halted outcome.pc outcome.gasUsed) ∧
      ∀ fault, first.result = .error fault →
        ∃ record, trace.abort? = some record ∧ last = .aborted record) ∧
    ∀ later ∈ first.machine.executions calls, later.2.seen = later.1.kept := by
  intro first trace
  have result : first.result = run code config :=
    (execute_result code config _ _).trans (run_eq code config).symm
  have finished : first.machine.result? = some first.result := by
    simp only [first, execute_eq]
  constructor
  · have logged := log_eq code config
    have seen : first.seen.1 = ((Machine.new code config).execute logger #[]).seen :=
      congrArg Prod.fst (execute_both code config logger beside (#[], seen))
    refine ⟨.ofResult ⟨code, config.stackLimit⟩ first.result, ?_, ?_, ?_⟩
    · rw [seen, logged, result]
      rfl
    · intro outcome succeeded
      rw [succeeded]
      rfl
    · intro fault aborted
      have kept : trace.abort? = abortRecord? ⟨code, config.stackLimit⟩ first.result := by
        simp only [trace, runTraced_log_eq, result, run_eq]
      rw [aborted] at kept ⊢
      exact ⟨_, kept, rfl⟩
  · intro later member
    rw [executions_finished finished] at member
    obtain ⟨call, -, rfl⟩ := List.mem_map.mp member
    rfl

theorem call_logged_without_landing :
    let code := Code.ofBytes [0x60, 0x04, 0xb3, 0x00, 0xb2, 0xb7]
    let paid := (Machine.new code ⟨14, 1024⟩).execute (logger.both .silent) (#[], ())
    let short := (Machine.new code ⟨11, 1024⟩).execute (logger.both .silent) (#[], ())
    paid.seen.1.toList = [.fetched 0 (.push 0) 14, .fetched 2 .jumpsub 11, .fetched 5 .returnsub 2,
        .fetched 3 .stop 0, .halted 3 14] ∧
      short.seen.1.toList = [.fetched 0 (.push 0) 11, .fetched 2 .jumpsub 8,
        .aborted ⟨4, some .beginsub, .outOfGas⟩] ∧
      (short.machine.execute logger #[]).seen = #[] := by
  intro code paid short
  have steps : (runTraced code ⟨14, 1024⟩ TraceLog.tracer .empty).2.steps.toList =
      [⟨0, .push 0, 14, .empty, .empty⟩, ⟨2, .jumpsub, 11, .ofItems [4], .empty⟩,
        ⟨4, .beginsub, 3, .empty, .ofItems [3]⟩, ⟨5, .returnsub, 2, .empty, .ofItems [3]⟩,
        ⟨3, .stop, 0, .empty, .empty⟩] := by decide +kernel
  have fewer : (runTraced code ⟨11, 1024⟩ TraceLog.tracer .empty).2.steps.toList =
      [⟨0, .push 0, 11, .empty, .empty⟩, ⟨2, .jumpsub, 8, .ofItems [4], .empty⟩,
        ⟨4, .beginsub, 0, .empty, .ofItems [3]⟩] := by decide +kernel
  have kept : (runTraced code ⟨11, 1024⟩ TraceLog.tracer .empty).2.abort? =
      some ⟨4, some .beginsub, .outOfGas⟩ := by decide +kernel
  have succeeded : paid.result = .ok ⟨14, .empty, 3⟩ := by
    rw [execute_result, Ending.result_eq_ok_iff]
    decide +kernel
  have aborted : short.result = .error ⟨4, .outOfGas⟩ := by
    rw [execute_result, Ending.result_eq_error_iff]
    decide +kernel
  obtain ⟨⟨last, lines, success, -⟩, -⟩ := log_follows_trace code ⟨14, 1024⟩ .silent () []
  obtain ⟨⟨last', lines', -, abort⟩, later⟩ :=
    log_follows_trace code ⟨11, 1024⟩ .silent () [⟨Array LogEntry, logger, #[]⟩]
  obtain rfl := success _ succeeded
  obtain ⟨record, found, rfl⟩ := abort _ aborted
  cases kept.symm.trans found
  refine ⟨?_, ?_, later _ List.mem_cons_self⟩
  · rw [lines, steps]
    decide +kernel
  · rw [lines', fewer]
    decide +kernel

end SubroutineVM
