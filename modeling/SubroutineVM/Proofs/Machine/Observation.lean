import SubroutineVM.Proofs.Machine.History

/-!
What an observer is shown, and that it changes nothing. A tracer is handed the records of the
log, whatever it makes of them (`runTraced_eq`), and a finished machine shows nothing to anyone
(`executions_finished`). Main statement: `observers_change_nothing`.
-/
namespace SubroutineVM

def Tracer.receive {σ : Type} (t : Tracer σ) (seen : σ) (r : StepRecord) : σ :=
  if t.enabled seen then t.step r seen else seen

def Tracer.read {σ : Type} (t : Tracer σ) (log : TraceLog) (seen : σ) : σ :=
  log.abort?.toList.foldl (fun seen r => t.abort r seen) (log.steps.toList.foldl t.receive seen)

def abortRecord? (c : Context) : Result → Option AbortRecord
  | .ok _ => none
  | .error f => some (.ofFault c f)

structure ObservedCall where
  Kept : Type
  observer : Observer Kept
  kept : Kept

def Machine.executions (m : Machine) :
    List ObservedCall → List (Σ call : ObservedCall, Execution call.Kept)
  | [] => []
  | call :: calls =>
    let e := m.execute call.observer call.kept
    ⟨call, e⟩ :: e.machine.executions calls

section Tracers

variable {σ : Type}

theorem foldl_visit (t : Tracer σ) (c : Context) (us : List State) (seen : σ) :
    us.foldl (fun seen u => t.observer.visit c u seen) seen =
      (us.filterMap (State.record? c)).foldl t.receive seen := by
  induction us generalizing seen with
  | nil => rfl
  | cons u us ih =>
    rw [List.foldl_cons, ih]
    cases made : u.record? c with
    | none =>
      rw [List.filterMap_cons_none made]
      simp [Tracer.observer, made]
    | some r =>
      rw [List.filterMap_cons_some made, List.foldl_cons, Tracer.receive]
      simp [Tracer.observer, made]

theorem finish_eq (t : Tracer σ) (c : Context) (result : Result) (seen : σ) :
    t.observer.finish c result seen =
      (abortRecord? c result).toList.foldl (fun seen r => t.abort r seen) seen := by
  cases result with
  | ok outcome => rfl
  | error f => rfl

theorem runTraced_log_eq (code : Code) (config : Config) :
    let c : Context := ⟨code, config.stackLimit⟩
    let s := State.start config.gasLimit
    (runTraced code config TraceLog.tracer .empty).2 =
      ⟨(records c s).toArray, abortRecord? c (ending c s).result⟩ := by
  intro c s
  rw [runTraced, execute_eq]
  simp only [foldl_log, finish_eq]
  cases (ending c s).result with
  | ok outcome => simp [abortRecord?, TraceLog.empty, records, c, s]
  | error f => simp [abortRecord?, TraceLog.empty, TraceLog.tracer, records, c, s]

/-- What a tracer keeps is what it makes of the log, so that nothing it does with a record has a
    part in the records behind it. -/
theorem runTraced_eq (code : Code) (config : Config) (t : Tracer σ) (seen : σ) :
    runTraced code config t seen =
      (run code config, t.read (runTraced code config TraceLog.tracer .empty).2 seen) := by
  rw [runTraced_log_eq, run_eq, runTraced, execute_eq, Tracer.read]
  simp only [foldl_visit, finish_eq, records]

end Tracers

section Finished

variable {m : Machine} {result : Result}

theorem execute_finished {σ : Type} (finished : m.result? = some result) (observer : Observer σ)
    (seen : σ) : m.execute observer seen = ⟨result, m, seen⟩ := by
  rw [Machine.execute, finished]

theorem executions_finished (finished : m.result? = some result) (calls : List ObservedCall) :
    m.executions calls = calls.map fun call => ⟨call, result, m, call.kept⟩ := by
  induction calls with
  | nil => rfl
  | cons call calls ih =>
    rw [Machine.executions, execute_finished finished, List.map_cons]
    exact congrArg _ ih

end Finished

/-- Two observers, or a tracer and none, see executions with one result that leave one machine. This
    machine is finished: each later call returns the first result, leaves the machine as it is and
    gives its observer nothing. -/
theorem observers_change_nothing {σ τ ρ : Type} (code : Code) (config : Config)
    (a : Observer σ) (seen : σ) (b : Observer τ) (other : τ) (t : Tracer ρ) (kept : ρ)
    (calls : List ObservedCall) :
    let first := (Machine.new code config).execute a seen
    let second := (Machine.new code config).execute b other
    first.result = second.result ∧ first.machine = second.machine ∧
      (runTraced code config t kept).1 = run code config ∧
      first.machine.isFinished = true ∧
      first.machine.executions calls =
        calls.map fun call => ⟨call, first.result, first.machine, call.kept⟩ := by
  intro first second
  have result : first.result = second.result :=
    (execute_result code config a seen).trans (execute_result code config b other).symm
  have machine : first.machine = second.machine := by
    simp only [first, second, execute_eq]
  have finished : first.machine.result? = some first.result := by
    simp only [first, execute_eq]
  refine ⟨result, machine, ?_, ?_, executions_finished finished calls⟩
  · rw [runTraced_eq]
  · rw [Machine.isFinished, finished]
    rfl

end SubroutineVM
