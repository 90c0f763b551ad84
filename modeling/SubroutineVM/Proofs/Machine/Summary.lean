import SubroutineVM.Proofs.Code.Instructions
import SubroutineVM.Proofs.Machine.Observation

/-!
A receiver of bounded size. Each step record changes the figures of a summary by its own
(`figures_add`), so that the figures at the end are those of the whole log. Main statement:
`summary_of_log`.
-/
namespace SubroutineVM

namespace TraceSummary

/-- The summary has the figures of these records, the abort apart. -/
structure Figures (rs : List StepRecord) (t : TraceSummary) : Prop where
  counts : ∀ op : Opcode, t.counts[op.toByte.toNat]? = some (rs.countP (·.opcode = op))
  steps : t.steps = rs.length
  totalCost : t.totalCost = rs.foldl (fun total r => total + r.cost) 0
  maxReturnDepth : t.maxReturnDepth = rs.foldl (fun most r => max most r.depth) 0
  maxStack : t.maxStack = rs.foldl (fun most r => max most r.stack.size) 0
  recent : t.recent = (rs.reverse.map fun r => (r.pc, r.opcode)).take window

variable {rs front : List StepRecord} {t : TraceSummary}

theorem figures_empty : Figures [] empty where
  counts op := by
    have byte := op.toByte.toNat_lt
    simp only [empty, Array.getElem?_replicate, if_pos byte]
    rfl
  steps := rfl
  totalCost := rfl
  maxReturnDepth := rfl
  maxStack := rfl
  recent := rfl

theorem figures_add (figures : Figures rs t) (r : StepRecord) : Figures (rs ++ [r]) (t.add r) where
  counts op := by
    rw [List.countP_append, List.countP_singleton, add, Array.getElem?_modify, figures.counts]
    by_cases same : r.opcode = op
    · simp [same]
    · have other : ¬ r.opcode.toByte.toNat = op.toByte.toNat := by
        rwa [UInt8.toNat_inj, Opcode.toByte_inj]
      simp [same, other]
  steps := by simp [add, figures.steps]
  totalCost := by
    rw [add, figures.totalCost, List.foldl_append]
    rfl
  maxReturnDepth := by
    rw [add, figures.maxReturnDepth, List.foldl_append]
    rfl
  maxStack := by
    rw [add, figures.maxStack, List.foldl_append]
    rfl
  recent := by
    rw [add, figures.recent, List.take_take, List.reverse_concat, List.map_cons]
    rfl

theorem figures_foldl (figures : Figures front t) :
    Figures (front ++ rs) (rs.foldl tracer.receive t) := by
  induction rs generalizing front t with
  | nil => rwa [List.append_nil]
  | cons r rs ih =>
    rw [List.append_cons]
    exact ih (figures_add figures r)

theorem abort?_foldl : (rs.foldl tracer.receive t).abort? = t.abort? := by
  induction rs generalizing t with
  | nil => rfl
  | cons r rs ih => exact ih

theorem read_log (log : TraceLog) :
    Figures log.steps.toList (tracer.read log empty) ∧
      (tracer.read log empty).abort? = log.abort? := by
  have figures : Figures log.steps.toList (log.steps.toList.foldl tracer.receive empty) :=
    figures_foldl figures_empty
  rw [Tracer.read]
  cases log.abort? with
  | none => exact ⟨figures, abort?_foldl⟩
  | some r => exact ⟨{ figures with }, rfl⟩

theorem mem_opCounts_iff (figures : Figures rs t) {op : Opcode} {n : Nat} :
    (op, n) ∈ t.opCounts ↔ 0 < n ∧ rs.countP (·.opcode = op) = n := by
  simp only [opCounts, List.mem_filterMap, figures.counts]
  constructor
  · rintro ⟨other, -, listed⟩
    split at listed
    · rename_i k counted
      cases listed
      exact ⟨Nat.succ_pos k, Option.some.inj counted⟩
    · cases listed
  · rintro ⟨positive, rfl⟩
    refine ⟨op, op.mem_all, ?_⟩
    obtain ⟨k, counted⟩ := Nat.exists_eq_add_of_lt positive
    simp [counted]

end TraceSummary

/-- A summary says of an execution what the log of it says, however long the log is. -/
theorem summary_of_log (code : Code) (config : Config) :
    let log := (runTraced code config TraceLog.tracer .empty).2
    let t := (runTraced code config TraceSummary.tracer .empty).2
    t.steps = log.steps.size ∧ t.totalCost = log.totalCost ∧
      t.maxReturnDepth = log.maxReturnDepth ∧
      t.maxStack = log.steps.toList.foldl (fun most r => max most r.stack.size) 0 ∧
      t.abort? = log.abort? ∧
      t.recent = ((log.steps.toList.map fun r => (r.pc, r.opcode)).reverse.take
        TraceSummary.window) ∧
      ∀ op n, (op, n) ∈ t.opCounts ↔
        0 < n ∧ log.steps.toList.countP (·.opcode = op) = n := by
  intro log t
  have kept : t = TraceSummary.tracer.read log .empty :=
    congrArg Prod.snd (runTraced_eq code config TraceSummary.tracer .empty)
  obtain ⟨figures, abort⟩ := TraceSummary.read_log log
  rw [kept]
  refine ⟨figures.steps, ?_, ?_, figures.maxStack, abort, ?_,
    fun _ _ => TraceSummary.mem_opCounts_iff figures⟩
  · rw [figures.totalCost, TraceLog.totalCost, Array.foldl_toList]
  · rw [figures.maxReturnDepth, TraceLog.maxReturnDepth, Array.foldl_toList]
  · rw [figures.recent, List.map_reverse]

end SubroutineVM
