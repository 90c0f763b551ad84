import SubroutineVM.Machine.Record

/-!
Traces of executions: receivers of records, the log of all of them, and a summary that keeps
figures only. What a receiver is given depends on the states alone.
-/
namespace SubroutineVM

/-- A receiver of records. Steps reach it only while it is enabled. -/
structure Tracer (σ : Type) where
  enabled : σ → Bool
  step : StepRecord → σ → σ
  abort : AbortRecord → σ → σ

def Tracer.observer {σ : Type} (t : Tracer σ) : Observer σ where
  visit c s seen :=
    if t.enabled seen then
      match s.record? c with
      | some r => t.step r seen
      | none => seen
    else seen
  finish c result seen :=
    match result with
    | .ok _ => seen
    | .error f => t.abort (.ofFault c f) seen

def runTraced {σ : Type} (code : Code) (config : Config) (t : Tracer σ) (seen : σ) : Result × σ :=
  let e := (Machine.new code config).execute t.observer seen
  (e.result, e.seen)

structure TraceLog where
  steps : Array StepRecord
  abort? : Option AbortRecord

namespace TraceLog

def empty : TraceLog := ⟨#[], none⟩

def tracer : Tracer TraceLog where
  enabled _ := true
  step r log := { log with steps := log.steps.push r }
  abort r log := { log with abort? := some r }

def totalCost (log : TraceLog) : Nat := log.steps.foldl (fun total r => total + r.cost) 0

def maxReturnDepth (log : TraceLog) : Nat := log.steps.foldl (fun most r => max most r.depth) 0

def pcs (log : TraceLog) : List Nat := (log.steps.map StepRecord.pc).toList

def ops (log : TraceLog) : List String := (log.steps.map fun r => r.opcode.mnemonic).toList

end TraceLog

/-- What a receiver of bounded size keeps; its figures are those of the log (`summary_of_log`). -/
structure TraceSummary where
  /-- How often each opcode was charged, by its byte. -/
  counts : Array Nat
  steps : Nat
  totalCost : Nat
  maxReturnDepth : Nat
  maxStack : Nat
  /-- The last few program counters and opcodes, the newest first. -/
  recent : List (Nat × Opcode)
  abort? : Option AbortRecord

namespace TraceSummary

def window : Nat := 8

def empty : TraceSummary := ⟨Array.replicate 256 0, 0, 0, 0, 0, [], none⟩

def add (r : StepRecord) (t : TraceSummary) : TraceSummary where
  counts := t.counts.modify r.opcode.toByte.toNat (· + 1)
  steps := t.steps + 1
  totalCost := t.totalCost + r.cost
  maxReturnDepth := max t.maxReturnDepth r.depth
  maxStack := max t.maxStack r.stack.size
  recent := (r.pc, r.opcode) :: t.recent.take (window - 1)
  abort? := t.abort?

def tracer : Tracer TraceSummary where
  enabled _ := true
  step := add
  abort r t := { t with abort? := some r }

def opCounts (t : TraceSummary) : List (Opcode × Nat) :=
  Opcode.all.filterMap fun op =>
    match t.counts[op.toByte.toNat]? with
    | some (n + 1) => some (op, n + 1)
    | _ => none

end TraceSummary

end SubroutineVM
