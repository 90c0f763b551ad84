import SubroutineVM.Machine.Trace
import SubroutineVM.Proofs.Machine.Moves

/-!
The history of an execution: the states it meets, how it ends, and its step records. Main
statements: what an observer keeps is a fold over the states met (`execute_eq`), the log of an
execution is their records (`runTraced_log`), and neighbouring records are those of two states
with one move between them (`records_neighbours`).
-/
namespace SubroutineVM

/-- The states that an execution meets, each before its move. -/
def states (c : Context) (s : State) : List State :=
  match _moved : step c s with
  | .next t => s :: states c t
  | .halt _ | .fault _ _ => [s]
termination_by s.gas.remaining
decreasing_by exact step_decreases _moved

def ending (c : Context) (s : State) : Ending := (watch c (fun _ seen => seen) () s).1

def records (c : Context) (s : State) : List StepRecord := (states c s).filterMap (State.record? c)

def stepRecords (code : Code) (config : Config) : List StepRecord :=
  (runTraced code config TraceLog.tracer .empty).2.steps.toList

def Transition.state : Transition → State
  | .next s | .halt s | .fault s _ => s

/-- What a move that leads on does, seen from its record. -/
inductive Advance (c : Context) (s : State) (r : StepRecord) : State → Prop where
  | landed (landing : s.landing = true) (entry : r.opcode = .beginsub)
      (enough : r.cost ≤ s.gas.remaining) :
      Advance c s r { s.paid Opcode.beginsub.cost with pc := s.pc + 1, landing := false }
  | performed {t : State} (fetching : s.landing = false)
      (fetched : c.code.opcode? s.pc = some r.opcode) (fits : s.stackFault? c r.opcode = none)
      (enough : r.cost ≤ s.gas.remaining) (effect : Effect c (s.paid r.cost) r.opcode (.next t)) :
      Advance c s r t

def Observer.recorder : Observer (Array State) where
  visit _ s seen := seen.push s
  finish _ _ seen := seen

def Machine.visited (m : Machine) : List State := (m.execute .recorder #[]).seen.toList

section Executions

variable {c : Context} {s t : State}

/-- Executions are finite, so that a property of states passes back from the last one. -/
@[elab_as_elim]
theorem execution_induction {motive : State → Prop}
    (next : ∀ s t, step c s = .next t → motive t → motive s)
    (halted : ∀ s t, step c s = .halt t → motive s)
    (faulted : ∀ s t cause, step c s = .fault t cause → motive s) (s : State) : motive s := by
  -- On the gas, which every move that leads on uses.
  induction fuel : s.gas.remaining using Nat.strongRecOn generalizing s with
  | ind gas ih =>
    cases moved : step c s with
    | next t =>
      have less := step_decreases moved
      exact next s t moved (ih t.gas.remaining (by omega) t rfl)
    | halt t => exact halted s t moved
    | fault t cause => exact faulted s t cause moved

theorem states_next (moved : step c s = .next t) : states c s = s :: states c t := by
  rw [states]
  split
  · rename_i u same
    cases moved.symm.trans same
    rfl
  all_goals
    rename_i same
    cases moved.symm.trans same

theorem states_halt (moved : step c s = .halt t) : states c s = [s] := by
  rw [states]
  split
  · rename_i same
    cases moved.symm.trans same
  all_goals rfl

theorem states_fault {cause : Cause} (moved : step c s = .fault t cause) : states c s = [s] := by
  rw [states]
  split
  · rename_i same
    cases moved.symm.trans same
  all_goals rfl

theorem watch_next {σ : Type} {visit : State → σ → σ} {seen : σ} (moved : step c s = .next t) :
    watch c visit seen s = watch c visit (visit s seen) t := by
  rw [watch]
  split
  · rename_i u same
    cases moved.symm.trans same
    rfl
  all_goals
    rename_i same
    cases moved.symm.trans same

theorem watch_halt {σ : Type} {visit : State → σ → σ} {seen : σ} (moved : step c s = .halt t) :
    watch c visit seen s = (⟨t, none⟩, visit s seen) := by
  rw [watch]
  split
  all_goals
    rename_i same
    cases moved.symm.trans same
  rfl

theorem watch_fault {σ : Type} {visit : State → σ → σ} {seen : σ} {cause : Cause}
    (moved : step c s = .fault t cause) :
    watch c visit seen s = (⟨t, some cause⟩, visit s seen) := by
  rw [watch]
  split
  all_goals
    rename_i same
    cases moved.symm.trans same
  rfl

theorem ending_next (moved : step c s = .next t) : ending c s = ending c t := by
  rw [ending, watch_next moved, ending]

theorem ending_halt (moved : step c s = .halt t) : ending c s = ⟨t, none⟩ := by
  rw [ending, watch_halt moved]

theorem ending_fault {cause : Cause} (moved : step c s = .fault t cause) :
    ending c s = ⟨t, some cause⟩ := by
  rw [ending, watch_fault moved]

theorem next_of_halted (moved : step c s = .next t) (halted : (ending c s).cause? = none) :
    (ending c t).cause? = none := by
  rwa [ending_next moved] at halted

theorem not_halted_of_fault {cause : Cause} (moved : step c s = .fault t cause) :
    (ending c s).cause? ≠ none := by
  rw [ending_fault moved]
  intro halted
  cases halted

theorem watch_eq {σ : Type} (visit : State → σ → σ) (seen : σ) (s : State) :
    watch c visit seen s = (ending c s, (states c s).foldl (fun seen u => visit u seen) seen) := by
  induction s using execution_induction (c := c) generalizing seen with
  | next s t moved ih => rw [watch_next moved, ih, ending_next moved, states_next moved]; rfl
  | halted s t moved => rw [watch_halt moved, ending_halt moved, states_halt moved]; rfl
  | faulted s t cause moved => rw [watch_fault moved, ending_fault moved, states_fault moved]; rfl

/-- What one move preserves, a whole execution preserves. -/
theorem states_invariant {P : State → Prop} (keeps : ∀ s t, P s → step c s = .next t → P t)
    (start : P s) : ∀ u ∈ states c s, P u := by
  induction s using execution_induction (c := c) with
  | next s t moved ih =>
    rw [states_next moved]
    intro u member
    rcases List.mem_cons.mp member with rfl | later
    · exact start
    · exact ih (keeps s t start moved) u later
  | halted s t moved =>
    rw [states_halt moved]
    intro u member
    exact List.mem_singleton.mp member ▸ start
  | faulted s t cause moved =>
    rw [states_fault moved]
    intro u member
    exact List.mem_singleton.mp member ▸ start

theorem ending_spec (c : Context) (s : State) : ∃ u ∈ states c s,
    (∃ t, step c u = .halt t ∧ ending c s = ⟨t, none⟩) ∨
      ∃ t cause, step c u = .fault t cause ∧ ending c s = ⟨t, some cause⟩ := by
  induction s using execution_induction (c := c) with
  | next s t moved ih =>
    obtain ⟨u, member, last⟩ := ih
    rw [states_next moved, ending_next moved]
    exact ⟨u, List.mem_cons_of_mem s member, last⟩
  | halted s t moved =>
    rw [states_halt moved, ending_halt moved]
    exact ⟨s, List.mem_singleton.mpr rfl, .inl ⟨t, moved, rfl⟩⟩
  | faulted s t cause moved =>
    rw [states_fault moved, ending_fault moved]
    exact ⟨s, List.mem_singleton.mpr rfl, .inr ⟨t, cause, moved, rfl⟩⟩

theorem states_head (c : Context) (s : State) : s ∈ states c s := by
  cases moved : step c s with
  | next t => rw [states_next moved]; exact List.mem_cons_self
  | halt t => rw [states_halt moved]; exact List.mem_cons_self
  | fault t cause => rw [states_fault moved]; exact List.mem_cons_self

theorem ending_faulted {cause : Cause} (aborted : (ending c s).cause? = some cause) :
    ∃ u ∈ states c s, ∃ t, step c u = .fault t cause ∧ ending c s = ⟨t, some cause⟩ := by
  obtain ⟨u, met, ⟨t, -, last⟩ | ⟨t, found, moved, last⟩⟩ := ending_spec c s
  · rw [last] at aborted
    cases aborted
  · rw [last] at aborted
    cases aborted
    exact ⟨u, met, t, moved, last⟩

theorem ending_of_met {u : State} (met : u ∈ states c s) : ending c u = ending c s := by
  apply states_invariant (P := fun u => ending c u = ending c s) _ rfl u met
  intro a b same moved
  rw [← ending_next moved, same]

theorem ending_invariant {P : State → Prop} (keeps : ∀ s, P s → P (step c s).state) (start : P s) :
    P (ending c s).state := by
  obtain ⟨u, met, last⟩ := ending_spec c s
  have before : P u := by
    refine states_invariant (fun a b now moved => ?_) start u met
    have after := keeps a now
    rwa [moved] at after
  have final := keeps u before
  rcases last with ⟨t, moved, same⟩ | ⟨t, cause, moved, same⟩
  · rw [moved] at final
    rwa [same]
  · rw [moved] at final
    rwa [same]

end Executions

section Records

variable {c : Context} {s t : State}

theorem record?_eq_some_iff {r : StepRecord} : s.record? c = some r ↔
    s.opcode? c = some r.opcode ∧ r.pc = s.pc ∧ r.gas = s.gas.remaining ∧ r.stack = s.stack ∧
      r.returns = s.returns := by
  simp only [State.record?, Option.map_eq_some_iff]
  constructor
  · rintro ⟨op, charged, rfl⟩
    exact ⟨charged, rfl, rfl, rfl, rfl⟩
  · rintro ⟨charged, pc, gas, stack, returns⟩
    refine ⟨r.opcode, charged, ?_⟩
    rw [← pc, ← gas, ← stack, ← returns]

theorem opcode?_fetching (fetching : s.landing = false) : s.opcode? c = c.code.opcode? s.pc := by
  rw [State.opcode?, if_neg (by rw [fetching]; decide)]

theorem fetched_of_charged {op : Opcode} (charged : s.opcode? c = some op)
    (fetching : s.landing = false) : c.code.opcode? s.pc = some op := by
  rwa [opcode?_fetching fetching] at charged

theorem opcode?_landing (landing : s.landing = true) : s.opcode? c = some .beginsub := by
  rw [State.opcode?, if_pos landing]

theorem charged_of_fetched {op : Opcode} (fetched : c.code.opcode? s.pc = some op) :
    ∃ op, s.opcode? c = some op := by
  cases landing : s.landing with
  | true => exact ⟨_, opcode?_landing landing⟩
  | false => exact ⟨op, (opcode?_fetching landing).trans fetched⟩

theorem record?_of_charged {op : Opcode} (charged : s.opcode? c = some op) :
    ∃ r, s.record? c = some r ∧ r.pc = s.pc := by
  rw [State.record?, charged]
  exact ⟨_, rfl, rfl⟩

theorem opcode?_of_next (moved : step c s = .next t) : ∃ op, s.opcode? c = some op := by
  cases move_of moved with
  | landed landing => exact ⟨.beginsub, opcode?_landing landing⟩
  | performed fetching fetched => exact ⟨_, (opcode?_fetching fetching).trans fetched⟩

theorem record?_of_next (moved : step c s = .next t) : ∃ r, s.record? c = some r := by
  obtain ⟨op, charged⟩ := opcode?_of_next moved
  obtain ⟨r, made, -⟩ := record?_of_charged charged
  exact ⟨r, made⟩

theorem advance_of_next {r : StepRecord} (moved : step c s = .next t)
    (made : s.record? c = some r) : Advance c s r t := by
  obtain ⟨charged, -⟩ := record?_eq_some_iff.mp made
  cases move_of moved with
  | landed landing enough =>
    rw [opcode?_landing landing] at charged
    have entry := Option.some.inj charged
    exact .landed landing entry.symm (by rwa [StepRecord.cost, ← entry])
  | performed fetching fetched fits enough effect =>
    rw [opcode?_fetching fetching, fetched] at charged
    cases charged
    exact .performed fetching fetched fits enough effect

theorem records_next {r : StepRecord} (moved : step c s = .next t) (made : s.record? c = some r) :
    records c s = r :: records c t := by
  rw [records, states_next moved, List.filterMap_cons_some made, records]

theorem records_halt (moved : step c s = .halt t) : records c s = (s.record? c).toList := by
  rw [records, states_halt moved]
  cases made : s.record? c <;> simp [made]

theorem records_fault {cause : Cause} (moved : step c s = .fault t cause) :
    records c s = (s.record? c).toList := by
  rw [records, states_fault moved]
  cases made : s.record? c <;> simp [made]

theorem records_of_met {u : State} (met : u ∈ states c s) : records c u <:+ records c s := by
  apply states_invariant (P := fun u => records c u <:+ records c s) _ (List.suffix_refl _) u met
  intro a b rest moved
  obtain ⟨r, made⟩ := record?_of_next moved
  rw [records_next moved made] at rest
  exact (List.suffix_cons r _).trans rest

theorem records_head? (c : Context) (s : State) : (records c s).head? = s.record? c := by
  cases moved : step c s with
  | next t =>
    obtain ⟨r, made⟩ := record?_of_next moved
    rw [records_next moved made, made]
    rfl
  | halt t => rw [records_halt moved]; cases s.record? c <;> rfl
  | fault t cause => rw [records_fault moved]; cases s.record? c <;> rfl

theorem state_of_record {r : StepRecord} (member : r ∈ records c s) :
    ∃ a ∈ states c s, a.record? c = some r := List.mem_filterMap.mp member

theorem record_reached {i : Nat} {r : StepRecord} (here : (records c s)[i + 1]? = some r) :
    ∃ a ∈ states c s, ∃ b ∈ states c s, ∃ p, step c a = .next b ∧ a.record? c = some p ∧
      (records c s)[i]? = some p ∧ b.record? c = some r ∧
      (records c s).drop (i + 1) = records c b := by
  induction s using execution_induction (c := c) generalizing i with
  | next s t moved ih =>
    obtain ⟨first, made⟩ := record?_of_next moved
    rw [records_next moved made, List.getElem?_cons_succ] at here
    rw [records_next moved made, states_next moved, List.drop_succ_cons]
    cases i with
    | zero =>
      rw [← List.head?_eq_getElem?, records_head?] at here
      exact ⟨s, List.mem_cons_self, t, List.mem_cons_of_mem s (states_head c t), first, moved, made,
        rfl, here, rfl⟩
    | succ i =>
      obtain ⟨a, before, b, met, p, rest⟩ := ih here
      exact ⟨a, List.mem_cons_of_mem s before, b, List.mem_cons_of_mem s met, p, rest⟩
  | halted s t moved =>
    rw [records_halt moved] at here
    cases made : s.record? c <;> simp [made] at here
  | faulted s t cause moved =>
    rw [records_fault moved] at here
    cases made : s.record? c <;> simp [made] at here

theorem record_met {i : Nat} {r : StepRecord} (here : (records c s)[i]? = some r) :
    ∃ a ∈ states c s, a.record? c = some r ∧ (records c s).drop i = records c a := by
  cases i with
  | zero =>
    rw [← List.head?_eq_getElem?, records_head?] at here
    exact ⟨s, states_head c s, here, rfl⟩
  | succ i =>
    obtain ⟨-, -, b, met, -, -, -, -, made, rest⟩ := record_reached here
    exact ⟨b, met, made, rest⟩

theorem last_of_fault {i : Nat} {a : State} {r : StepRecord} {cause : Cause}
    (rest : (records c s).drop i = records c a) (made : a.record? c = some r)
    (moved : step c a = .fault t cause) : i + 1 = (records c s).length := by
  have length := congrArg List.length rest
  rw [records_fault moved, made, List.length_drop, Option.toList_some,
    List.length_singleton] at length
  omega

theorem records_neighbours {i : Nat} {r next : StepRecord} (here : (records c s)[i]? = some r)
    (behind : (records c s)[i + 1]? = some next) : ∃ a ∈ states c s, ∃ b, step c a = .next b ∧
      a.record? c = some r ∧ b.record? c = some next := by
  obtain ⟨a, met, b, -, p, moved, made, same, made', -⟩ := record_reached behind
  cases here.symm.trans same
  exact ⟨a, met, b, moved, made, made'⟩

end Records

theorem execute_unfinished {σ : Type} {m : Machine} (unfinished : m.result? = none)
    (observer : Observer σ) (seen : σ) :
    let c := m.context
    let e := ending c m.state
    m.execute observer seen = ⟨e.result, ⟨c, e.settle, some e.result⟩,
      observer.finish c e.result
        ((states c m.state).foldl (fun seen u => observer.visit c u seen) seen)⟩ := by
  intro c e
  simp only [Machine.execute, unfinished]
  rw [watch_eq]

theorem visited_unfinished {m : Machine} (unfinished : m.result? = none) :
    m.visited = states m.context m.state := by
  rw [Machine.visited, execute_unfinished unfinished]
  simp [Observer.recorder]

theorem execute_eq {σ : Type} (code : Code) (config : Config) (observer : Observer σ) (seen : σ) :
    let c : Context := ⟨code, config.stackLimit⟩
    let s := State.start config.gasLimit
    (Machine.new code config).execute observer seen =
      ⟨(ending c s).result, ⟨c, (ending c s).settle, some (ending c s).result⟩,
        observer.finish c (ending c s).result
          ((states c s).foldl (fun seen u => observer.visit c u seen) seen)⟩ :=
  execute_unfinished rfl observer seen

theorem visited_new (code : Code) (config : Config) :
    (Machine.new code config).visited =
      states ⟨code, config.stackLimit⟩ (.start config.gasLimit) := visited_unfinished rfl

theorem execute_result {σ : Type} (code : Code) (config : Config) (observer : Observer σ)
    (seen : σ) : ((Machine.new code config).execute observer seen).result =
      (ending ⟨code, config.stackLimit⟩ (.start config.gasLimit)).result := by
  rw [execute_eq]

theorem execute_state {σ : Type} (code : Code) (config : Config) (observer : Observer σ)
    (seen : σ) : ((Machine.new code config).execute observer seen).machine.state =
      (ending ⟨code, config.stackLimit⟩ (.start config.gasLimit)).settle := by
  rw [execute_eq]

theorem run_eq (code : Code) (config : Config) : run code config =
    (ending ⟨code, config.stackLimit⟩ (.start config.gasLimit)).result := by
  rw [run, execute_result]

namespace Ending

variable {e : Ending}

theorem result_eq_ok_iff {outcome : Outcome} : e.result = .ok outcome ↔
    e.cause? = none ∧ outcome = ⟨e.state.gas.used, e.state.stack, e.state.pc⟩ := by
  unfold result
  cases e.cause? with
  | none => simp [eq_comm]
  | some cause => simp

theorem result_eq_error_iff {fault : Fault} : e.result = .error fault ↔
    e.cause? = some fault.cause ∧ e.state.pc = fault.pc := by
  unfold result
  cases e.cause? with
  | none => simp
  | some cause =>
    cases fault
    simp [and_comm]

theorem settle_halted (halted : e.cause? = none) : e.settle = e.state := by
  rw [settle, halted]

theorem settle_aborted {cause : Cause} (aborted : e.cause? = some cause) :
    e.settle = { e.state with gas := e.state.gas.exhaust } := by
  rw [settle, aborted]

end Ending

theorem foldl_log (c : Context) (us : List State) (log : TraceLog) :
    us.foldl (fun log u => TraceLog.tracer.observer.visit c u log) log =
      { log with steps := log.steps ++ (us.filterMap (State.record? c)).toArray } := by
  induction us generalizing log with
  | nil => simp
  | cons u us ih =>
    rw [List.foldl_cons, ih]
    cases made : u.record? c with
    | none =>
      rw [List.filterMap_cons_none made]
      simp [Tracer.observer, TraceLog.tracer, made]
    | some r =>
      rw [List.filterMap_cons_some made]
      simp [Tracer.observer, TraceLog.tracer, made]

theorem runTraced_log (code : Code) (config : Config) :
    let c : Context := ⟨code, config.stackLimit⟩
    let s := State.start config.gasLimit
    (runTraced code config TraceLog.tracer .empty).1 = (ending c s).result ∧
      stepRecords code config = records c s := by
  intro c s
  rw [stepRecords, runTraced, execute_eq]
  refine ⟨rfl, ?_⟩
  simp only [foldl_log]
  cases (ending c s).result <;>
    simp [Tracer.observer, TraceLog.tracer, TraceLog.empty, records, c, s]

end SubroutineVM
