import SubroutineVM.Proofs.Code.Segmentation
import SubroutineVM.Proofs.Machine.History

/-!
Safety of executions. The program counter keeps to marked bytes, although a return takes its
address unchecked: a saved address always lies behind a JUMPSUB, and it is saved while the
program counter is on that JUMPSUB. Main statement: every state of an execution, its last one
included, is safe (`execution_safe`).
-/
namespace SubroutineVM

namespace Code

variable {c : Code} {offset : Nat} {op : Opcode}

theorem isJumpTarget_iff : c.isJumpTarget offset = true ↔ c.isOpcodeOffset offset = true ∧
    (c.opcode? offset = some .jumpdest ∨ c.opcode? offset = some .beginsub) := by
  rw [isJumpTarget, isJumpDestination, isSubroutineEntry, Bool.or_eq_true, holds_iff, holds_iff,
    and_or_left]

def Aligned (c : Code) (offset : Nat) : Prop :=
  offset = c.size ∨ c.isOpcodeOffset offset = true

theorem aligned_zero (c : Code) : c.Aligned 0 := by
  by_cases nonempty : 0 < c.size
  · exact .inr (marked_zero nonempty)
  · exact .inl (by omega)

theorem Aligned.marked_of_byte {b : UInt8} (aligned : c.Aligned offset)
    (here : c.byte? offset = some b) : c.isOpcodeOffset offset = true := by
  rcases aligned with rfl | marked
  · rw [byte?_eq, size_eq, List.getElem?_eq_none (Nat.le_refl _)] at here
    cases here
  · exact marked

theorem Aligned.marked (aligned : c.Aligned offset) (fetched : c.opcode? offset = some op) :
    c.isOpcodeOffset offset = true := aligned.marked_of_byte (opcode?_eq_some_iff.mp fetched)

theorem aligned_behind (marked : c.isOpcodeOffset offset = true)
    (fetched : c.opcode? offset = some op) :
    c.Aligned (min (offset + 1 + op.immediateLength) c.size) := by
  rw [← immediateLength_toByte op]
  exact marked_next marked (opcode?_eq_some_iff.mp fetched)

theorem aligned_succ (marked : c.isOpcodeOffset offset = true)
    (fetched : c.opcode? offset = some op) (bare : op.immediateLength = 0) :
    c.Aligned (offset + 1) := by
  have behind := aligned_behind marked fetched
  have inside := marked_lt_size marked
  rwa [bare, Nat.add_zero, Nat.min_eq_left inside] at behind

end Code

structure ReturnAddress (c : Code) (address : Nat) : Prop where
  positive : 1 ≤ address
  call : c.holds (address - 1) .jumpsub = true
  aligned : c.Aligned address

/-- What holds of every state of an execution with a gas limit. -/
structure Safe (c : Context) (gasLimit : Nat) (s : State) : Prop where
  pc : c.code.Aligned s.pc
  saved : ∀ address ∈ s.returns.items, ReturnAddress c.code address
  depth : s.returns.size ≤ ReturnStack.limit
  height : s.stack.size ≤ c.stackLimit
  gas : s.gas.remaining ≤ gasLimit
  /-- A landing happens on the BEGINSUB that was called. -/
  entry : s.landing = true → c.code.isSubroutineEntry s.pc = true

section Preservation

variable {c : Context} {gasLimit : Nat} {s : State}

theorem safe_start (c : Context) (gasLimit : Nat) : Safe c gasLimit (.start gasLimit) where
  pc := c.code.aligned_zero
  saved := by intro address member; cases member
  depth := Nat.zero_le _
  height := Nat.zero_le _
  gas := Nat.le_refl _
  entry := by intro landing; cases landing

theorem Safe.paid (safe : Safe c gasLimit s) (cost : Nat) : Safe c gasLimit (s.paid cost) :=
  { safe with gas := Nat.le_trans (Nat.sub_le _ _) safe.gas }

theorem Safe.exhausted (safe : Safe c gasLimit s) :
    Safe c gasLimit { s with gas := s.gas.exhaust } :=
  { safe with gas := Nat.zero_le gasLimit }

theorem Safe.withStack (safe : Safe c gasLimit s) {stack : Stack Word}
    (lower : stack.size ≤ c.stackLimit) : Safe c gasLimit { s with stack } :=
  { safe with height := lower }

theorem Safe.goTo (safe : Safe c gasLimit s) (fetching : s.landing = false) {pc : Nat}
    {stack : Stack Word} (aligned : c.code.Aligned pc) (lower : stack.size ≤ c.stackLimit) :
    Safe c gasLimit (s.goTo pc stack) where
  pc := aligned
  saved := safe.saved
  depth := safe.depth
  height := lower
  gas := safe.gas
  entry := by
    intro landing
    cases fetching.symm.trans landing

theorem Safe.call (safe : Safe c gasLimit s) (fetched : c.code.opcode? s.pc = some .jumpsub)
    {dest : Word} {stack : Stack Word} (operand : s.stack.items = dest :: stack.items)
    (entry : c.code.isSubroutineEntry dest.toNat = true)
    (room : s.returns.size < ReturnStack.limit) : Safe c gasLimit { s with
      pc := dest.toNat, stack, returns := Stack.push s.returns (s.pc + 1), landing := true } where
  pc := .inr (Code.holds_iff.mp entry).1
  saved := by
    intro address member
    have marked := safe.pc.marked fetched
    rw [Stack.items_push] at member
    rcases List.mem_cons.mp member with rfl | earlier
    · exact ⟨Nat.le_add_left 1 s.pc, Code.holds_iff.mpr ⟨marked, fetched⟩,
        Code.aligned_succ marked fetched rfl⟩
    · exact safe.saved address earlier
  depth := room
  height := by
    have height := Stack.size_of_cons operand
    have bound := safe.height
    simp only
    omega
  gas := safe.gas
  entry := by
    intro _
    exact entry

theorem Safe.back (safe : Safe c gasLimit s) (fetching : s.landing = false) {address : Nat}
    {returns : ReturnStack} (saved : s.returns.items = address :: returns.items) :
    Safe c gasLimit { s with pc := address, returns } where
  -- The address is not checked again, so that what its call saved must be enough.
  pc := (safe.saved address (saved ▸ List.mem_cons_self)).aligned
  saved := by
    intro other member
    exact safe.saved other (saved ▸ List.mem_cons_of_mem address member)
  depth := by
    have height := Stack.size_of_cons saved
    have bound := safe.depth
    simp only
    omega
  height := safe.height
  gas := safe.gas
  entry := by
    intro landing
    cases fetching.symm.trans landing

theorem safe_effect (safe : Safe c gasLimit s) (fetching : s.landing = false) {op : Opcode}
    (fetched : c.code.opcode? s.pc = some op) (fits : s.stackFault? c op = none)
    {result : Transition} (effect : Effect c s op result) : Safe c gasLimit result.state := by
  obtain ⟨enough, suited⟩ := State.stackFault?_eq_none_iff.mp fits
  have marked := safe.pc.marked fetched
  have bound := safe.height
  cases effect with
  | stop | fetchedEntry | strayCall | deepCall | strayReturn => exact safe
  | sequential inSequence height =>
    exact safe.goTo fetching (Code.aligned_behind marked fetched) (by omega)
  | jump operand target =>
    have height := Stack.size_of_cons operand
    exact safe.goTo fetching (.inr (Code.isJumpTarget_iff.mp target).1) (by omega)
  | strayJump operand =>
    have height := Stack.size_of_cons operand
    exact safe.withStack (by omega)
  | untaken operands =>
    have height := Stack.size_of_cons_cons operands
    exact safe.goTo fetching (Code.aligned_behind marked fetched) (by omega)
  | taken operands nonzero target =>
    have height := Stack.size_of_cons_cons operands
    exact safe.goTo fetching (.inr (Code.isJumpTarget_iff.mp target).1) (by omega)
  | strayBranch operands =>
    have height := Stack.size_of_cons_cons operands
    exact safe.withStack (by omega)
  | call operand entry room => exact safe.call fetched operand entry room
  | back saved => exact safe.back fetching saved

theorem safe_move (safe : Safe c gasLimit s) {result : Transition} (move : Move c s result) :
    Safe c gasLimit result.state := by
  cases move with
  | landed landing enough =>
    obtain ⟨marked, fetched⟩ := Code.holds_iff.mp (safe.entry landing)
    exact {
      pc := Code.aligned_succ marked fetched rfl
      saved := safe.saved
      depth := safe.depth
      height := safe.height
      gas := (safe.paid _).gas
      entry := by intro again; cases again }
  | unpaidLanding | ended | undefined | unsuited | unpaid => exact safe
  | performed fetching fetched fits enough effect =>
    exact safe_effect (safe.paid _) fetching fetched fits effect

theorem Safe.holds_record (safe : Safe c gasLimit s) {r : StepRecord}
    (made : s.record? c = some r) : c.code.holds r.pc r.opcode = true := by
  obtain ⟨charged, place, -⟩ := record?_eq_some_iff.mp made
  rw [place]
  cases landing : s.landing with
  | true =>
    rw [opcode?_landing landing] at charged
    rw [← Option.some.inj charged]
    exact safe.entry landing
  | false =>
    have fetched := fetched_of_charged charged landing
    exact Code.holds_iff.mpr ⟨safe.pc.marked fetched, fetched⟩

theorem safe_states (safe : Safe c gasLimit s) : ∀ u ∈ states c s, Safe c gasLimit u := by
  refine states_invariant (fun s t safe moved => ?_) safe
  exact safe_move safe (move_of moved)

theorem record_held {r : StepRecord} (member : r ∈ records c (.start gasLimit)) :
    c.code.holds r.pc r.opcode = true := by
  obtain ⟨a, met, made⟩ := state_of_record member
  exact (safe_states (safe_start c gasLimit) a met).holds_record made

theorem safe_ending (safe : Safe c gasLimit s) : Safe c gasLimit (ending c s).state := by
  refine ending_invariant (fun s safe => ?_) safe
  exact safe_move safe (move_step c s)

theorem safe_settle {e : Ending} (safe : Safe c gasLimit e.state) :
    Safe c gasLimit e.settle := by
  rw [Ending.settle]
  cases e.cause? with
  | none => exact safe
  | some cause => exact safe.exhausted

end Preservation

/-- Whatever the code, the limits and the observer: all states shown are safe, the machine is left
    in a safe state, and the program counter never stands on the immediate of an instruction. -/
theorem execution_safe {σ : Type} (code : Code) (config : Config) (observer : Observer σ)
    (seen : σ) :
    (∀ s ∈ (Machine.new code config).visited,
      Safe ⟨code, config.stackLimit⟩ config.gasLimit s ∧
        ∀ i ∈ code.instructions, ¬ (i.offset < s.pc ∧ s.pc < i.next)) ∧
    Safe ⟨code, config.stackLimit⟩ config.gasLimit
      ((Machine.new code config).execute observer seen).machine.state := by
  have start := safe_start ⟨code, config.stackLimit⟩ config.gasLimit
  constructor
  · intro s member
    rw [visited_new] at member
    have safe := safe_states start s member
    exact ⟨safe, Code.marked_outside safe.pc⟩
  · rw [execute_eq]
    exact safe_settle (safe_ending start)

theorem execution_safe_return_to_end :
    let code := Code.ofBytes [0x60, 0x05, 0x56, 0xb2, 0xb7, 0x5b, 0x60, 0x03, 0xb3]
    let push : Instruction := ⟨6, 0x60, [3]⟩
    push ∈ code.instructions ∧ ∃ s ∈ (Machine.new code ⟨26, 1024⟩).visited,
      s.returns.toList = [9] ∧ ReturnAddress code 9 ∧
        ¬ (push.offset < s.pc ∧ s.pc < push.next) := by
  intro code push
  have walked : push ∈ code.instructions := by decide +kernel
  have met : ∃ s ∈ (Machine.new code ⟨26, 1024⟩).visited, s.returns.toList = [9] := by
    decide +kernel
  obtain ⟨s, member, saved⟩ := met
  obtain ⟨safe, outside⟩ := (execution_safe code ⟨26, 1024⟩ .silent ()).1 s member
  have inside : 9 ∈ s.returns.items := by
    rw [← List.mem_reverse, ← Stack.toList, saved]
    exact List.mem_singleton.mpr rfl
  exact ⟨walked, s, member, saved, safe.saved 9 inside, outside push walked⟩

end SubroutineVM
