import SubroutineVM.Proofs.Code.Extension
import SubroutineVM.Proofs.Machine.History

/-!
The stack effect that the opcode table states is what an instruction does. One that has passed
the check of its stack effect finds all it looks for on the data stack, leaves the stated number
of items and does not touch those below (`effect_completes`), so that a fault of the data stack
always comes from the check. Main statement: `stack_effect_kept`.
-/
namespace SubroutineVM

def Cause.isStackFault : Cause → Bool
  | .stackUnderflow .. | .stackOverflow .. => true
  | _ => false

/-- The outputs of an opcode stand in the place of its inputs. The items below have kept their
    values and their positions, which count from the bottom. -/
structure Opcode.Replaces (op : Opcode) (before after : Stack Word) : Prop where
  size : after.size = before.size - op.stackInputs + op.stackOutputs
  below : ∀ k, k < before.size - op.stackInputs → after.toList[k]? = before.toList[k]?

def Opcode.Completes (op : Opcode) (before : Stack Word) : Transition → Prop
  | .next t | .halt t => op.Replaces before t.stack
  | .fault _ cause => cause.isStackFault = false

/-- The positions at which an instruction reads or writes exist: those of a DUP and a SWAP on the
    data stack, those that a PUSH fills in a field of 32 bytes, and the destination of a jump or a
    call, whose byte is read only behind a mark. -/
def Opcode.InRange (c : Context) (s : State) : Opcode → Prop
  | .dup n => n.val < s.stack.size
  | .swap n => 1 ≤ s.stack.size ∧ n.val + 1 ≤ s.stack.size - 1
  | .push n =>
    n.val + 1 ≤ 32 ∧ 32 - (n.val + 1) + (c.code.slice (s.pc + 1) (n.val + 1)).length ≤ 32
  | .jump | .jumpi | .jumpsub => ∃ dest, s.stack.peek? 0 = some dest ∧
      (c.code.isOpcodeOffset dest.toNat = true → dest.toNat < c.code.size)
  | _ => True

namespace Stack

variable {α : Type} {s t : Stack α}

theorem take_toList {n k : Nat} (height : k + n = s.size) :
    s.toList.take k = (s.items.drop n).reverse := by
  have length := s.size_eq
  rw [toList, List.take_reverse]
  congr 2
  omega

theorem getElem?_toList_of_drop {m n k : Nat} (height : t.size + n = s.size + m)
    (enough : n ≤ s.size) (below : t.items.drop m = s.items.drop n) (inside : k < s.size - n) :
    t.toList[k]? = s.toList[k]? := by
  have front : t.toList.take (s.size - n) = s.toList.take (s.size - n) := by
    rw [take_toList (n := m) (by omega), take_toList (n := n) (by omega), below]
  have same := congrArg (fun items => items[k]?) front
  simp only [List.getElem?_take_of_lt inside] at same
  exact same

end Stack

section Handlers

variable {c : Context} {s t : State} {op : Opcode} {cause : Cause} {result : Transition}

theorem replaces_of_drop {before after : Stack Word} (enough : op.stackInputs ≤ before.size)
    (height : after.size + op.stackInputs = before.size + op.stackOutputs)
    (below : after.items.drop op.stackOutputs = before.items.drop op.stackInputs) :
    op.Replaces before after where
  size := by omega
  below := by
    intro k inside
    exact Stack.getElem?_toList_of_drop height enough below inside

theorem effect_completes (fits : s.stackFault? c op = none) (effect : Effect c s op result) :
    op.Completes s.stack result := by
  obtain ⟨enough, -⟩ := State.stackFault?_eq_none_iff.mp fits
  cases effect with
  | stop | back => exact replaces_of_drop enough rfl rfl
  | sequential inSequence height below => exact replaces_of_drop enough height below
  | jump operand | call operand =>
    have height := Stack.size_of_cons operand
    apply replaces_of_drop enough
    · simp only [State.goTo, Opcode.stackInputs, Opcode.stackOutputs]
      omega
    · simp only [operand, State.goTo, Opcode.stackInputs, Opcode.stackOutputs, List.drop_zero,
        List.drop_succ_cons]
  | untaken operands | taken operands =>
    have height := Stack.size_of_cons_cons operands
    apply replaces_of_drop enough
    · simp only [State.goTo, Opcode.stackInputs, Opcode.stackOutputs]
      omega
    · simp only [operands, State.goTo, Opcode.stackInputs, Opcode.stackOutputs, List.drop_zero,
        List.drop_succ_cons]
  | strayJump | strayBranch | fetchedEntry | strayCall | deepCall | strayReturn => rfl

theorem land_completes {before : Stack Word} (kept : op.Replaces before s.stack) :
    op.Completes before (land s) := by
  by_cases enough : Opcode.beginsub.cost ≤ s.gas.remaining
  · rw [land_paid enough]
    exact kept
  · rw [land_unpaid (Nat.lt_of_not_le enough)]
    rfl

theorem target_in_range (enough : 1 ≤ s.stack.size) : ∃ dest, s.stack.peek? 0 = some dest ∧
    (c.code.isOpcodeOffset dest.toNat = true → dest.toNat < c.code.size) := by
  obtain ⟨dest, below, operand⟩ := Stack.exists_cons (s := s.stack) (by omega)
  exact ⟨dest, Stack.peek?_top operand, Code.marked_lt_size⟩

theorem in_range_of_fits (fits : s.stackFault? c op = none) : op.InRange c s := by
  obtain ⟨enough, -⟩ := State.stackFault?_eq_none_iff.mp fits
  cases op with
  | dup n => exact enough
  | swap n =>
    simp only [Opcode.stackInputs] at enough
    simp only [Opcode.InRange]
    omega
  | push n =>
    have width := n.isLt
    have clipped : (c.code.slice (s.pc + 1) (n + 1)).length ≤ n + 1 := by
      rw [Code.slice_eq]
      exact List.length_take_le _ _
    simp only [Opcode.InRange]
    omega
  | jump => exact target_in_range enough
  | jumpi => exact target_in_range (Nat.le_of_succ_le enough)
  | jumpsub => exact target_in_range enough
  | _ => trivial

end Handlers

section Faults

variable {c : Context} {s t : State} {cause : Cause}

theorem stackFault?_eq_some_iff {op : Opcode} : s.stackFault? c op = some cause ↔
    (s.stack.size < op.stackInputs ∧ cause = .stackUnderflow s.stack.size op.stackInputs) ∨
    (op.stackInputs ≤ s.stack.size ∧
      c.stackLimit < s.stack.size - op.stackInputs + op.stackOutputs ∧
      cause = .stackOverflow c.stackLimit) := by
  unfold State.stackFault?
  by_cases short : s.stack.size < op.stackInputs
  · simp [short, Nat.not_le_of_lt short, eq_comm]
  · by_cases crowded : c.stackLimit < s.stack.size - op.stackInputs + op.stackOutputs
    · simp [short, crowded, Nat.le_of_not_lt short, eq_comm]
    · simp [short, crowded]

theorem stack_fault_checked (moved : step c s = .fault t cause)
    (stack : cause.isStackFault = true) :
    t = s ∧ ∃ op, c.code.opcode? s.pc = some op ∧ s.stackFault? c op = some cause := by
  cases move_of moved with
  | unpaidLanding | undefined | unpaid => cases stack
  | unsuited fetching fetched unfit => exact ⟨rfl, _, fetched, unfit⟩
  | performed fetching fetched fits enough effect =>
    -- Past the check only jumps and subroutine opcodes can fail, and not on the data stack.
    have other := effect_completes (s := s.paid _) fits effect
    cases stack.symm.trans other

theorem ending_stack_fault (aborted : (ending c s).cause? = some cause)
    (stack : cause.isStackFault = true) :
    ∃ op, c.code.opcode? (ending c s).state.pc = some op ∧
      (ending c s).state.stackFault? c op = some cause := by
  obtain ⟨u, -, t, moved, last⟩ := ending_faulted aborted
  obtain ⟨rfl, op, fetched, unfit⟩ := stack_fault_checked moved stack
  rw [last]
  exact ⟨op, fetched, unfit⟩

end Faults

/-- Once the stack effect of an opcode is checked and its cost is charged, in whatever state, its
    instruction does not fail on the data stack, reads and writes at positions that exist, and keeps
    to the effect, also with a landing behind it. An execution that aborts on the data stack reports
    the size that the stack has there and the inputs of the opcode there, or the limit that was set.
    -/
theorem stack_effect_kept {σ : Type} (code : Code) (config : Config) (observer : Observer σ)
    (seen : σ) :
    let c : Context := ⟨code, config.stackLimit⟩
    let e := (Machine.new code config).execute observer seen
    let stack := e.machine.state.stack
    (∀ (s : State) (op : Opcode) (gas : GasMeter), s.stackFault? c op = none →
      s.gas.charge? op.cost = some gas →
      op.InRange c s ∧ op.Completes s.stack (perform c op { s with gas }) ∧
      ∀ t, perform c op { s with gas } = .next t → op.Completes s.stack (land t)) ∧
    (∀ place size required, e.result = .error ⟨place, .stackUnderflow size required⟩ →
      size = stack.size ∧ ∃ op, code.opcode? place = some op ∧ required = op.stackInputs ∧
        stack.size < op.stackInputs) ∧
    ∀ place limit, e.result = .error ⟨place, .stackOverflow limit⟩ →
      limit = config.stackLimit ∧ ∃ op, code.opcode? place = some op ∧
        op.stackInputs ≤ stack.size ∧
        config.stackLimit < stack.size - op.stackInputs + op.stackOutputs := by
  intro c e stack
  have result : e.result = (ending c (.start config.gasLimit)).result :=
    execute_result code config observer seen
  have left : stack = (ending c (.start config.gasLimit)).state.stack := by
    simp only [stack, e, execute_state, Ending.settle]
    split <;> rfl
  rw [result, left]
  refine ⟨?_, ?_, ?_⟩
  · intro s op gas fits charged
    have effect := effect_perform (c := c) (s := { s with gas }) (by exact fits)
    have completes := effect_completes (s := { s with gas }) fits effect
    refine ⟨in_range_of_fits fits, completes, ?_⟩
    intro t led
    rw [led] at completes
    exact land_completes completes
  · intro place size required failed
    obtain ⟨aborted, rfl⟩ := Ending.result_eq_error_iff.mp failed
    obtain ⟨op, fetched, unfit⟩ := ending_stack_fault aborted rfl
    rcases stackFault?_eq_some_iff.mp unfit with ⟨short, cause⟩ | ⟨-, -, cause⟩
    · cases cause
      exact ⟨rfl, op, fetched, rfl, short⟩
    · cases cause
  · intro place limit failed
    obtain ⟨aborted, rfl⟩ := Ending.result_eq_error_iff.mp failed
    obtain ⟨op, fetched, unfit⟩ := ending_stack_fault aborted rfl
    rcases stackFault?_eq_some_iff.mp unfit with ⟨-, cause⟩ | ⟨enough, high, cause⟩
    · cases cause
    · cases cause
      exact ⟨rfl, op, fetched, enough, high⟩

theorem stack_effect_of_swap_add_push :
    let swap : Opcode := .swap 1
    let s : State := ⟨0, .ofItems [7, 8, 9], .empty, ⟨5, 5⟩, false⟩
    let add := (Machine.new (.ofBytes [0x01]) ⟨5, 3⟩).execute .silent ()
    let push := (Machine.new (.ofBytes [0x60, 0x01]) ⟨5, 0⟩).execute .silent ()
    swap.InRange ⟨.ofBytes [0x01], 3⟩ s ∧
      swap.Completes s.stack (perform ⟨.ofBytes [0x01], 3⟩ swap { s with gas := ⟨5, 2⟩ }) ∧
      add.result = .error ⟨0, .stackUnderflow 0 2⟩ ∧ 0 = add.machine.state.stack.size ∧
      push.result = .error ⟨0, .stackOverflow 0⟩ := by
  intro swap s add push
  have starved : add.result = .error ⟨0, .stackUnderflow 0 2⟩ := by
    rw [execute_result, Ending.result_eq_error_iff]
    decide +kernel
  have crammed : push.result = .error ⟨0, .stackOverflow 0⟩ := by
    rw [execute_result, Ending.result_eq_error_iff]
    decide +kernel
  obtain ⟨kept, underflow, -⟩ := stack_effect_kept (.ofBytes [0x01]) ⟨5, 3⟩ .silent ()
  obtain ⟨-, -, overflow⟩ := stack_effect_kept (.ofBytes [0x60, 0x01]) ⟨5, 0⟩ .silent ()
  obtain ⟨inRange, completes, -⟩ := kept s swap ⟨5, 2⟩ rfl rfl
  obtain ⟨limit, -⟩ := overflow _ _ crammed
  exact ⟨inRange, completes, starved, (underflow _ _ _ starved).1, by rw [crammed]⟩

end SubroutineVM
