import SubroutineVM.Machine.Step

/-!
One move of an execution as a relation beside the function. `Effect` lists what an instruction
that has passed its checks and is paid for can do, and `Move` what a move can do. Main
statement: every move is in the list (`move_step`), so that an invariant is a case analysis.
-/
namespace SubroutineVM

namespace Stack

variable {α : Type} {s t : Stack α} {a : α}

theorem size_of_cons (items : s.items = a :: t.items) : s.size = t.size + 1 := by
  rw [s.size_eq, t.size_eq, items, List.length_cons]

theorem size_of_cons_cons {b : α} (items : s.items = a :: b :: t.items) : s.size = t.size + 2 := by
  rw [s.size_eq, t.size_eq, items, List.length_cons, List.length_cons]

theorem exists_cons (nonempty : 0 < s.size) : ∃ a, ∃ t : Stack α, s.items = a :: t.items := by
  cases h : s.items with
  | nil =>
    have := s.size_eq
    simp only [h, List.length_nil] at this
    omega
  | cons a rest => exact ⟨a, ofItems rest, rfl⟩

theorem exists_cons_cons (two : 2 ≤ s.size) :
    ∃ a b, ∃ t : Stack α, s.items = a :: b :: t.items := by
  obtain ⟨a, above, first⟩ := exists_cons (s := s) (by omega)
  have height := size_of_cons first
  obtain ⟨b, t, second⟩ := exists_cons (s := above) (by omega)
  exact ⟨a, b, t, by rw [first, second]⟩

theorem peek?_top {rest : List α} (items : s.items = a :: rest) : s.peek? 0 = some a := by
  rw [peek?, items, List.getElem?_cons_zero]

theorem peek?_second {b : α} {rest : List α} (items : s.items = a :: b :: rest) :
    s.peek? 1 = some b := by
  rw [peek?, items, List.getElem?_cons_succ, List.getElem?_cons_zero]

end Stack

def Opcode.isSequential : Opcode → Bool
  | .stop | .jump | .jumpi | .beginsub | .jumpsub | .returnsub => false
  | _ => true

def Code.isJumpTarget (c : Code) (offset : Nat) : Bool :=
  c.isJumpDestination offset || c.isSubroutineEntry offset

/-- The word that an instruction goes to. A JUMPI whose condition is zero does not look at it. -/
def State.destination? (op : Opcode) (s : State) : Option Word :=
  match op, s.stack.items with
  | .jump, dest :: _ | .jumpsub, dest :: _ => some dest
  | .jumpi, dest :: condition :: _ => if condition = 0 then none else some dest
  | _, _ => none

def State.goTo (s : State) (pc : Nat) (stack : Stack Word) : State := { s with pc, stack }

def State.paid (s : State) (cost : Nat) : State :=
  { s with gas := ⟨s.gas.limit, s.gas.remaining - cost⟩ }

namespace State

variable {s : State} {op : Opcode} {dest condition : Word} {below : List Word}

theorem destination?_sequential (inSequence : op.isSequential = true) :
    s.destination? op = none := by
  cases op with
  | jump | jumpi | jumpsub => cases inSequence
  | _ => rfl

theorem destination?_of_cons (operand : s.stack.items = dest :: below) :
    s.destination? .jump = some dest ∧ s.destination? .jumpsub = some dest := by
  simp [destination?, operand]

theorem destination?_of_cons_cons (operands : s.stack.items = dest :: condition :: below) :
    s.destination? .jumpi = if condition = 0 then none else some dest := by
  simp [destination?, operands]

end State

/-- What an instruction can do in a state that suits its stack effect, when it is paid for. -/
inductive Effect (c : Context) (s : State) : Opcode → Transition → Prop where
  | stop : Effect c s .stop (.halt s)
  | sequential {op : Opcode} {stack : Stack Word} (inSequence : op.isSequential = true)
      (height : stack.size + op.stackInputs = s.stack.size + op.stackOutputs)
      (below : stack.items.drop op.stackOutputs = s.stack.items.drop op.stackInputs) :
      Effect c s op (.next (s.goTo (min (s.pc + 1 + op.immediateLength) c.code.size) stack))
  | jump {dest : Word} {stack : Stack Word} (operand : s.stack.items = dest :: stack.items)
      (target : c.code.isJumpTarget dest.toNat = true) :
      Effect c s .jump (.next (s.goTo dest.toNat stack))
  | strayJump {dest : Word} {stack : Stack Word} (operand : s.stack.items = dest :: stack.items)
      (stray : c.code.isJumpTarget dest.toNat = false) :
      Effect c s .jump (.fault { s with stack } (.invalidJumpDestination dest))
  | untaken {dest : Word} {stack : Stack Word}
      (operands : s.stack.items = dest :: 0 :: stack.items) :
      Effect c s .jumpi (.next (s.goTo (min (s.pc + 1) c.code.size) stack))
  | taken {dest condition : Word} {stack : Stack Word}
      (operands : s.stack.items = dest :: condition :: stack.items) (nonzero : condition ≠ 0)
      (target : c.code.isJumpTarget dest.toNat = true) :
      Effect c s .jumpi (.next (s.goTo dest.toNat stack))
  | strayBranch {dest condition : Word} {stack : Stack Word}
      (operands : s.stack.items = dest :: condition :: stack.items) (nonzero : condition ≠ 0)
      (stray : c.code.isJumpTarget dest.toNat = false) :
      Effect c s .jumpi (.fault { s with stack } (.invalidJumpDestination dest))
  | fetchedEntry : Effect c s .beginsub (.fault s .outOfGas)
  | call {dest : Word} {stack : Stack Word} (operand : s.stack.items = dest :: stack.items)
      (entry : c.code.isSubroutineEntry dest.toNat = true)
      (room : s.returns.size < ReturnStack.limit) :
      Effect c s .jumpsub (.next { s with
        pc := dest.toNat, stack, returns := Stack.push s.returns (s.pc + 1), landing := true })
  | strayCall {dest : Word} {stack : Stack Word} (operand : s.stack.items = dest :: stack.items)
      (stray : c.code.isSubroutineEntry dest.toNat = false) :
      Effect c s .jumpsub (.fault s (.invalidJumpDestination dest))
  | deepCall {dest : Word} {stack : Stack Word} (operand : s.stack.items = dest :: stack.items)
      (entry : c.code.isSubroutineEntry dest.toNat = true)
      (full : ReturnStack.limit ≤ s.returns.size) :
      Effect c s .jumpsub (.fault s .returnStackOverflow)
  | back {address : Nat} {returns : ReturnStack}
      (saved : s.returns.items = address :: returns.items) :
      Effect c s .returnsub (.next { s with pc := address, returns })
  | strayReturn (bare : s.returns.items = []) :
      Effect c s .returnsub (.fault s .returnStackUnderflow)

/-- What a move can do. The state that an opcode is performed in has paid its cost. -/
inductive Move (c : Context) (s : State) : Transition → Prop where
  | landed (landing : s.landing = true) (enough : Opcode.beginsub.cost ≤ s.gas.remaining) :
      Move c s (.next { s.paid Opcode.beginsub.cost with pc := s.pc + 1, landing := false })
  | unpaidLanding (landing : s.landing = true) (short : s.gas.remaining < Opcode.beginsub.cost) :
      Move c s (.fault s .outOfGas)
  | ended (fetching : s.landing = false) (none : c.code.byte? s.pc = none) : Move c s (.halt s)
  | undefined {byte : UInt8} (fetching : s.landing = false)
      (fetched : c.code.byte? s.pc = some byte) (unknown : Opcode.ofByte? byte = none) :
      Move c s (.fault s (.invalidOpcode byte))
  | unsuited {op : Opcode} {cause : Cause} (fetching : s.landing = false)
      (fetched : c.code.opcode? s.pc = some op) (unfit : s.stackFault? c op = some cause) :
      Move c s (.fault s cause)
  | unpaid {op : Opcode} (fetching : s.landing = false) (fetched : c.code.opcode? s.pc = some op)
      (fits : s.stackFault? c op = none) (short : s.gas.remaining < op.cost) :
      Move c s (.fault s .outOfGas)
  | performed {op : Opcode} {result : Transition} (fetching : s.landing = false)
      (fetched : c.code.opcode? s.pc = some op) (fits : s.stackFault? c op = none)
      (enough : op.cost ≤ s.gas.remaining)
      (effect : Effect c (s.paid op.cost) op result) : Move c s result

namespace State

variable {c : Context} {s : State}

theorem stackFault?_eq_none_iff {op : Opcode} :
    s.stackFault? c op = none ↔ op.stackInputs ≤ s.stack.size ∧
      s.stack.size - op.stackInputs + op.stackOutputs ≤ c.stackLimit := by
  unfold stackFault?
  split
  · simp only [reduceCtorEq, false_iff]
    omega
  · split
    · simp only [reduceCtorEq, false_iff]
      omega
    · simp only [true_iff]
      omega

theorem popping_cons {top : Word} {stack : Stack Word} {move : Word → State → Transition}
    (items : s.stack.items = top :: stack.items) :
    s.popping move = move top { s with stack } := by
  rw [popping, Stack.pop?_eq_some_iff.mpr items]

theorem popping_cons_cons {first second : Word} {stack : Stack Word}
    {move : Word → Word → State → Transition}
    (items : s.stack.items = first :: second :: stack.items) :
    (s.popping fun a u => u.popping fun b v => move a b v) =
      move first second { s with stack } := by
  let above : Stack Word := .ofItems (second :: stack.items)
  have top : s.stack.items = first :: above.items := items
  rw [popping_cons top]
  exact popping_cons rfl

theorem pushing_of_room {w : Word} {move : State → Transition}
    (room : s.stack.size < c.stackLimit) :
    s.pushing c w move = move { s with stack := s.stack.push w } := by
  rw [pushing, if_neg (Nat.not_le.mpr room)]

theorem jump_of_target {dest : Word} (target : c.code.isJumpTarget dest.toNat = true) :
    s.jump c dest = .next (s.goTo dest.toNat s.stack) := if_pos target

theorem jump_of_stray {dest : Word} (stray : c.code.isJumpTarget dest.toNat = false) :
    s.jump c dest = .fault s (.invalidJumpDestination dest) :=
  if_neg (Bool.not_eq_true _ ▸ stray)

theorem callSubroutine_of_entry {dest : Word} {stack : Stack Word}
    (operand : s.stack.items = dest :: stack.items)
    (entry : c.code.isSubroutineEntry dest.toNat = true)
    (room : s.returns.size < ReturnStack.limit) : s.callSubroutine c = .next { s with
      pc := dest.toNat, stack, returns := Stack.push s.returns (s.pc + 1), landing := true } := by
  simp only [callSubroutine, Stack.peek?_top operand, entry, if_true, ReturnStack.save,
    if_neg (Nat.not_le.mpr room)]
  rw [popping_cons (by exact operand)]

theorem callSubroutine_of_stray {dest : Word} {below : List Word}
    (operand : s.stack.items = dest :: below)
    (stray : c.code.isSubroutineEntry dest.toNat = false) :
    s.callSubroutine c = .fault s (.invalidJumpDestination dest) := by
  simp [callSubroutine, Stack.peek?_top operand, stray]

theorem callSubroutine_of_full {dest : Word} {below : List Word}
    (operand : s.stack.items = dest :: below)
    (entry : c.code.isSubroutineEntry dest.toNat = true)
    (full : ReturnStack.limit ≤ s.returns.size) :
    s.callSubroutine c = .fault s .returnStackOverflow := by
  simp [callSubroutine, Stack.peek?_top operand, entry, ReturnStack.save, full]

end State

theorem pushing_next {c : Context} {s : State} {op : Opcode} {below : Stack Word} (w : Word)
    (one : op.stackOutputs = 1) (fits : s.stackFault? c op = none)
    (height : s.stack.size = below.size + op.stackInputs) :
    { s with stack := below }.pushing c w (State.advance c op.immediateLength) =
      .next (s.goTo (min (s.pc + 1 + op.immediateLength) c.code.size) (below.push w)) := by
  obtain ⟨-, room⟩ := State.stackFault?_eq_none_iff.mp fits
  rw [State.pushing_of_room (by simp only; omega)]
  rfl

theorem effect_pushing {c : Context} {s : State} {op : Opcode} {w : Word} (below : Stack Word)
    (inSequence : op.isSequential = true) (one : op.stackOutputs = 1)
    (fits : s.stackFault? c op = none) (height : s.stack.size = below.size + op.stackInputs)
    (rest : s.stack.items.drop op.stackInputs = below.items) :
    Effect c s op ({ s with stack := below }.pushing c w (State.advance c op.immediateLength)) := by
  rw [pushing_next w one fits height]
  refine .sequential inSequence ?_ ?_
  · simp only [Stack.size_push]
    omega
  · rw [one, rest]
    rfl

theorem effect_jump {c : Context} {s : State}
    (fits : s.stackFault? c .jump = none) : Effect c s .jump (perform c .jump s) := by
  obtain ⟨enough, -⟩ := State.stackFault?_eq_none_iff.mp fits
  obtain ⟨dest, stack, operand⟩ := Stack.exists_cons (s := s.stack) enough
  rw [perform, State.popping_cons operand]
  cases target : c.code.isJumpTarget dest.toNat with
  | false =>
    rw [State.jump_of_stray target]
    exact .strayJump operand target
  | true =>
    rw [State.jump_of_target target]
    exact .jump operand target

theorem effect_jumpi {c : Context} {s : State}
    (fits : s.stackFault? c .jumpi = none) : Effect c s .jumpi (perform c .jumpi s) := by
  obtain ⟨enough, -⟩ := State.stackFault?_eq_none_iff.mp fits
  obtain ⟨dest, condition, stack, operands⟩ := Stack.exists_cons_cons (s := s.stack) enough
  rw [perform, State.popping_cons_cons operands]
  by_cases zero : condition = 0
  · subst zero
    exact .untaken operands
  · rw [if_neg zero]
    cases target : c.code.isJumpTarget dest.toNat with
    | false =>
      rw [State.jump_of_stray target]
      exact .strayBranch operands zero target
    | true =>
      rw [State.jump_of_target target]
      exact .taken operands zero target

theorem effect_jumpsub {c : Context} {s : State}
    (fits : s.stackFault? c .jumpsub = none) : Effect c s .jumpsub (perform c .jumpsub s) := by
  obtain ⟨enough, -⟩ := State.stackFault?_eq_none_iff.mp fits
  obtain ⟨dest, stack, operand⟩ := Stack.exists_cons (s := s.stack) enough
  rw [perform]
  cases entry : c.code.isSubroutineEntry dest.toNat with
  | false =>
    rw [State.callSubroutine_of_stray operand entry]
    exact .strayCall operand entry
  | true =>
    rcases Nat.lt_or_ge s.returns.size ReturnStack.limit with room | full
    · rw [State.callSubroutine_of_entry operand entry room]
      exact .call operand entry room
    · rw [State.callSubroutine_of_full operand entry full]
      exact .deepCall operand entry full

theorem effect_returnsub {c : Context} {s : State} :
    Effect c s .returnsub (perform c .returnsub s) := by
  simp only [perform, State.endSubroutine, ReturnStack.restore]
  cases popped : Stack.pop? s.returns with
  | none =>
    have empty : s.returns.size = 0 := Stack.pop?_eq_none_iff.mp popped
    exact .strayReturn (List.eq_nil_of_length_eq_zero (s.returns.size_eq ▸ empty))
  | some top => exact .back (Stack.pop?_eq_some_iff.mp popped)

/-- A paid instruction in a state that suits its stack effect does one of the things listed, and the
    checks inside it never fail. -/
theorem effect_perform {c : Context} {op : Opcode} {s : State}
    (fits : s.stackFault? c op = none) : Effect c s op (perform c op s) := by
  obtain ⟨enough, room⟩ := State.stackFault?_eq_none_iff.mp fits
  cases op with
  | stop => exact .stop
  | binary f =>
    obtain ⟨a, b, stack, operands⟩ := Stack.exists_cons_cons (s := s.stack) enough
    rw [perform, State.popping_cons_cons operands]
    exact effect_pushing stack rfl rfl fits (Stack.size_of_cons_cons operands)
      (by rw [operands]; rfl)
  | unary f =>
    obtain ⟨a, stack, first⟩ := Stack.exists_cons (s := s.stack) enough
    have height := Stack.size_of_cons first
    rw [perform, State.popping_cons first]
    exact effect_pushing stack rfl rfl fits height (by rw [first]; rfl)
  | pop =>
    obtain ⟨a, stack, first⟩ := Stack.exists_cons (s := s.stack) enough
    have height := Stack.size_of_cons first
    rw [perform, State.popping_cons first]
    exact .sequential rfl height.symm (by rw [first]; rfl)
  | jump => exact effect_jump fits
  | jumpi => exact effect_jumpi fits
  | pc => exact effect_pushing s.stack rfl rfl fits rfl rfl
  | gas => exact effect_pushing s.stack rfl rfl fits rfl rfl
  | jumpdest => exact Effect.sequential rfl rfl rfl
  | push n => exact effect_pushing s.stack rfl rfl fits rfl rfl
  | dup n =>
    simp only [Opcode.stackInputs, Opcode.stackOutputs] at enough room
    have inside : n.val < s.stack.items.length := by rw [← s.stack.size_eq]; omega
    have peeked : s.stack.peek? n = some s.stack.items[n] := List.getElem?_eq_getElem inside
    simp only [perform, peeked]
    rw [State.pushing_of_room (by omega)]
    refine .sequential rfl ?_ ?_
    · simp only [Stack.size_push, Opcode.stackInputs, Opcode.stackOutputs]
      omega
    · rfl
  | swap n =>
    simp only [Opcode.stackInputs] at enough
    obtain ⟨a, above, first⟩ := Stack.exists_cons (s := s.stack) (by omega)
    have height := Stack.size_of_cons first
    have inside : n.val < above.items.length := by rw [← above.size_eq]; omega
    let swapped : Stack Word := .ofItems (above.items[n] :: above.items.set n a)
    have exchanged : s.stack.swap? n = some swapped := Stack.swap?_eq_some_iff.mpr
      ⟨a, above.items[n], above.items, first, List.getElem?_eq_getElem inside, rfl⟩
    simp only [perform, exchanged]
    refine .sequential rfl ?_ ?_
    · simp [swapped, Stack.ofItems, height, above.size_eq, Opcode.stackInputs, Opcode.stackOutputs]
    · rw [first]
      exact List.drop_set_of_lt (Nat.lt_succ_self n)
  | beginsub => exact .fetchedEntry
  | jumpsub => exact effect_jumpsub fits
  | returnsub => exact effect_returnsub

section Step

variable {c : Context} {s : State} {op : Opcode}

theorem land_paid (enough : Opcode.beginsub.cost ≤ s.gas.remaining) :
    land s = .next { s.paid Opcode.beginsub.cost with pc := s.pc + 1, landing := false } := by
  rw [land, GasMeter.charge?_eq_some_iff.mpr ⟨enough, rfl⟩]
  rfl

theorem land_unpaid (short : s.gas.remaining < Opcode.beginsub.cost) :
    land s = .fault s .outOfGas := by
  rw [land, GasMeter.charge?_eq_none_iff.mpr short]

theorem execute_unsuited {cause : Cause} (unfit : s.stackFault? c op = some cause) :
    execute c op s = .fault s cause := by
  rw [execute, unfit]

theorem execute_paid (fits : s.stackFault? c op = none) (enough : op.cost ≤ s.gas.remaining) :
    execute c op s = perform c op (s.paid op.cost) := by
  rw [execute, fits, GasMeter.charge?_eq_some_iff.mpr ⟨enough, rfl⟩]
  rfl

theorem execute_unpaid (fits : s.stackFault? c op = none) (short : s.gas.remaining < op.cost) :
    execute c op s = .fault s .outOfGas := by
  rw [execute, fits, GasMeter.charge?_eq_none_iff.mpr short]

theorem step_landing (landing : s.landing = true) : step c s = land s := by
  rw [step, if_pos landing]

theorem step_ended (fetching : s.landing = false) (none : c.code.byte? s.pc = none) :
    step c s = .halt s := by
  rw [step, if_neg (by rw [fetching]; decide), none]

theorem step_undefined {byte : UInt8} (fetching : s.landing = false)
    (fetched : c.code.byte? s.pc = some byte) (unknown : Opcode.ofByte? byte = none) :
    step c s = .fault s (.invalidOpcode byte) := by
  rw [step, if_neg (by rw [fetching]; decide), fetched]
  simp only [unknown]

theorem step_fetched (fetching : s.landing = false) (fetched : c.code.opcode? s.pc = some op) :
    step c s = execute c op s := by
  rw [Code.opcode?, Option.bind_eq_some_iff] at fetched
  obtain ⟨byte, here, decoded⟩ := fetched
  rw [step, if_neg (by rw [fetching]; decide), here]
  simp only [decoded]

end Step

theorem move_step (c : Context) (s : State) : Move c s (step c s) := by
  cases landing : s.landing with
  | true =>
    rw [step_landing landing]
    rcases Nat.lt_or_ge s.gas.remaining Opcode.beginsub.cost with short | enough
    · rw [land_unpaid short]
      exact .unpaidLanding landing short
    · rw [land_paid enough]
      exact .landed landing enough
  | false =>
    cases here : c.code.byte? s.pc with
    | none =>
      rw [step_ended landing here]
      exact .ended landing here
    | some byte =>
      cases decoded : Opcode.ofByte? byte with
      | none =>
        rw [step_undefined landing here decoded]
        exact .undefined landing here decoded
      | some op =>
        have fetched : c.code.opcode? s.pc = some op := by
          rw [Code.opcode?, here, Option.bind_some, decoded]
        rw [step_fetched landing fetched]
        cases fits : s.stackFault? c op with
        | some cause =>
          rw [execute_unsuited fits]
          exact .unsuited landing fetched fits
        | none =>
          rcases Nat.lt_or_ge s.gas.remaining op.cost with short | enough
          · rw [execute_unpaid fits short]
            exact .unpaid landing fetched fits short
          · rw [execute_paid fits enough]
            exact .performed landing fetched fits enough (effect_perform (by exact fits))

theorem move_of {c : Context} {s : State} {result : Transition} (moved : step c s = result) :
    Move c s result := moved ▸ move_step c s

section Push

variable {c : Context} {s t : State} {n : Fin 32}

theorem step_push (fetching : s.landing = false) (fetched : c.code.opcode? s.pc = some (.push n))
    (fits : s.stackFault? c (.push n) = none)
    (enough : (Opcode.push n).cost ≤ s.gas.remaining) :
    step c s = .next ((s.paid (Opcode.push n).cost).goTo (min (s.pc + 1 + (n + 1)) c.code.size)
      (s.stack.push (c.code.immediate (s.pc + 1) (n + 1)))) := by
  obtain ⟨-, room⟩ := State.stackFault?_eq_none_iff.mp fits
  rw [step_fetched fetching fetched, execute_paid fits enough, perform,
    State.pushing_of_room (by exact room)]
  rfl

theorem push_moved (fetching : s.landing = false) (fetched : c.code.opcode? s.pc = some (.push n))
    (moved : step c s = .next t) : t.pc = min (s.pc + 1 + (n + 1)) c.code.size ∧
      t.stack = s.stack.push (c.code.immediate (s.pc + 1) (n + 1)) := by
  cases move_of moved with
  | landed landing => cases fetching.symm.trans landing
  | performed _ fetched' fits enough =>
    cases fetched.symm.trans fetched'
    rw [step_push fetching fetched fits enough] at moved
    cases moved
    exact ⟨rfl, rfl⟩

end Push

end SubroutineVM
