import SubroutineVM.Machine.State

/-!
One move of an execution. An instruction is fetched, decoded, checked against its stack effect,
charged and performed, in this order. Main statement: a move that leads on uses gas
(`step_decreases`), so that every execution ends.
-/
namespace SubroutineVM

def State.stackFault? (c : Context) (op : Opcode) (s : State) : Option Cause :=
  if s.stack.size < op.stackInputs then some (.stackUnderflow s.stack.size op.stackInputs)
  else if c.stackLimit < s.stack.size - op.stackInputs + op.stackOutputs then
    some (.stackOverflow c.stackLimit)
  else none

/-- The effect of an instruction that has passed its checks and is paid for. A BEGINSUB that is
    fetched like any other instruction is never paid for. -/
def perform (c : Context) (op : Opcode) (s : State) : Transition :=
  match op with
  | .stop => .halt s
  | .binary f => s.popping fun a s => s.popping fun b s =>
    s.pushing c (f.apply a b) (State.advance c 0)
  | .unary f => s.popping fun a s => s.pushing c (f.apply a) (State.advance c 0)
  | .pop => s.popping fun _ s => s.advance c 0
  | .jump => s.popping fun dest s => s.jump c dest
  | .jumpi => s.popping fun dest s => s.popping fun condition s =>
    if condition = 0 then s.advance c 0 else s.jump c dest
  | .pc => s.pushing c (BitVec.ofNat 256 s.pc) (State.advance c 0)
  | .gas => s.pushing c (BitVec.ofNat 256 s.gas.remaining) (State.advance c 0)
  | .jumpdest => s.advance c 0
  | .push n => s.pushing c (c.code.immediate (s.pc + 1) (n + 1)) (State.advance c (n + 1))
  | .dup n =>
    match s.stack.peek? n with
    | none => .fault s (.stackUnderflow s.stack.size (n + 1))
    | some w => s.pushing c w (State.advance c 0)
  | .swap n =>
    match s.stack.swap? n with
    | none => .fault s (.stackUnderflow s.stack.size (n + 2))
    | some stack => { s with stack }.advance c 0
  | .beginsub => .fault s .outOfGas
  | .jumpsub => s.callSubroutine c
  | .returnsub => s.endSubroutine

def land (s : State) : Transition :=
  match s.gas.charge? Opcode.beginsub.cost with
  | none => .fault s .outOfGas
  | some gas => .next { s with pc := s.pc + 1, gas, landing := false }

def execute (c : Context) (op : Opcode) (s : State) : Transition :=
  match s.stackFault? c op with
  | some cause => .fault s cause
  | none =>
    match s.gas.charge? op.cost with
    | none => .fault s .outOfGas
    | some gas => perform c op { s with gas }

def step (c : Context) (s : State) : Transition :=
  if s.landing then land s
  else match c.code.byte? s.pc with
    | none => .halt s
    | some byte =>
      match Opcode.ofByte? byte with
      | none => .fault s (.invalidOpcode byte)
      | some op => execute c op s

namespace State

variable {c : Context} {s t : State} {g : GasMeter}

theorem popping_gas {move : Word → State → Transition} (start : s.gas = g)
    (keeps : ∀ w u, u.gas = g → move w u = .next t → t.gas = g) (h : s.popping move = .next t) :
    t.gas = g := by
  unfold popping at h
  split at h
  · cases h
  · exact keeps _ _ (by exact start) h

theorem pushing_gas {w : Word} {move : State → Transition} (start : s.gas = g)
    (keeps : ∀ u, u.gas = g → move u = .next t → t.gas = g) (h : s.pushing c w move = .next t) :
    t.gas = g := by
  unfold pushing at h
  split at h
  · cases h
  · exact keeps _ (by exact start) h

theorem advance_gas {n : Nat} (start : s.gas = g) (h : s.advance c n = .next t) : t.gas = g := by
  cases h
  exact start

theorem jump_gas {dest : Word} (start : s.gas = g) (h : s.jump c dest = .next t) : t.gas = g := by
  unfold jump at h
  split at h
  · cases h
    exact start
  · cases h

theorem callSubroutine_gas (start : s.gas = g) (h : s.callSubroutine c = .next t) : t.gas = g := by
  unfold callSubroutine at h
  split at h
  · cases h
  · split at h
    · split at h
      · cases h
      · refine popping_gas (by exact start) (fun _ _ same moved => ?_) h
        cases moved
        exact same
    · cases h

theorem endSubroutine_gas (start : s.gas = g) (h : s.endSubroutine = .next t) : t.gas = g := by
  unfold endSubroutine at h
  split at h <;> cases h
  exact start

end State

open State in
theorem perform_gas {c : Context} {op : Opcode} {s t : State} (h : perform c op s = .next t) :
    t.gas = s.gas := by
  cases op with simp only [perform] at h
  | stop | beginsub => cases h
  | binary f =>
    exact popping_gas rfl (fun _ _ a => popping_gas a fun _ _ b =>
      pushing_gas b fun _ => advance_gas) h
  | unary f => exact popping_gas rfl (fun _ _ a => pushing_gas a fun _ => advance_gas) h
  | pop => exact popping_gas rfl (fun _ _ => advance_gas) h
  | jump => exact popping_gas rfl (fun _ _ => jump_gas) h
  | jumpi =>
    refine popping_gas rfl (fun _ _ a => popping_gas a fun _ _ b moved => ?_) h
    split at moved
    · exact advance_gas b moved
    · exact jump_gas b moved
  | pc | gas | push => exact pushing_gas rfl (fun _ => advance_gas) h
  | jumpdest => exact advance_gas rfl h
  | dup n =>
    split at h
    · cases h
    · exact pushing_gas rfl (fun _ => advance_gas) h
  | swap n =>
    split at h
    · cases h
    · exact advance_gas (by exact rfl) h
  | jumpsub => exact callSubroutine_gas rfl h
  | returnsub => exact endSubroutine_gas rfl h

theorem cost_pos {op : Opcode} (h : op ≠ .stop) : 0 < op.cost := by
  cases op with
  | stop => exact absurd rfl h
  | binary f => cases f <;> decide
  | _ => simp [Opcode.cost]

theorem step_decreases {c : Context} {s t : State} (h : step c s = .next t) :
    t.gas.remaining < s.gas.remaining := by
  unfold step at h
  split at h
  · unfold land at h
    split at h
    · cases h
    · next charged =>
      cases h
      obtain ⟨enough, rfl⟩ := GasMeter.charge?_eq_some_iff.mp charged
      simp only [Opcode.cost] at enough ⊢
      omega
  · split at h
    · cases h
    · split at h
      · cases h
      · next op _ =>
        unfold execute at h
        split at h
        · cases h
        · split at h
          · cases h
          · next charged =>
            obtain ⟨enough, rfl⟩ := GasMeter.charge?_eq_some_iff.mp charged
            have free : op ≠ .stop := by
              rintro rfl
              cases h
            have pos := cost_pos free
            rw [perform_gas h]
            simp only
            omega

end SubroutineVM
