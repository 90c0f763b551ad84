import SubroutineVM.Proofs.Machine.Moves

/-!
Two codes that agree on what an instruction reads. Beside its own byte an instruction reads its
immediate, whether its operand is a place to go to, and where the code ends. Main statement:
where the codes agree on the first three, the moves are the same but for the place behind the
instruction (`step_agrees`).
-/
namespace SubroutineVM

inductive Transition.Alike (here there : Nat) : Transition → Transition → Prop where
  | same (r : Transition) : Alike here there r r
  | apart {t : State} (place : t.pc = here) :
      Alike here there (.next t) (.next { t with pc := there })

def State.behind (c : Context) (op : Opcode) (s : State) : Nat :=
  min (s.pc + 1 + op.immediateLength) c.code.size

def State.TargetsAgree (c d : Context) (s : State) : Prop :=
  ∀ dest below, s.stack.items = dest :: below →
    d.code.isJumpTarget dest.toNat = c.code.isJumpTarget dest.toNat ∧
      d.code.isSubroutineEntry dest.toNat = c.code.isSubroutineEntry dest.toNat

/-- The destination of an instruction is the same place in both codes, if it has one. -/
def State.DestinationAgrees (c d : Context) (s : State) (op : Opcode) : Prop :=
  ∀ dest, s.destination? op = some dest →
    d.code.isJumpTarget dest.toNat = c.code.isJumpTarget dest.toNat ∧
      d.code.isSubroutineEntry dest.toNat = c.code.isSubroutineEntry dest.toNat

theorem State.TargetsAgree.destination {c d : Context} {s : State}
    (targets : s.TargetsAgree c d) (op : Opcode) : s.DestinationAgrees c d op := by
  intro dest asked
  cases items : s.stack.items with
  | nil => cases op <;> simp [destination?, items] at asked
  | cons top below =>
    have same : top = dest := by
      cases op with
      | jump => exact Option.some.inj ((destination?_of_cons items).1.symm.trans asked)
      | jumpsub => exact Option.some.inj ((destination?_of_cons items).2.symm.trans asked)
      | jumpi =>
        cases below with
        | nil => simp [destination?, items] at asked
        | cons condition below =>
          rw [destination?_of_cons_cons items] at asked
          split at asked
          · cases asked
          · exact Option.some.inj asked
      | _ => cases asked
    exact targets dest below (same ▸ items)

open Transition (Alike)

section Instructions

variable {c d : Context} {s : State} {here there : Nat}

theorem popping_alike {move move' : Word → State → Transition}
    (alike : ∀ w u, s.stack.items = w :: u.stack.items → u.pc = s.pc →
      Alike here there (move w u) (move' w u)) :
    Alike here there (s.popping move) (s.popping move') := by
  unfold State.popping
  cases popped : s.stack.pop? with
  | none => exact .same _
  | some top => exact alike top.1 _ (Stack.pop?_eq_some_iff.mp popped) rfl

theorem pushing_alike {w : Word} {move move' : State → Transition}
    (limit : d.stackLimit = c.stackLimit)
    (alike : ∀ u, u.pc = s.pc → Alike here there (move u) (move' u)) :
    Alike here there (s.pushing c w move) (s.pushing d w move') := by
  unfold State.pushing
  rw [limit]
  split
  · exact .same _
  · exact alike _ rfl

theorem advance_alike (n : Nat) : Alike (min (s.pc + 1 + n) c.code.size)
    (min (s.pc + 1 + n) d.code.size) (s.advance c n) (s.advance d n) := .apart rfl

theorem jump_agrees {dest : Word}
    (target : d.code.isJumpTarget dest.toNat = c.code.isJumpTarget dest.toNat) :
    s.jump d dest = s.jump c dest := by
  cases known : c.code.isJumpTarget dest.toNat with
  | false => rw [State.jump_of_stray (target.trans known), State.jump_of_stray known]
  | true => rw [State.jump_of_target (target.trans known), State.jump_of_target known]

theorem callSubroutine_agrees (led : s.DestinationAgrees c d .jumpsub) :
    s.callSubroutine d = s.callSubroutine c := by
  unfold State.callSubroutine
  cases items : s.stack.items with
  | nil => simp [Stack.peek?, items]
  | cons dest below =>
    obtain ⟨-, entry⟩ := led dest (State.destination?_of_cons items).2
    simp [Stack.peek?, items, entry]

theorem perform_alike {op : Opcode} (limit : d.stackLimit = c.stackLimit)
    (immediate : ∀ n, op = .push n →
      d.code.immediate (s.pc + 1) (n + 1) = c.code.immediate (s.pc + 1) (n + 1))
    (led : s.DestinationAgrees c d op) :
    Alike (s.behind c op) (s.behind d op) (perform c op s) (perform d op s) := by
  -- Whatever an instruction has taken or given, it goes on from where it was.
  have goesOn (u : State) (place : u.pc = s.pc) :
      Alike (s.behind c op) (s.behind d op) (u.advance c op.immediateLength)
        (u.advance d op.immediateLength) := by
    rw [State.behind, State.behind, ← place]
    exact advance_alike _
  cases op with simp only [perform]
  | stop | beginsub | returnsub => exact .same _
  | binary f =>
    refine popping_alike ?_
    intro a u _ first
    refine popping_alike ?_
    intro b v _ second
    refine pushing_alike limit ?_
    intro t third
    exact goesOn t (third.trans (second.trans first))
  | unary f =>
    refine popping_alike ?_
    intro a u _ first
    refine pushing_alike limit ?_
    intro t second
    exact goesOn t (second.trans first)
  | pop =>
    refine popping_alike ?_
    intro a u _ place
    exact goesOn u place
  | jump =>
    refine popping_alike ?_
    intro dest u operand _
    obtain ⟨target, -⟩ := led dest (State.destination?_of_cons operand).1
    rw [jump_agrees target]
    exact .same _
  | jumpi =>
    refine popping_alike ?_
    intro dest u operand first
    refine popping_alike ?_
    intro condition v operand' second
    split
    · exact goesOn v (second.trans first)
    · next nonzero =>
      rw [operand'] at operand
      have asked := (State.destination?_of_cons_cons operand).trans (if_neg nonzero)
      obtain ⟨target, -⟩ := led dest asked
      rw [jump_agrees target]
      exact .same _
  | pc | gas =>
    refine pushing_alike limit ?_
    intro u place
    exact goesOn u place
  | push n =>
    rw [immediate n rfl]
    refine pushing_alike limit ?_
    intro u place
    exact goesOn u place
  | jumpdest => exact goesOn s rfl
  | dup n =>
    split
    · exact .same _
    · refine pushing_alike limit ?_
      intro u place
      exact goesOn u place
  | swap n =>
    split
    · exact .same _
    · exact goesOn _ rfl
  | jumpsub =>
    rw [callSubroutine_agrees led]
    exact .same _

end Instructions

/-- Two codes that agree on what an instruction reads do the same with it, but for the place behind
    it. -/
theorem step_alike {c d : Context} {s : State} {op : Opcode} (limit : d.stackLimit = c.stackLimit)
    (fetching : s.landing = false) (fetched : c.code.opcode? s.pc = some op)
    (fetched' : d.code.opcode? s.pc = some op)
    (immediate : ∀ n, op = .push n →
      d.code.immediate (s.pc + 1) (n + 1) = c.code.immediate (s.pc + 1) (n + 1))
    (led : s.DestinationAgrees c d op) :
    Alike (s.behind c op) (s.behind d op) (step c s) (step d s) := by
  have fault : s.stackFault? d op = s.stackFault? c op := by rw [State.stackFault?, limit]; rfl
  rw [step_fetched fetching fetched, step_fetched fetching fetched', execute, execute, fault]
  split
  · exact .same _
  · split
    · exact .same _
    · next gas _ => exact perform_alike (s := { s with gas }) limit immediate led

theorem step_agrees {c d : Context} {s : State} (limit : d.stackLimit = c.stackLimit)
    (bytes : d.code.byte? s.pc = c.code.byte? s.pc)
    (immediate : ∀ n, c.code.opcode? s.pc = some (.push n) →
      d.code.immediate (s.pc + 1) (n + 1) = c.code.immediate (s.pc + 1) (n + 1))
    (led : ∀ op, c.code.opcode? s.pc = some op → s.DestinationAgrees c d op) :
    step d s = step c s ∨ ∃ op t, c.code.opcode? s.pc = some op ∧ step c s = .next t ∧
      t.pc = s.behind c op ∧ step d s = .next { t with pc := s.behind d op } := by
  cases landing : s.landing with
  | true =>
    left
    rw [step_landing landing, step_landing landing]
  | false =>
    cases here : c.code.byte? s.pc with
    | none =>
      left
      rw [step_ended landing here, step_ended landing (bytes.trans here)]
    | some byte =>
      cases decoded : Opcode.ofByte? byte with
      | none =>
        left
        rw [step_undefined landing here decoded, step_undefined landing (bytes.trans here) decoded]
      | some op =>
        have fetched : c.code.opcode? s.pc = some op := by
          rw [Code.opcode?, here, Option.bind_some, decoded]
        have fetched' : d.code.opcode? s.pc = some op := by
          rw [Code.opcode?, bytes, here, Option.bind_some, decoded]
        have alike := step_alike limit landing fetched fetched'
          (fun n same => immediate n (same ▸ fetched)) (led op fetched)
        generalize step d s = r' at alike ⊢
        generalize step c s = r at alike ⊢
        cases alike with
        | same => exact .inl rfl
        | apart place => exact .inr ⟨op, _, fetched, rfl, place, rfl⟩

end SubroutineVM
