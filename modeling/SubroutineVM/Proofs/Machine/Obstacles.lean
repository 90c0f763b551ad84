import SubroutineVM.Proofs.Code.Instructions
import SubroutineVM.Proofs.Machine.Budget
import SubroutineVM.Proofs.Machine.Safety
import SubroutineVM.Proofs.Machine.StackEffect

/-!
Which fault an instruction has. `Arises` says of each obstacle, without regard to the others, when
it is in the way of an instruction and which fault it makes. Where several arise, the one that is
looked for first decides. Main statement: `first_obstacle_decides`.
-/
namespace SubroutineVM

def Opcode.landsOn : Opcode → List Opcode
  | .jump | .jumpi => [.jumpdest, .beginsub]
  | .jumpsub => [.beginsub]
  | _ => []

def Code.Admits (c : Code) (op : Opcode) (dest : Nat) : Prop :=
  dest < c.size ∧ c.isOpcodeOffset dest = true ∧
    ∃ mark ∈ op.landsOn, c.byte? dest = some mark.toByte

inductive Obstacle where
  | undefined | underflow | overflow | unpaid | astray | deep | unlanded | bare
  deriving DecidableEq

namespace Obstacle

def rank : Obstacle → Nat
  | .undefined => 0
  | .underflow => 1
  | .overflow => 2
  | .unpaid => 3
  | .astray => 4
  | .deep => 5
  | .unlanded => 6
  | .bare => 7

/-- When an obstacle is in the way of the instruction at the program counter, and the fault that it
    makes. A call is an obstacle to itself where the landing behind it cannot be paid as well. -/
inductive Arises (c : Context) (s : State) : Obstacle → Fault → Prop where
  | undefined {byte : UInt8} (here : c.code.byte? s.pc = some byte)
      (unknown : ∀ op : Opcode, op.toByte ≠ byte) :
      Arises c s .undefined ⟨s.pc, .invalidOpcode byte⟩
  | underflow {op : Opcode} (fetched : c.code.opcode? s.pc = some op)
      (few : s.stack.size < op.stackInputs) :
      Arises c s .underflow ⟨s.pc, .stackUnderflow s.stack.size op.stackInputs⟩
  | overflow {op : Opcode} (fetched : c.code.opcode? s.pc = some op)
      (many : c.stackLimit < s.stack.size - op.stackInputs + op.stackOutputs) :
      Arises c s .overflow ⟨s.pc, .stackOverflow c.stackLimit⟩
  | unpaid {op : Opcode} (fetched : c.code.opcode? s.pc = some op)
      (short : s.gas.remaining < op.cost ∨ op = .beginsub) :
      Arises c s .unpaid ⟨s.pc, .outOfGas⟩
  | astray {op : Opcode} {dest : Word} (fetched : c.code.opcode? s.pc = some op)
      (asked : s.destination? op = some dest) (nowhere : ¬ c.code.Admits op dest.toNat) :
      Arises c s .astray ⟨s.pc, .invalidJumpDestination dest⟩
  | deep (fetched : c.code.opcode? s.pc = some .jumpsub)
      (full : s.returns.size = ReturnStack.limit) :
      Arises c s .deep ⟨s.pc, .returnStackOverflow⟩
  | unlanded {dest : Word} (fetched : c.code.opcode? s.pc = some .jumpsub)
      (asked : s.destination? .jumpsub = some dest)
      (short : s.gas.remaining < Opcode.jumpsub.cost + Opcode.beginsub.cost) :
      Arises c s .unlanded ⟨dest.toNat, .outOfGas⟩
  | bare (fetched : c.code.opcode? s.pc = some .returnsub) (none : s.returns.size = 0) :
      Arises c s .bare ⟨s.pc, .returnStackUnderflow⟩

structure IsFirst (c : Context) (s : State) (o : Obstacle) (f : Fault) : Prop where
  arises : o.Arises c s f
  before : ∀ (p : Obstacle) (g : Fault), p.rank < o.rank → ¬ p.Arises c s g

end Obstacle

def Transition.fault? : Transition → Option Fault
  | .fault s cause => some ⟨s.pc, cause⟩
  | _ => none

section Destinations

variable {c : Code} {place : Nat}

theorem Code.admits_iff_exists_holds :
    c.Admits op place ↔ ∃ mark ∈ op.landsOn, c.holds place mark = true := by
  simp only [Admits, Code.holds_iff, Code.opcode?_eq_some_iff]
  constructor
  · rintro ⟨-, marked, mark, member, here⟩
    exact ⟨mark, member, marked, here⟩
  · rintro ⟨mark, member, marked, here⟩
    exact ⟨Code.marked_lt_size marked, marked, mark, member, here⟩

theorem Code.admits_jump_iff : c.Admits .jump place ↔ c.isJumpTarget place = true := by
  simp [Code.admits_iff_exists_holds, Opcode.landsOn, isJumpTarget, isJumpDestination,
    isSubroutineEntry]

theorem Code.admits_jumpi_iff : c.Admits .jumpi place ↔ c.isJumpTarget place = true :=
  Code.admits_jump_iff

theorem Code.admits_jumpsub_iff : c.Admits .jumpsub place ↔ c.isSubroutineEntry place = true := by
  simp [Code.admits_iff_exists_holds, Opcode.landsOn, isSubroutineEntry]

end Destinations

section Rounds

variable {c : Context} {s : State}

theorem step_performed {op : Opcode} (fetching : s.landing = false)
    (fetched : c.code.opcode? s.pc = some op) (fits : s.stackFault? c op = none)
    (enough : op.cost ≤ s.gas.remaining) : Effect c (s.paid op.cost) op (step c s) := by
  rw [step_fetched fetching fetched, execute_paid fits enough]
  exact effect_perform (by exact fits)

end Rounds

namespace Obstacle

variable {c : Context} {s t : State} {cause : Cause} {o : Obstacle} {f : Fault} {op : Opcode}

theorem arises_of_unfit (fetched : c.code.opcode? s.pc = some op)
    (unfit : s.stackFault? c op = some cause) : ∃ o : Obstacle, o.Arises c s ⟨s.pc, cause⟩ := by
  rcases stackFault?_eq_some_iff.mp unfit with ⟨few, rfl⟩ | ⟨-, many, rfl⟩
  · exact ⟨_, .underflow fetched few⟩
  · exact ⟨_, .overflow fetched many⟩

theorem arises_of_move (fetching : s.landing = false)
    (depth : s.returns.size ≤ ReturnStack.limit) (moved : step c s = .fault t cause) :
    ∃ o : Obstacle, o.Arises c s ⟨t.pc, cause⟩ := by
  cases move_of moved with
  | unpaidLanding landing => cases fetching.symm.trans landing
  | undefined _ here unknown =>
    exact ⟨_, .undefined here (Opcode.ofByte?_eq_none_iff.mp unknown)⟩
  | unsuited _ fetched unfit => exact arises_of_unfit fetched unfit
  | unpaid _ fetched fits short => exact ⟨_, .unpaid fetched (.inl short)⟩
  | performed _ fetched fits enough effect =>
    cases effect with
    | strayJump operand stray =>
      refine ⟨_, .astray fetched (State.destination?_of_cons operand).1 ?_⟩
      rw [Code.admits_jump_iff, stray]
      decide
    | strayBranch operands nonzero stray =>
      have asked := (State.destination?_of_cons_cons operands).trans (if_neg nonzero)
      refine ⟨_, .astray fetched asked ?_⟩
      rw [Code.admits_jumpi_iff, stray]
      decide
    | fetchedEntry => exact ⟨_, .unpaid fetched (.inr rfl)⟩
    | strayCall operand stray =>
      refine ⟨_, .astray fetched (State.destination?_of_cons operand).2 ?_⟩
      rw [Code.admits_jumpsub_iff, stray]
      decide
    | deepCall operand entry full => exact ⟨_, .deep fetched (Nat.le_antisymm depth full)⟩
    | strayReturn bare =>
      refine ⟨_, .bare fetched ?_⟩
      exact (Stack.size_eq _).trans (congrArg List.length bare)

theorem arises_of_round (fetching : s.landing = false)
    (depth : s.returns.size ≤ ReturnStack.limit) (led : s.round c = .fault t cause) :
    ∃ o : Obstacle, o.Arises c s ⟨t.pc, cause⟩ := by
  cases moved : step c s with
  | next u =>
    rw [round_of_next moved] at led
    split at led
    · next landing =>
      -- Only a call is followed by a landing.
      cases move_of moved with
      | landed arrived => cases fetching.symm.trans arrived
      | performed _ fetched fits enough effect =>
        cases effect with
        | sequential | jump | untaken | taken | back => cases fetching.symm.trans landing
        | call operand =>
          rcases Nat.lt_or_ge (s.gas.remaining - Opcode.jumpsub.cost) Opcode.beginsub.cost with
            short | rest
          · rw [land_unpaid (by exact short)] at led
            cases led
            exact ⟨_, .unlanded fetched (State.destination?_of_cons operand).2 (by omega)⟩
          · rw [land_paid (by exact rest)] at led
            cases led
    · cases led
  | halt u => cases (round_of_halt moved).symm.trans led
  | fault u failed =>
    cases (round_of_fault moved).symm.trans led
    exact arises_of_move fetching depth moved

theorem exists_first (arises : o.Arises c s f) :
    ∃ (p : Obstacle) (g : Fault), p.IsFirst c s g := by
  -- On the rank: one before it has the property, or none before it arises.
  induction earlier : o.rank using Nat.strongRecOn generalizing o f with
  | ind n ih =>
    by_cases sooner : ∃ (p : Obstacle) (g : Fault), p.rank < o.rank ∧ p.Arises c s g
    · obtain ⟨p, g, before, also⟩ := sooner
      exact ih p.rank (by omega) also rfl
    · refine ⟨o, f, arises, ?_⟩
      intro p g before also
      exact sooner ⟨p, g, before, also⟩

namespace IsFirst

theorem fits (first : o.IsFirst c s f) (later : overflow.rank < o.rank)
    (fetched : c.code.opcode? s.pc = some op) : s.stackFault? c op = none := by
  rw [State.stackFault?_eq_none_iff]
  constructor
  · apply Nat.le_of_not_lt
    intro few
    exact first.before .underflow _ (Nat.lt_trans (by decide) later) (.underflow fetched few)
  · apply Nat.le_of_not_lt
    intro many
    exact first.before .overflow _ later (.overflow fetched many)

theorem paid (first : o.IsFirst c s f) (later : unpaid.rank < o.rank)
    (fetched : c.code.opcode? s.pc = some op) : op.cost ≤ s.gas.remaining := by
  apply Nat.le_of_not_lt
  intro short
  exact first.before .unpaid _ later (.unpaid fetched (.inl short))

theorem admitted (first : o.IsFirst c s f) (later : astray.rank < o.rank)
    (fetched : c.code.opcode? s.pc = some op) {dest : Word}
    (asked : s.destination? op = some dest) : c.code.Admits op dest.toNat := by
  apply Classical.byContradiction
  intro nowhere
  exact first.before .astray _ later (.astray fetched asked nowhere)

theorem effect (first : o.IsFirst c s f) (later : unpaid.rank < o.rank)
    (fetching : s.landing = false) (fetched : c.code.opcode? s.pc = some op) :
    Effect c (s.paid op.cost) op (step c s) :=
  step_performed fetching fetched (first.fits (Nat.lt_trans (by decide) later) fetched)
    (first.paid later fetched)

end IsFirst

theorem strays_of_asked {dest : Word} {result : Transition} (asked : s.destination? op = some dest)
    (nowhere : ¬ c.code.Admits op dest.toNat) (effect : Effect c (s.paid op.cost) op result) :
    result.fault? = some ⟨s.pc, .invalidJumpDestination dest⟩ := by
  cases effect with
  | stop | fetchedEntry | back | strayReturn => cases asked
  | sequential inSequence =>
    rw [State.destination?_sequential inSequence] at asked
    cases asked
  | jump operand target =>
    cases (State.destination?_of_cons operand).1.symm.trans asked
    exact absurd (Code.admits_jump_iff.mpr target) nowhere
  | strayJump operand =>
    cases (State.destination?_of_cons operand).1.symm.trans asked
    rfl
  | untaken operands =>
    rw [State.destination?_of_cons_cons (by exact operands), if_pos rfl] at asked
    cases asked
  | taken operands nonzero target =>
    rw [State.destination?_of_cons_cons (by exact operands), if_neg nonzero] at asked
    cases asked
    exact absurd (Code.admits_jumpi_iff.mpr target) nowhere
  | strayBranch operands nonzero =>
    rw [State.destination?_of_cons_cons (by exact operands), if_neg nonzero] at asked
    cases asked
    rfl
  | call operand entry | deepCall operand entry =>
    cases (State.destination?_of_cons operand).2.symm.trans asked
    exact absurd (Code.admits_jumpsub_iff.mpr entry) nowhere
  | strayCall operand =>
    cases (State.destination?_of_cons operand).2.symm.trans asked
    rfl

theorem round_of_unfit (fetching : s.landing = false) (fetched : c.code.opcode? s.pc = some op)
    (unfit : s.stackFault? c op = some cause) : (s.round c).fault? = some ⟨s.pc, cause⟩ := by
  rw [round_of_fault ((step_fetched fetching fetched).trans (execute_unsuited unfit))]
  rfl

theorem round_of_overflow (first : overflow.IsFirst c s f) (fetching : s.landing = false)
    (fetched : c.code.opcode? s.pc = some op)
    (many : c.stackLimit < s.stack.size - op.stackInputs + op.stackOutputs) :
    (s.round c).fault? = some ⟨s.pc, .stackOverflow c.stackLimit⟩ := by
  have enough : op.stackInputs ≤ s.stack.size := by
    apply Nat.le_of_not_lt
    intro few
    exact first.before .underflow _ (by decide) (.underflow fetched few)
  exact round_of_unfit fetching fetched (stackFault?_eq_some_iff.mpr (.inr ⟨enough, many, rfl⟩))

theorem round_of_unpaid (first : unpaid.IsFirst c s f) (fetching : s.landing = false)
    (fetched : c.code.opcode? s.pc = some op) (short : s.gas.remaining < op.cost ∨ op = .beginsub) :
    (s.round c).fault? = some ⟨s.pc, .outOfGas⟩ := by
  have fits := first.fits (by decide) fetched
  rcases Nat.lt_or_ge s.gas.remaining op.cost with short' | enough
  · rw [round_of_fault ((step_fetched fetching fetched).trans (execute_unpaid fits short'))]
    rfl
  · obtain rfl : op = .beginsub := short.resolve_left (Nat.not_lt_of_le enough)
    rw [round_of_fault ((step_fetched fetching fetched).trans (execute_paid fits enough))]
    rfl

theorem round_of_astray {dest : Word} (first : astray.IsFirst c s f) (fetching : s.landing = false)
    (fetched : c.code.opcode? s.pc = some op) (asked : s.destination? op = some dest)
    (nowhere : ¬ c.code.Admits op dest.toNat) :
    (s.round c).fault? = some ⟨s.pc, .invalidJumpDestination dest⟩ := by
  have failed := strays_of_asked asked nowhere (first.effect (by decide) fetching fetched)
  cases moved : step c s with
  | fault t cause =>
    rw [moved] at failed
    rw [round_of_fault moved]
    exact failed
  | _ =>
    rw [moved] at failed
    cases failed

theorem round_of_deep (first : deep.IsFirst c s f) (fetching : s.landing = false)
    (fetched : c.code.opcode? s.pc = some .jumpsub) (full : s.returns.size = ReturnStack.limit) :
    (s.round c).fault? = some ⟨s.pc, .returnStackOverflow⟩ := by
  have effect := first.effect (by decide) fetching fetched
  generalize moved : step c s = result at effect
  cases effect with
  | sequential inSequence => cases inSequence
  | call operand entry room => exact absurd full (Nat.ne_of_lt room)
  | strayCall operand stray =>
    have led := first.admitted (by decide) fetched (State.destination?_of_cons operand).2
    cases stray.symm.trans (Code.admits_jumpsub_iff.mp led)
  | deepCall =>
    rw [round_of_fault moved]
    rfl

theorem round_of_unlanded {dest : Word} (first : unlanded.IsFirst c s f)
    (fetching : s.landing = false) (depth : s.returns.size ≤ ReturnStack.limit)
    (fetched : c.code.opcode? s.pc = some .jumpsub) (asked : s.destination? .jumpsub = some dest)
    (short : s.gas.remaining < Opcode.jumpsub.cost + Opcode.beginsub.cost) :
    (s.round c).fault? = some ⟨dest.toNat, .outOfGas⟩ := by
  have effect := first.effect (by decide) fetching fetched
  have led := Code.admits_jumpsub_iff.mp (first.admitted (by decide) fetched asked)
  generalize moved : step c s = result at effect
  cases effect with
  | sequential inSequence => cases inSequence
  | call operand =>
    cases (State.destination?_of_cons operand).2.symm.trans asked
    rw [round_of_next moved, if_pos rfl, land_unpaid]
    · rfl
    · simp only [State.paid, Opcode.cost] at short ⊢
      omega
  | strayCall operand stray =>
    cases (State.destination?_of_cons operand).2.symm.trans asked
    cases stray.symm.trans led
  | deepCall operand entry full =>
    exact absurd (.deep fetched (Nat.le_antisymm depth full)) (first.before .deep _ (by decide))

theorem round_of_bare (first : bare.IsFirst c s f) (fetching : s.landing = false)
    (fetched : c.code.opcode? s.pc = some .returnsub) (none : s.returns.size = 0) :
    (s.round c).fault? = some ⟨s.pc, .returnStackUnderflow⟩ := by
  have effect := first.effect (by decide) fetching fetched
  generalize moved : step c s = result at effect
  cases effect with
  | sequential inSequence => cases inSequence
  | back saved =>
    have height := Stack.size_of_cons saved
    simp only [State.paid] at height
    omega
  | strayReturn =>
    rw [round_of_fault moved]
    rfl

theorem fault_of_first (first : o.IsFirst c s f) (fetching : s.landing = false)
    (depth : s.returns.size ≤ ReturnStack.limit) : (s.round c).fault? = some f := by
  cases first.arises with
  | undefined here unknown =>
    rw [round_of_fault (step_undefined fetching here (Opcode.ofByte?_eq_none_iff.mpr unknown))]
    rfl
  | underflow fetched few =>
    exact round_of_unfit fetching fetched (stackFault?_eq_some_iff.mpr (.inl ⟨few, rfl⟩))
  | overflow fetched many => exact round_of_overflow first fetching fetched many
  | unpaid fetched short => exact round_of_unpaid first fetching fetched short
  | astray fetched asked nowhere => exact round_of_astray first fetching fetched asked nowhere
  | deep fetched full => exact round_of_deep first fetching fetched full
  | unlanded fetched asked short =>
    exact round_of_unlanded first fetching depth fetched asked short
  | bare fetched none => exact round_of_bare first fetching fetched none

theorem round_fault?_iff (fetching : s.landing = false)
    (depth : s.returns.size ≤ ReturnStack.limit) :
    (s.round c).fault? = some f ↔ ∃ o : Obstacle, o.IsFirst c s f := by
  constructor
  · intro failed
    cases led : s.round c with
    | fault t cause =>
      obtain ⟨o, arises⟩ := arises_of_round fetching depth led
      obtain ⟨p, g, first⟩ := exists_first arises
      have same := fault_of_first first fetching depth
      rw [failed] at same
      cases same
      exact ⟨p, first⟩
    | _ =>
      rw [led] at failed
      cases failed
  · rintro ⟨o, first⟩
    exact fault_of_first first fetching depth

end Obstacle

/-- An instruction at which an execution arrives aborts with the fault of the first obstacle that
    arises, and this is then the result of the execution. Where none arises it does not abort. -/
theorem first_obstacle_decides {σ : Type} (code : Code) (config : Config) (observer : Observer σ)
    (seen : σ) (s : State) (met : s ∈ (Machine.new code config).visited)
    (fetching : s.landing = false) :
    let c : Context := ⟨code, config.stackLimit⟩
    (∀ f, (s.round c).fault? = some f ↔ ∃ o : Obstacle, o.IsFirst c s f) ∧
    ((s.round c).fault? = none ↔ ∀ (o : Obstacle) (f : Fault), ¬ o.Arises c s f) ∧
    ∀ f, (s.round c).fault? = some f →
      ((Machine.new code config).execute observer seen).result = .error f := by
  intro c
  rw [visited_new] at met
  have safe := safe_states (safe_start c config.gasLimit) s met
  have decides (f : Fault) : (s.round c).fault? = some f ↔ ∃ o : Obstacle, o.IsFirst c s f :=
    Obstacle.round_fault?_iff fetching safe.depth
  refine ⟨decides, ?_, ?_⟩
  · rw [Option.eq_none_iff_forall_ne_some]
    constructor
    · intro free o f arises
      obtain ⟨p, g, first⟩ := Obstacle.exists_first arises
      exact free g ((decides g).mpr ⟨p, first⟩)
    · intro free f failed
      obtain ⟨o, first⟩ := (decides f).mp failed
      exact free o f first.arises
  · intro f failed
    rw [execute_result, ← ending_of_met met]
    cases led : s.round c with
    | fault t cause =>
      rw [led] at failed
      cases failed
      rw [round_fault led]
      exact Ending.result_eq_error_iff.mpr ⟨rfl, rfl⟩
    | _ =>
      rw [led] at failed
      cases failed

theorem stray_call_before_unpaid_landing :
    let code := Code.ofBytes [0x60, 0x03, 0xb3]
    let c : Context := ⟨code, 1024⟩
    let s : State := ⟨2, .ofItems [3], .empty, ⟨11, 8⟩, false⟩
    s ∈ (Machine.new code ⟨11, 1024⟩).visited ∧ Obstacle.unlanded.Arises c s ⟨3, .outOfGas⟩ ∧
      (∃ o : Obstacle, o.IsFirst c s ⟨2, .invalidJumpDestination 3⟩) ∧
      ((Machine.new code ⟨11, 1024⟩).execute .silent ()).result =
        .error ⟨2, .invalidJumpDestination 3⟩ := by
  intro code c s
  have met : s ∈ (Machine.new code ⟨11, 1024⟩).visited := by decide +kernel
  have failed : (s.round c).fault? = some ⟨2, .invalidJumpDestination 3⟩ := by decide +kernel
  obtain ⟨decides, -, results⟩ := first_obstacle_decides code ⟨11, 1024⟩ .silent () s met rfl
  exact ⟨met, @Obstacle.Arises.unlanded _ _ 3 rfl rfl (by decide), (decides _).mp failed,
    results _ failed⟩

end SubroutineVM
