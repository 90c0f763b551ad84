import Mathlib.Algebra.BigOperators.Ring.Finset
import Mathlib.Logic.Equiv.Basic
import SubroutineVM.Proofs.Code.Extension
import SubroutineVM.Proofs.Machine.Moves

/-!
What the instructions that lead to the next one compute, told by the numbers that words denote.
An operation on words is one on numbers modulo 2^256 or on bits (`binary_gives`, `unary_gives`),
and an immediate is a sum over its bytes (`immediate_eq_sum`). Main statement:
`instruction_computes`.
-/
namespace SubroutineVM

def Binary.Gives : Binary → Nat → Nat → Nat → Prop
  | .add, a, b, r => r = (a + b) % 2 ^ 256
  | .mul, a, b, r => r = a * b % 2 ^ 256
  | .sub, a, b, r => (r : Int) = ((a : Int) - b) % 2 ^ 256
  | .div, a, b, r => r = if b = 0 then 0 else a / b
  | .mod, a, b, r => r = if b = 0 then 0 else a % b
  | .lt, a, b, r => r = if a < b then 1 else 0
  | .gt, a, b, r => r = if b < a then 1 else 0
  | .eq, a, b, r => r = if a = b then 1 else 0
  | .and, a, b, r => ∀ i < 256, r.testBit i = (a.testBit i && b.testBit i)
  | .or, a, b, r => ∀ i < 256, r.testBit i = (a.testBit i || b.testBit i)
  | .xor, a, b, r => ∀ i < 256, r.testBit i = (a.testBit i ^^ b.testBit i)

def Unary.Gives : Unary → Nat → Nat → Prop
  | .isZero, a, r => r = if a = 0 then 1 else 0
  | .not, a, r => ∀ i < 256, r.testBit i = !a.testBit i

/-- A word stands for a number that has room in it, as every offset and all gas have. -/
def Word.StandsFor (w : Word) (n : Nat) : Prop :=
  w = BitVec.ofNat 256 n ∧ (n < 2 ^ 256 → w.toNat = n)

def Code.byteValue (c : Code) (offset : Nat) : Nat := ((c.byte? offset).getD 0).toNat

/-- The data stack that an instruction which leads to the next one leaves, the top first. -/
def Opcode.Computes (c : Context) (s : State) : Opcode → List Word → Prop
  | .binary f, after => ∃ a b r below, s.stack.items = a :: b :: below ∧ after = r :: below ∧
      f.Gives a.toNat b.toNat r.toNat
  | .unary f, after => ∃ a r below, s.stack.items = a :: below ∧ after = r :: below ∧
      f.Gives a.toNat r.toNat
  | .pop, after => ∃ a, s.stack.items = a :: after
  | .pc, after => ∃ r, after = r :: s.stack.items ∧ Word.StandsFor r s.pc
  | .gas, after => ∃ r, after = r :: s.stack.items ∧
      Word.StandsFor r (s.gas.remaining - Opcode.gas.cost)
  | .jumpdest, after => after = s.stack.items
  | .push n, after => ∃ r, after = r :: s.stack.items ∧ r.toNat =
      ∑ i ∈ Finset.range (n + 1), c.code.byteValue (s.pc + 1 + i) * 256 ^ (n + 1 - 1 - i)
  | .dup n, after => ∃ r, s.stack.items[n.val]? = some r ∧ after = r :: s.stack.items
  | .swap n, after => ∀ k, after[k]? = s.stack.items[Equiv.swap 0 (n.val + 1) k]?
  | _, _ => False

section Words

theorem Word.toNat_ofBool (b : Bool) : (Word.ofBool b).toNat = if b then 1 else 0 := by
  cases b <;> rfl

theorem Word.standsFor_ofNat (n : Nat) : Word.StandsFor (BitVec.ofNat 256 n) n := by
  refine ⟨rfl, ?_⟩
  intro room
  rw [BitVec.toNat_ofNat, Nat.mod_eq_of_lt room]

theorem Word.eq_zero_iff {w : Word} : w = 0 ↔ w.toNat = 0 := BitVec.toNat_inj.symm

theorem binary_gives (f : Binary) (a b : Word) :
    f.Gives a.toNat b.toNat (f.apply a b).toNat := by
  cases f with simp only [Binary.apply, Binary.Gives]
  | add => exact BitVec.toNat_add a b
  | mul => exact BitVec.toNat_mul a b
  | sub =>
    have first := a.isLt
    have second := b.isLt
    rw [BitVec.toNat_sub]
    omega
  | div =>
    simp only [Word.eq_zero_iff]
    split
    · rfl
    · exact BitVec.toNat_udiv
  | mod =>
    simp only [Word.eq_zero_iff]
    split
    · rfl
    · exact BitVec.toNat_umod
  | lt => simp [Word.toNat_ofBool, BitVec.lt_def]
  | gt => simp [Word.toNat_ofBool, BitVec.lt_def]
  | eq => simp [Word.toNat_ofBool, BitVec.toNat_inj]
  | and =>
    intro i _
    rw [BitVec.toNat_and, Nat.testBit_and]
  | or =>
    intro i _
    rw [BitVec.toNat_or, Nat.testBit_or]
  | xor =>
    intro i _
    rw [BitVec.toNat_xor, Nat.testBit_xor]

theorem unary_gives (f : Unary) (a : Word) : f.Gives a.toNat (f.apply a).toNat := by
  cases f with simp only [Unary.apply, Unary.Gives]
  | isZero => simp only [Word.toNat_ofBool, decide_eq_true_eq, Word.eq_zero_iff]
  | not =>
    intro i inside
    rw [BitVec.testBit_toNat, BitVec.getLsbD_not, BitVec.testBit_toNat]
    simp [inside]

end Words

section Immediates

theorem fill_eq_map_range (bytes : List UInt8) (length : Nat) :
    bytes.take length ++ List.replicate (length - (bytes.take length).length) 0 =
      (List.range length).map fun i => bytes[i]?.getD 0 := by
  induction length generalizing bytes with
  | zero => rfl
  | succ length ih =>
    rw [List.range_succ_eq_map, List.map_cons, List.map_map]
    cases bytes with
    | nil =>
      have rest := ih []
      simp only [List.take_nil, List.length_nil, List.nil_append, Nat.sub_zero] at rest ⊢
      rw [List.replicate_succ, rest]
      rfl
    | cons b bytes =>
      rw [List.take_succ_cons, List.cons_append, List.length_cons, Nat.add_sub_add_right, ih]
      rfl

theorem value_map_range (f : Nat → UInt8) (length : Nat) :
    BigEndian.value ((List.range length).map f) =
      ∑ i ∈ Finset.range length, (f i).toNat * 256 ^ (length - 1 - i) := by
  induction length with
  | zero => rfl
  | succ length ih =>
    -- One more byte moves those before it up by one place.
    have moved (i : Nat) (member : i ∈ Finset.range length) :
        (f i).toNat * 256 ^ (length + 1 - 1 - i) =
          256 * ((f i).toNat * 256 ^ (length - 1 - i)) := by
      have inside := Finset.mem_range.mp member
      rw [show length + 1 - 1 - i = length - 1 - i + 1 by omega, pow_succ, ← mul_assoc, mul_comm]
    rw [List.range_succ, List.map_append, List.map_singleton, BigEndian.value_concat, ih,
      Finset.sum_range_succ, Finset.sum_congr rfl moved, ← Finset.mul_sum, Nat.add_sub_cancel,
      Nat.sub_self, pow_zero, mul_one]

theorem Code.immediate_eq_sum (c : Code) (offset : Nat) {length : Nat} (narrow : length ≤ 32) :
    (c.immediate offset length).toNat =
      ∑ i ∈ Finset.range length, c.byteValue (offset + i) * 256 ^ (length - 1 - i) := by
  have bytes : c.slice offset length ++
      List.replicate (length - (c.slice offset length).length) 0 =
        (List.range length).map fun i => (c.byte? (offset + i)).getD 0 := by
    simp only [slice_eq, fill_eq_map_range, List.getElem?_drop, byte?_eq]
  have bound : BigEndian.value ((List.range length).map fun i => (c.byte? (offset + i)).getD 0) <
      2 ^ (8 * 32) := by
    rw [← Nat.one_shiftLeft]
    exact BigEndian.value_lt (by simpa using narrow)
  rw [immediate, bytes, Word.ofBytes, BitVec.toNat_ofNat, Nat.mod_eq_of_lt bound, value_map_range]
  rfl

end Immediates

section Instructions

variable {c : Context} {s : State} {op : Opcode}

theorem getElem?_exchanged {a b : Word} {rest : List Word} {n : Nat} (found : rest[n]? = some b)
    (k : Nat) : (b :: rest.set n a)[k]? = (a :: rest)[Equiv.swap 0 (n + 1) k]? := by
  cases k with
  | zero =>
    rw [Equiv.swap_apply_left, List.getElem?_cons_zero, List.getElem?_cons_succ, found]
  | succ k =>
    rw [List.getElem?_cons_succ]
    by_cases here : k = n
    · obtain ⟨inside, -⟩ := List.getElem?_eq_some_iff.mp found
      rw [here, Equiv.swap_apply_right, List.getElem?_set_self inside, List.getElem?_cons_zero]
    · rw [Equiv.swap_apply_of_ne_of_ne (Nat.succ_ne_zero k) (fun same => here (Nat.succ.inj same)),
        List.getElem?_set_ne (Ne.symm here), List.getElem?_cons_succ]

theorem perform_computes (inSequence : op.isSequential = true)
    (fits : s.stackFault? c op = none) : ∃ stack : Stack Word,
      perform c op (s.paid op.cost) = .next ((s.paid op.cost).goTo
        (min (s.pc + 1 + op.immediateLength) c.code.size) stack) ∧
      op.Computes c s stack.items := by
  obtain ⟨enough, -⟩ := State.stackFault?_eq_none_iff.mp fits
  have fits' : (s.paid op.cost).stackFault? c op = none := fits
  cases op with
  | stop | jump | jumpi | beginsub | jumpsub | returnsub => cases inSequence
  | binary f =>
    obtain ⟨a, b, below, operands⟩ := Stack.exists_cons_cons (s := s.stack) enough
    refine ⟨below.push (f.apply a b), ?_, a, b, _, below.items, operands, rfl, binary_gives f a b⟩
    rw [perform, State.popping_cons_cons (by exact operands)]
    exact pushing_next _ rfl fits' (Stack.size_of_cons_cons operands)
  | unary f =>
    obtain ⟨a, below, first⟩ := Stack.exists_cons (s := s.stack) enough
    refine ⟨below.push (f.apply a), ?_, a, _, below.items, first, rfl, unary_gives f a⟩
    rw [perform, State.popping_cons (by exact first)]
    exact pushing_next _ rfl fits' (Stack.size_of_cons first)
  | pop =>
    obtain ⟨a, below, first⟩ := Stack.exists_cons (s := s.stack) enough
    refine ⟨below, ?_, a, first⟩
    rw [perform, State.popping_cons (by exact first)]
    rfl
  | pc => exact ⟨_, pushing_next _ rfl fits' rfl, _, rfl, Word.standsFor_ofNat s.pc⟩
  | gas => exact ⟨_, pushing_next _ rfl fits' rfl, _, rfl, Word.standsFor_ofNat _⟩
  | jumpdest => exact ⟨s.stack, rfl, rfl⟩
  | push n =>
    exact ⟨_, pushing_next _ rfl fits' rfl, _, rfl, c.code.immediate_eq_sum _ (by omega)⟩
  | dup n =>
    simp only [Opcode.stackInputs] at enough
    have inside : n.val < s.stack.items.length := by rw [← s.stack.size_eq]; omega
    obtain ⟨w, found⟩ : ∃ w, s.stack.peek? n = some w := ⟨_, List.getElem?_eq_getElem inside⟩
    refine ⟨s.stack.push w, ?_, w, found, rfl⟩
    obtain ⟨-, room⟩ := State.stackFault?_eq_none_iff.mp fits
    simp only [Opcode.stackInputs, Opcode.stackOutputs] at room
    have found' : (s.paid (Opcode.dup n).cost).stack.peek? n = some w := found
    simp only [perform, found']
    rw [State.pushing_of_room (by simp only [State.paid]; omega)]
    rfl
  | swap n =>
    simp only [Opcode.stackInputs] at enough
    obtain ⟨a, above, first⟩ := Stack.exists_cons (s := s.stack) (by omega)
    have height := Stack.size_of_cons first
    have inside : n.val < above.items.length := by rw [← above.size_eq]; omega
    obtain ⟨b, found⟩ : ∃ b, above.items[n.val]? = some b := ⟨_, List.getElem?_eq_getElem inside⟩
    let exchanged : Stack Word := .ofItems (b :: above.items.set n a)
    have swapped : (s.paid (Opcode.swap n).cost).stack.swap? n = some exchanged :=
      Stack.swap?_eq_some_iff.mpr ⟨a, b, above.items, first, found, rfl⟩
    refine ⟨exchanged, ?_, ?_⟩
    · simp only [perform, swapped]
      rfl
    · intro k
      rw [first]
      exact getElem?_exchanged found k

end Instructions

/-- An instruction that leads to the next one and passes its checks, in whatever state, computes on
    the data stack what its opcode says, goes on behind its immediate or at the end of the code, and
    leaves the return stack as it is. -/
theorem instruction_computes (c : Context) (s : State) (op : Opcode)
    (fetching : s.landing = false) (fetched : c.code.opcode? s.pc = some op)
    (inSequence : op.isSequential = true) (fits : s.stackFault? c op = none)
    (enough : op.cost ≤ s.gas.remaining) : ∃ t, step c s = .next t ∧
      op.Computes c s t.stack.items ∧ t.returns = s.returns ∧ t.landing = false ∧
      t.pc = min (s.pc + 1 + op.immediateLength) c.code.size ∧
      t.gas.remaining = s.gas.remaining - op.cost := by
  obtain ⟨stack, performed, computes⟩ := perform_computes inSequence fits
  rw [step_fetched fetching fetched, execute_paid fits enough]
  exact ⟨_, performed, computes, rfl, fetching, rfl, rfl⟩

theorem negative_difference_and_cut_off_push :
    let c : Context := ⟨.ofBytes [0x03, 0x61, 0x01], 4⟩
    let s : State := ⟨0, .ofItems [0, 1], .empty, ⟨6, 6⟩, false⟩
    let t : State := ⟨1, .ofItems [-1], .empty, ⟨6, 3⟩, false⟩
    let u : State := ⟨3, .ofItems [0x100, -1], .empty, ⟨6, 0⟩, false⟩
    step c s = .next t ∧ Opcode.Computes c s (.binary .sub) t.stack.items ∧
      step c t = .next u ∧ Opcode.Computes c t (.push 1) u.stack.items := by
  intro c s t u
  have first : step c s = .next t := by decide +kernel
  have second : step c t = .next u := by decide +kernel
  obtain ⟨t', moved, difference, -⟩ :=
    instruction_computes c s (.binary .sub) rfl rfl rfl (by decide +kernel) (by decide)
  obtain ⟨u', moved', pushed, -⟩ :=
    instruction_computes c t (.push 1) rfl rfl rfl (by decide +kernel) (by decide)
  cases first.symm.trans moved
  cases second.symm.trans moved'
  exact ⟨first, difference, second, pushed⟩

end SubroutineVM
