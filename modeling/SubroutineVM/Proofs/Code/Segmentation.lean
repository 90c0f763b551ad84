import SubroutineVM.Code

/-!
Marks and instruction walk cut a code at the same places. Main statements: behind a marked
byte and its immediate lies a marked byte or the end of the code (`marked_next`), the walk of a
code splits at each marked byte (`walk_split`), and no instruction reaches over a marked byte
(`marked_outside`).
-/
namespace SubroutineVM

theorem length_opcodeMarks (skip : Nat) (bytes : List UInt8) :
    (opcodeMarks skip bytes).length = bytes.length := by
  fun_induction opcodeMarks skip bytes with
  | case1 => rfl
  | case2 b rest ih => rw [List.length_cons, List.length_cons, ih]
  | case3 skip b rest ih => rw [List.length_cons, List.length_cons, ih]

/-- The bytes of an immediate carry no mark, and behind it the marks start afresh. -/
theorem marked_skip {skip k : Nat} {bytes : List UInt8} :
    (opcodeMarks skip bytes)[k]? = some true ↔
      skip ≤ k ∧ (opcodeMarks 0 (bytes.drop skip))[k - skip]? = some true := by
  induction skip generalizing k bytes with
  | zero => simp
  | succ skip ih =>
    cases bytes with
    | nil => simp [opcodeMarks]
    | cons b rest =>
      cases k with
      | zero => simp [opcodeMarks]
      | succ k =>
        rw [opcodeMarks, List.getElem?_cons_succ, ih, List.drop_succ_cons]
        simp

theorem marked_cons {b : UInt8} {rest : List UInt8} {k : Nat} :
    (opcodeMarks 0 (b :: rest))[k + 1]? = some true ↔ immediateLength b ≤ k ∧
      (opcodeMarks 0 (rest.drop (immediateLength b)))[k - immediateLength b]? = some true := by
  rw [opcodeMarks, List.getElem?_cons_succ, marked_skip]

theorem marked_behind {bytes : List UInt8} {k : Nat} {b : UInt8}
    (marked : (opcodeMarks 0 bytes)[k]? = some true) (here : bytes[k]? = some b)
    (inside : k + 1 + immediateLength b < bytes.length) :
    (opcodeMarks 0 bytes)[k + 1 + immediateLength b]? = some true := by
  -- On the length, since the marks behind the first byte start afresh behind its whole immediate.
  induction size : bytes.length using Nat.strongRecOn generalizing bytes k with
  | ind n ih =>
    cases bytes with
    | nil => simp at here
    | cons first rest =>
      rw [List.length_cons] at size inside
      cases k with
      | zero =>
        cases here
        rw [Nat.zero_add, Nat.add_comm, marked_cons]
        refine ⟨Nat.le_refl _, ?_⟩
        rw [Nat.sub_self]
        cases behind : rest.drop (immediateLength b) with
        | nil =>
          have short := List.drop_eq_nil_iff.mp behind
          omega
        | cons => rfl
      | succ k =>
        obtain ⟨past, mark⟩ := marked_cons.mp marked
        rw [List.getElem?_cons_succ] at here
        have later : (rest.drop (immediateLength first))[k - immediateLength first]? = some b := by
          rw [List.getElem?_drop, Nat.add_sub_cancel' past, here]
        have length := List.length_drop (i := immediateLength first) (l := rest)
        have step := ih _ (by omega) mark later (by omega) rfl
        rw [show k + 1 + 1 + immediateLength b = k + 1 + immediateLength b + 1 by omega, marked_cons]
        refine ⟨by omega, ?_⟩
        rwa [show k + 1 + immediateLength b - immediateLength first =
          k - immediateLength first + 1 + immediateLength b by omega]

namespace Instruction

theorem walk_cons (offset : Nat) (b : UInt8) (rest : List UInt8) :
    walk offset (b :: rest) = ⟨offset, b, rest.take (immediateLength b)⟩ ::
      walk (offset + 1 + immediateLength b) (rest.drop (immediateLength b)) := by
  rw [walk]

theorem walk_bounds {offset : Nat} {bytes : List UInt8} :
    ∀ i ∈ walk offset bytes, offset ≤ i.offset ∧ i.next ≤ offset + bytes.length := by
  fun_induction walk offset bytes with
  | case1 => simp
  | case2 offset b rest length ih =>
    intro i member
    rcases List.mem_cons.mp member with rfl | later
    · simp only [next, List.length_take, List.length_cons]
      omega
    · have bounds := ih i later
      have positive : i.offset < i.next := by simp only [next]; omega
      rw [List.length_drop] at bounds
      rw [List.length_cons]
      omega

theorem walk_split (offset : Nat) {k : Nat} {bytes : List UInt8}
    (marked : (opcodeMarks 0 bytes)[k]? = some true) :
    walk offset bytes = walk offset (bytes.take k) ++ walk (offset + k) (bytes.drop k) := by
  fun_induction walk offset bytes generalizing k
  case case1 => simp [opcodeMarks] at marked
  case case2 offset b rest length ih =>
    cases k with
    | zero => simp [walk, length]
    | succ k =>
      obtain ⟨past, mark⟩ := marked_cons.mp marked
      have split := ih mark
      rw [List.take_succ_cons, List.drop_succ_cons, walk_cons offset b (rest.take k), List.take_take,
        Nat.min_eq_left past, List.cons_append, List.drop_take]
      rw [List.drop_drop, show offset + 1 + length + (k - length) = offset + (k + 1) by omega,
        show length + (k - length) = k by omega] at split
      rw [split]

end Instruction

theorem Opcode.toByte_inj {op other : Opcode} : op.toByte = other.toByte ↔ op = other := by
  constructor
  · intro same
    have decoded := ofByte?_toByte op
    rw [same, ofByte?_toByte] at decoded
    exact (Option.some.inj decoded).symm
  · exact congrArg toByte

theorem immediateLength_toByte (op : Opcode) :
    immediateLength op.toByte = op.immediateLength := by
  rw [immediateLength, Opcode.ofByte?_toByte]

namespace Code

variable {c : Code} {offset : Nat} {op : Opcode}

theorem opcode?_eq_some_iff :
    c.opcode? offset = some op ↔ c.byte? offset = some op.toByte := by
  rw [opcode?, Option.bind_eq_some_iff]
  constructor
  · rintro ⟨b, here, decoded⟩
    rw [here, Opcode.toByte_of_ofByte? decoded]
  · intro here
    exact ⟨op.toByte, here, Opcode.ofByte?_toByte op⟩

theorem holds_iff : c.holds offset op = true ↔
    c.isOpcodeOffset offset = true ∧ c.opcode? offset = some op := by
  rw [holds, Bool.and_eq_true, beq_iff_eq, opcode?_eq_some_iff]

theorem isOpcodeOffset_iff :
    c.isOpcodeOffset offset = true ↔ (opcodeMarks 0 c.toBytes)[offset]? = some true := by
  rw [isOpcodeOffset, ← Array.getElem?_toList, c.marks_eq, toBytes]
  cases (opcodeMarks 0 c.bytes.toList)[offset]? <;> simp

theorem byte?_eq (c : Code) (offset : Nat) : c.byte? offset = c.toBytes[offset]? := by
  rw [byte?, toBytes, Array.getElem?_toList]

theorem size_eq (c : Code) : c.size = c.toBytes.length := by
  rw [size, toBytes, Array.length_toList]

theorem byte?_of_marked (marked : c.isOpcodeOffset offset = true) :
    ∃ b, c.byte? offset = some b := by
  have mark := isOpcodeOffset_iff.mp marked
  obtain ⟨inside, -⟩ := List.getElem?_eq_some_iff.mp mark
  rw [length_opcodeMarks] at inside
  exact ⟨_, by rw [byte?_eq, List.getElem?_eq_getElem inside]⟩

theorem lt_size_of_byte {b : UInt8} (here : c.byte? offset = some b) : offset < c.size := by
  rw [byte?_eq] at here
  obtain ⟨inside, -⟩ := List.getElem?_eq_some_iff.mp here
  rwa [size_eq]

theorem lt_size_of_opcode (fetched : c.opcode? offset = some op) : offset < c.size :=
  lt_size_of_byte (opcode?_eq_some_iff.mp fetched)

theorem marked_lt_size (marked : c.isOpcodeOffset offset = true) : offset < c.size := by
  obtain ⟨b, here⟩ := byte?_of_marked marked
  exact lt_size_of_byte here

theorem marked_zero (nonempty : 0 < c.size) : c.isOpcodeOffset 0 = true := by
  rw [isOpcodeOffset_iff]
  rw [size_eq] at nonempty
  cases bytes : c.toBytes with
  | nil => simp [bytes] at nonempty
  | cons => rfl

theorem marked_next {b : UInt8} (marked : c.isOpcodeOffset offset = true)
    (here : c.byte? offset = some b) : min (offset + 1 + immediateLength b) c.size = c.size ∨
      c.isOpcodeOffset (min (offset + 1 + immediateLength b) c.size) = true := by
  by_cases inside : offset + 1 + immediateLength b < c.size
  · right
    rw [Nat.min_eq_left (Nat.le_of_lt inside)]
    rw [isOpcodeOffset_iff] at marked ⊢
    rw [byte?_eq] at here
    rw [size_eq] at inside
    exact marked_behind marked here inside
  · exact .inl (Nat.min_eq_right (Nat.le_of_not_lt inside))

theorem instructions_split (marked : c.isOpcodeOffset offset = true) : c.instructions =
    Instruction.walk 0 (c.toBytes.take offset) ++ Instruction.walk offset (c.toBytes.drop offset) := by
  have split := Instruction.walk_split 0 (isOpcodeOffset_iff.mp marked)
  rwa [Nat.zero_add] at split

theorem walk_drop {b : UInt8} (here : c.byte? offset = some b) :
    Instruction.walk offset (c.toBytes.drop offset) =
      ⟨offset, b, (c.toBytes.drop (offset + 1)).take (immediateLength b)⟩ ::
        Instruction.walk (offset + 1 + immediateLength b)
          (c.toBytes.drop (offset + 1 + immediateLength b)) := by
  rw [byte?_eq] at here
  obtain ⟨inside, same⟩ := List.getElem?_eq_some_iff.mp here
  rw [List.drop_eq_getElem_cons inside, same, Instruction.walk_cons, List.drop_drop]

theorem marked_outside (aligned : offset = c.size ∨ c.isOpcodeOffset offset = true) :
    ∀ i ∈ c.instructions, ¬ (i.offset < offset ∧ offset < i.next) := by
  intro i member
  rcases aligned with rfl | marked
  · have bounds := Instruction.walk_bounds i member
    rw [size_eq]
    omega
  · rw [instructions_split marked] at member
    rcases List.mem_append.mp member with before | behind
    · have bounds := Instruction.walk_bounds i before
      rw [List.length_take] at bounds
      omega
    · have bounds := Instruction.walk_bounds i behind
      omega

end Code

end SubroutineVM
