import SubroutineVM.Proofs.Code.Segmentation

/-!
The instructions of a code and their bytes. The walk loses no byte (`walk_toBytes`), an
instruction lies behind the bytes of those before it (`walk_offset`), only the last one can be
truncated (`walk_whole`), and bytes that begin with a whole instruction are walked as that
instruction and the rest (`walk_append`).
-/
namespace SubroutineVM

namespace Opcode

theorem mem_all (op : Opcode) : op ∈ all :=
  List.mem_filterMap.mpr ⟨op.toByte.toNat, List.mem_range.mpr op.toByte.toNat_lt,
    by rw [UInt8.ofNat_toNat, ofByte?_toByte]⟩

theorem ofMnemonic?_eq_some_iff {text : String} {op : Opcode} :
    ofMnemonic? text = some op ↔ text = op.mnemonic := by
  constructor
  · intro found
    have same := List.find?_some found
    exact (of_decide_eq_true same).symm
  · rintro rfl
    exact ofMnemonic?_mnemonic op

theorem mnemonic_ne_undefinedName (op : Opcode) : op.mnemonic ≠ undefinedName := by
  have every : ∀ op ∈ all, op.mnemonic ≠ undefinedName := by decide +kernel
  exact every op op.mem_all

theorem ofByte?_eq_none_iff {byte : UInt8} :
    ofByte? byte = none ↔ ∀ op : Opcode, op.toByte ≠ byte := by
  rw [Option.eq_none_iff_forall_ne_some]
  constructor
  · rintro unknown op rfl
    exact unknown op (ofByte?_toByte op)
  · intro free op known
    exact free op (toByte_of_ofByte? known)

theorem push_or_bare (op : Opcode) : (∃ n, op = .push n) ∨ op.immediateLength = 0 := by
  cases op with
  | push n => exact .inl ⟨n, rfl⟩
  | _ => exact .inr rfl

theorem bare_of_ne_push {op : Opcode} (other : ∀ n, op ≠ .push n) : op.immediateLength = 0 := by
  rcases op.push_or_bare with ⟨n, same⟩ | bare
  · exact absurd same (other n)
  · exact bare

end Opcode

section Widths

variable {i : Instruction} {op : Opcode}

theorem immediateLength_of_known (known : i.opcode? = some op) :
    immediateLength i.byte = op.immediateLength := by
  rw [Instruction.opcode?] at known
  rw [immediateLength, known]

theorem immediateLength_of_unknown (unknown : i.opcode? = none) : immediateLength i.byte = 0 := by
  rw [Instruction.opcode?] at unknown
  rw [immediateLength, unknown]

theorem push_of_truncated (cut : i.isTruncated = true) :
    ∃ n, i.opcode? = some (.push n) := by
  rw [Instruction.isTruncated, decide_eq_true_eq] at cut
  cases known : i.opcode? with
  | none =>
    rw [immediateLength_of_unknown known] at cut
    exact absurd cut (Nat.not_lt_zero _)
  | some op =>
    rw [immediateLength_of_known known] at cut
    rcases op.push_or_bare with ⟨n, rfl⟩ | bare
    · exact ⟨n, rfl⟩
    · rw [bare] at cut
      exact absurd cut (Nat.not_lt_zero _)

end Widths

namespace Instruction

def toBytes (i : Instruction) : List UInt8 := i.byte :: i.immediate

/-- The bytes of an instruction whose immediate has its full width, zeros standing in front of what
    is there. -/
def filled (i : Instruction) : List UInt8 :=
  i.byte :: (List.replicate (immediateLength i.byte - i.immediate.length) 0 ++ i.immediate)

theorem isTruncated_eq_false_iff {i : Instruction} :
    i.isTruncated = false ↔ immediateLength i.byte ≤ i.immediate.length := by
  rw [isTruncated, decide_eq_false_iff_not, Nat.not_lt]

theorem filled_of_whole {i : Instruction} (whole : i.isTruncated = false) :
    i.filled = i.toBytes := by
  rw [filled, Nat.sub_eq_zero_of_le (isTruncated_eq_false_iff.mp whole)]
  rfl

theorem walk_toBytes (offset : Nat) (bytes : List UInt8) :
    (walk offset bytes).flatMap toBytes = bytes := by
  fun_induction walk offset bytes with
  | case1 => rfl
  | case2 offset b rest length ih =>
    rw [List.flatMap_cons, ih, toBytes, List.cons_append, List.take_append_drop]

theorem walk_fits {offset : Nat} {bytes : List UInt8} :
    ∀ i ∈ walk offset bytes, i.immediate.length ≤ immediateLength i.byte := by
  fun_induction walk offset bytes with
  | case1 => simp
  | case2 offset b rest length ih =>
    intro i member
    rcases List.mem_cons.mp member with rfl | later
    · exact List.length_take_le _ _
    · exact ih i later

theorem length_take_of_walk {offset length : Nat} {rest : List UInt8}
    (goesOn : walk offset (rest.drop length) ≠ []) : (rest.take length).length = length := by
  apply List.length_take_of_le
  apply Nat.le_of_not_lt
  intro short
  rw [List.drop_of_length_le (Nat.le_of_lt short)] at goesOn
  simp [walk] at goesOn

theorem walk_whole {offset : Nat} {bytes : List UInt8} {front rest : List Instruction}
    {last : Instruction} (walked : walk offset bytes = front ++ last :: rest) :
    ∀ i ∈ front, i.isTruncated = false := by
  fun_induction walk offset bytes generalizing front
  case case1 => simp at walked
  case case2 offset b bytes length ih =>
    intro i member
    cases front with
    | nil => cases member
    | cons first front =>
      rw [List.cons_append] at walked
      obtain ⟨rfl, behind⟩ := List.cons.inj walked
      rcases List.mem_cons.mp member with rfl | later
      · have full := length_take_of_walk (by rw [behind]; simp)
        exact isTruncated_eq_false_iff.mpr (Nat.le_of_eq full.symm)
      · exact ih behind i later

theorem walk_offset {offset : Nat} {bytes : List UInt8} {front rest : List Instruction}
    {i : Instruction} (walked : walk offset bytes = front ++ i :: rest) :
    i.offset = offset + (front.flatMap toBytes).length := by
  fun_induction walk offset bytes generalizing front
  case case1 => simp at walked
  case case2 offset b bytes length ih =>
    cases front with
    | nil =>
      obtain ⟨rfl, -⟩ := List.cons.inj walked
      rfl
    | cons first front =>
      rw [List.cons_append] at walked
      obtain ⟨rfl, behind⟩ := List.cons.inj walked
      have full := length_take_of_walk (by rw [behind]; simp)
      rw [ih behind, List.flatMap_cons, List.length_append, toBytes, List.length_cons, full]
      omega

theorem walk_append (offset : Nat) {b : UInt8} {immediate : List UInt8}
    (whole : immediate.length = immediateLength b) (rest : List UInt8) :
    walk offset (b :: (immediate ++ rest)) =
      ⟨offset, b, immediate⟩ :: walk (offset + 1 + immediate.length) rest := by
  rw [walk_cons, ← whole, List.take_left, List.drop_left]

theorem walk_last {bytes : List UInt8} {last : Instruction}
    (ends : (walk 0 bytes).getLast? = some last) :
    bytes.take last.offset ++ last.toBytes = bytes ∧
      (walk 0 bytes).flatMap filled = bytes.take last.offset ++ last.filled := by
  obtain ⟨front, walked⟩ := List.getLast?_eq_some_iff.mp ends
  have offset := walk_offset walked
  have joined := walk_toBytes 0 bytes
  rw [Nat.zero_add] at offset
  rw [walked, List.flatMap_append, List.flatMap_singleton] at joined
  have before : bytes.take last.offset = front.flatMap toBytes := by
    rw [offset, ← joined, List.take_left]
  have every : front.map filled = front.map toBytes :=
    List.map_congr_left fun i member => filled_of_whole (walk_whole walked i member)
  rw [before, walked, List.flatMap_append, List.flatMap_singleton]
  exact ⟨joined, by rw [List.flatMap_def, every, ← List.flatMap_def]⟩

theorem walk_filled {bytes : List UInt8}
    (whole : ∀ i, (walk 0 bytes).getLast? = some i → i.isTruncated = false) :
    (walk 0 bytes).flatMap filled = bytes := by
  cases ends : (walk 0 bytes).getLast? with
  | none =>
    have joined := walk_toBytes 0 bytes
    rw [List.getLast?_eq_none_iff.mp ends] at joined ⊢
    exact joined
  | some last =>
    obtain ⟨joined, filled⟩ := walk_last ends
    rw [filled, filled_of_whole (whole last ends), joined]

end Instruction

end SubroutineVM
