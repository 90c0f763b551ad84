import SubroutineVM.Proofs.Code.Segmentation
import SubroutineVM.Proofs.Text.Numerals

/-!
Codes with more bytes behind them. Up to its end a code keeps its marks, whatever follows
(`holds_append_left`). Zero bytes behind it add no place to jump to or to call
(`holds_append_zeros`), and an immediate that is cut off denotes the same word with them
(`immediate_append_zeros`).
-/
namespace SubroutineVM

theorem opcodeMarks_append_left {skip k : Nat} {front rest : List UInt8}
    (inside : k < front.length) :
    (opcodeMarks skip (front ++ rest))[k]? = (opcodeMarks skip front)[k]? := by
  induction front generalizing skip k with
  | nil => simp at inside
  | cons b front ih =>
    rw [List.length_cons] at inside
    cases k with
    | zero => cases skip <;> rfl
    | succ k => cases skip <;> exact ih (by omega)

theorem fill_append_zeros (bytes : List UInt8) (k length : Nat) :
    (bytes ++ List.replicate k 0).take length ++
        List.replicate (length - ((bytes ++ List.replicate k 0).take length).length) 0 =
      bytes.take length ++ List.replicate (length - (bytes.take length).length) 0 := by
  induction bytes generalizing length with
  | nil =>
    simp only [List.nil_append, List.take_replicate, List.length_replicate, List.take_nil,
      List.length_nil, List.replicate_append_replicate]
    congr 1
    omega
  | cons b rest ih =>
    cases length with
    | zero => rfl
    | succ length =>
      simp only [List.cons_append, List.take_succ_cons, List.length_cons, Nat.add_sub_add_right]
      rw [ih]

namespace Code

instance : Append Code where
  append c d := ofBytes (c.toBytes ++ d.toBytes)

def zeros (k : Nat) : Code := ofBytes (List.replicate k 0)

variable {c d : Code} {offset k : Nat} {op : Opcode}

theorem toBytes_append (c d : Code) : (c ++ d).toBytes = c.toBytes ++ d.toBytes := rfl

theorem size_append (c d : Code) : (c ++ d).size = c.size + d.size := by
  rw [size_eq, toBytes_append, List.length_append, size_eq, size_eq]

theorem byte?_append_left (inside : offset < c.size) :
    (c ++ d).byte? offset = c.byte? offset := by
  rw [size_eq] at inside
  rw [byte?_eq, byte?_eq, toBytes_append, List.getElem?_append_left inside]

theorem isOpcodeOffset_append_left (inside : offset < c.size) :
    (c ++ d).isOpcodeOffset offset = c.isOpcodeOffset offset := by
  rw [size_eq] at inside
  rw [Bool.eq_iff_iff, isOpcodeOffset_iff, isOpcodeOffset_iff, toBytes_append,
    opcodeMarks_append_left inside]

theorem holds_append_left (inside : offset < c.size) :
    (c ++ d).holds offset op = c.holds offset op := by
  rw [holds, holds, isOpcodeOffset_append_left inside, byte?_append_left inside]

theorem byte?_zeros {b : UInt8} (here : (zeros k).byte? offset = some b) : b = 0 := by
  rw [byte?_eq] at here
  exact List.eq_of_mem_replicate (List.mem_of_getElem? here)

theorem byte?_append_zeros {b : UInt8} (behind : c.size ≤ offset)
    (here : (c ++ zeros k).byte? offset = some b) : b = 0 := by
  rw [size_eq] at behind
  rw [byte?_eq, toBytes_append, List.getElem?_append_right behind, ← byte?_eq] at here
  exact byte?_zeros here

theorem holds_append_zeros (other : op ≠ .stop) :
    (c ++ zeros k).holds offset op = c.holds offset op := by
  by_cases inside : offset < c.size
  · exact holds_append_left inside
  · have outside := Nat.le_of_not_lt inside
    rw [Bool.eq_iff_iff, holds, holds, Bool.and_eq_true, Bool.and_eq_true, beq_iff_eq, beq_iff_eq]
    constructor
    · rintro ⟨-, here⟩
      have zero := byte?_append_zeros outside here
      exact absurd (Opcode.toByte_inj.mp zero) other
    · rintro ⟨marked, -⟩
      exact absurd (marked_lt_size marked) inside

theorem slice_eq (c : Code) (offset length : Nat) :
    c.slice offset length = (c.toBytes.drop offset).take length := by
  rw [slice, Array.toList_extract, List.extract_eq_take_drop, toBytes, Nat.add_sub_cancel_left]

theorem slice_append_left {length : Nat} (inside : offset + length ≤ c.size) :
    (c ++ d).slice offset length = c.slice offset length := by
  rw [size_eq] at inside
  rw [slice_eq, slice_eq, toBytes_append, List.drop_append_of_le_length (by omega),
    List.take_append_of_le_length (by rw [List.length_drop]; omega)]

theorem slice_append_right (c d : Code) (length : Nat) :
    (c ++ d).slice c.size length = d.toBytes.take length := by
  rw [slice_eq, toBytes_append, size_eq, List.drop_left]

theorem immediate_append_left {length : Nat} (inside : offset + length ≤ c.size) :
    (c ++ d).immediate offset length = c.immediate offset length := by
  rw [immediate, immediate, slice_append_left inside]

theorem immediate_toNat (c : Code) (offset : Nat) {length : Nat} (narrow : length ≤ 32) :
    (c.immediate offset length).toNat = BigEndian.value (c.slice offset length) <<<
      (8 * (length - (c.slice offset length).length)) := by
  have present : (c.slice offset length).length ≤ length := by
    rw [slice_eq]
    exact List.length_take_le _ _
  have bound : BigEndian.value (c.slice offset length ++
      List.replicate (length - (c.slice offset length).length) 0) < 1 <<< (8 * 32) := by
    apply BigEndian.value_lt
    rw [List.length_append, List.length_replicate]
    omega
  rw [Nat.one_shiftLeft] at bound
  rw [immediate, Word.ofBytes, BitVec.toNat_ofNat, Nat.mod_eq_of_lt bound,
    BigEndian.value_append_zeros]

theorem immediate_toNat_of_whole {length : Nat} (narrow : length ≤ 32)
    (inside : offset + length ≤ c.size) :
    (c.immediate offset length).toNat = BigEndian.value (c.slice offset length) := by
  have whole : (c.slice offset length).length = length := by
    rw [size_eq] at inside
    rw [slice_eq, List.length_take, List.length_drop]
    omega
  rw [immediate_toNat c offset narrow, whole, Nat.sub_self, Nat.mul_zero, Nat.shiftLeft_zero]

theorem immediate_append_zeros (c : Code) (k offset length : Nat) :
    (c ++ zeros k).immediate offset length = c.immediate offset length := by
  have bytes : (c ++ zeros k).toBytes.drop offset =
      c.toBytes.drop offset ++ List.replicate (k - (offset - c.toBytes.length)) 0 := by
    rw [toBytes_append, List.drop_append, zeros, toBytes_ofBytes, List.drop_replicate]
  simp only [immediate, slice_eq, bytes]
  rw [fill_append_zeros]

end Code

end SubroutineVM
