import SubroutineVM.Proofs.Code.Instructions
import SubroutineVM.Report.Issue

/-!
The checks of a report as scans of a walk. What a scan finds is told by the places at which the walk
can be cut (`mem_fallThroughs_iff`, `mem_callTargets_iff`), and sorting by offsets leaves the issues
of one offset in the order of the checks (`all_ordered`).
-/
namespace SubroutineVM.Issue

/-- The place of the check that finds an issue among the checks of one offset. -/
def pass : Issue → Nat
  | .undefinedOpcode .. | .truncatedPush _ => 0
  | .fallThroughIntoSubroutine _ => 1
  | .unreachableSubroutine _ => 2

theorem getLast?_or_cons (first : Instruction) (front : List Instruction)
    (before : Option Instruction) :
    front.getLast?.or (some first) = (first :: front).getLast?.or before := by
  rw [List.getLast?_cons]
  cases front.getLast? <;> rfl

section Scans

variable {before : Option Instruction} {is : List Instruction} {issue : Issue} {offset : Nat}
  {op : Opcode}

theorem mem_fallThroughs_cons {first : Instruction} :
    issue ∈ fallThroughs before (first :: is) ↔
      (first.opcode? = some .beginsub ∧ continues before = true ∧
        .fallThroughIntoSubroutine first.offset = issue) ∨
      issue ∈ fallThroughs (some first) is := by
  rw [fallThroughs]
  split
  · rename_i found
    rw [List.mem_cons, eq_comm]
    simp [found]
  · rename_i missed
    rw [← and_assoc]
    simp [missed]

theorem mem_fallThroughs_iff : issue ∈ fallThroughs before is ↔
    ∃ front i rest, is = front ++ i :: rest ∧ i.opcode? = some .beginsub ∧
      continues (front.getLast?.or before) = true ∧
      .fallThroughIntoSubroutine i.offset = issue := by
  induction is generalizing before with
  | nil => simp [fallThroughs]
  | cons first is ih =>
    rw [mem_fallThroughs_cons, ih]
    constructor
    · intro found
      rcases found with ⟨entry, leads, same⟩ | ⟨front, i, rest, walked, entry, leads, same⟩
      · exact ⟨[], first, is, rfl, entry, leads, same⟩
      · rw [getLast?_or_cons first front before] at leads
        exact ⟨first :: front, i, rest, congrArg _ walked, entry, leads, same⟩
    · intro found
      obtain ⟨front, i, rest, walked, entry, leads, same⟩ := found
      cases front with
      | nil =>
        obtain ⟨rfl, rfl⟩ := List.cons.inj walked
        exact .inl ⟨entry, leads, same⟩
      | cons second front =>
        obtain ⟨rfl, behind⟩ := List.cons.inj walked
        rw [← getLast?_or_cons first front before] at leads
        exact .inr ⟨front, i, rest, behind, entry, leads, same⟩

theorem mem_callTargets_iff : offset ∈ callTargets is ↔
    ∃ front i j rest, is = front ++ i :: j :: rest ∧ callTarget? i j = some offset := by
  fun_induction callTargets is with
  | case1 first second rest ih =>
    rw [List.mem_append, Option.mem_toList, ih]
    constructor
    · rintro (called | ⟨front, i, j, behind, walked, called⟩)
      · exact ⟨[], first, second, rest, rfl, called⟩
      · exact ⟨first :: front, i, j, behind, congrArg _ walked, called⟩
    · rintro ⟨front, i, j, behind, walked, called⟩
      cases front with
      | nil =>
        simp only [List.nil_append, List.cons.injEq] at walked
        obtain ⟨rfl, rfl, rfl⟩ := walked
        exact .inl called
      | cons _ front =>
        obtain ⟨-, walked⟩ := List.cons.inj walked
        exact .inr ⟨front, i, j, behind, walked, called⟩
  | case2 is short =>
    simp only [List.not_mem_nil, false_iff]
    rintro ⟨front, i, j, behind, rfl, -⟩
    cases front with
    | nil => exact short _ _ _ rfl
    | cons first front => cases front <;> exact short _ _ _ rfl

theorem callTarget?_eq_some_iff {i j : Instruction} : callTarget? i j = some offset ↔
    (∃ n, i.opcode? = some (.push n)) ∧ j.opcode? = some .jumpsub ∧ i.isTruncated = false ∧
      BigEndian.value i.immediate = offset := by
  unfold callTarget?
  split
  · rename_i n push call
    simp [push, call]
  · rename_i other
    simp only [reduceCtorEq, false_iff]
    rintro ⟨⟨n, push⟩, call, -⟩
    exact other n push call

theorem structural?_eq_some_iff {i : Instruction} : structural? i = some issue ↔
    i.opcode? = none ∧ .undefinedOpcode i.offset i.byte = issue ∨
      (∃ op, i.opcode? = some op) ∧ i.isTruncated = true ∧ .truncatedPush i.offset = issue := by
  unfold structural?
  cases known : i.opcode? with
  | none => simp
  | some op => simp

theorem mem_offsetsOf_iff : offset ∈ offsetsOf op is ↔
    ∃ i ∈ is, i.opcode? = some op ∧ i.offset = offset := by
  simp only [offsetsOf, List.mem_filter, List.mem_map, decide_eq_true_eq, and_assoc]

theorem mem_uncalled_iff : offset ∈ uncalled is ↔
    (∃ i ∈ is, i.opcode? = some .beginsub ∧ i.offset = offset) ∧ offset ∉ callTargets is := by
  rw [uncalled, List.mem_filter, mem_offsetsOf_iff, Bool.not_eq_true', List.contains_eq_mem,
    decide_eq_false_iff_not]

theorem mem_all_iff : issue ∈ all is ↔ issue ∈ is.filterMap structural? ∨
    issue ∈ fallThroughs none is ∨
      ∃ offset ∈ uncalled is, .unreachableSubroutine offset = issue := by
  rw [all, List.mem_mergeSort, List.mem_append, List.mem_append, List.mem_map, or_assoc]

end Scans

section Order

/-- A list whose issues of one offset stand in the order of the checks keeps them so when it is
    sorted by offsets. -/
theorem pairwise_mergeSort {found : List Issue}
    (ordered : found.Pairwise fun a b => a.offset = b.offset → a.pass < b.pass) :
    (found.mergeSort fun a b => a.offset ≤ b.offset).Pairwise fun a b =>
      a.offset < b.offset ∨ a.offset = b.offset ∧ a.pass < b.pass := by
  have trans : ∀ a b c : Issue, decide (a.offset ≤ b.offset) = true →
      decide (b.offset ≤ c.offset) = true → decide (a.offset ≤ c.offset) = true := by
    intro a b c
    simp only [decide_eq_true_eq]
    exact Nat.le_trans
  have total : ∀ a b : Issue,
      (decide (a.offset ≤ b.offset) || decide (b.offset ≤ a.offset)) = true := by
    intro a b
    simp only [Bool.or_eq_true, decide_eq_true_eq]
    exact Nat.le_total _ _
  induction found with
  | nil => simp
  | cons a found ih =>
    obtain ⟨ties, later⟩ := List.pairwise_cons.mp ordered
    -- The first issue goes behind those of smaller offsets and before all others.
    obtain ⟨smaller, others, whole, rest, below⟩ := List.mergeSort_cons trans total a found
    have sorted := List.pairwise_mergeSort trans total (a :: found)
    rw [whole] at sorted ⊢
    obtain ⟨first, second, across⟩ := List.pairwise_append.mp (rest ▸ ih later)
    obtain ⟨-, behind, -⟩ := List.pairwise_append.mp sorted
    have above := (List.pairwise_cons.mp behind).1
    rw [List.pairwise_append, List.pairwise_cons]
    refine ⟨first, ⟨?_, second⟩, ?_⟩
    · intro b member
      have le := of_decide_eq_true (above b member)
      rcases Nat.lt_or_eq_of_le le with less | same
      · exact .inl less
      · have inside : b ∈ found.mergeSort fun a b => a.offset ≤ b.offset := by
          rw [rest]
          exact List.mem_append_right _ member
        exact .inr ⟨same, ties b (List.mem_mergeSort.mp inside) same⟩
    · intro b member c place
      rcases List.mem_cons.mp place with rfl | other
      · have less := below b member
        simp only [Bool.not_eq_true', decide_eq_false_iff_not] at less
        exact .inl (Nat.lt_of_not_le less)
      · exact across b member c other

variable {is : List Instruction}

theorem structural_ordered (increasing : is.Pairwise fun i j => i.offset < j.offset) :
    (is.filterMap structural?).Pairwise fun a b => a.offset < b.offset := by
  refine increasing.filterMap structural? ?_
  intro i j less a found b found'
  rcases structural?_eq_some_iff.mp found with ⟨-, rfl⟩ | ⟨-, -, rfl⟩ <;>
    rcases structural?_eq_some_iff.mp found' with ⟨-, rfl⟩ | ⟨-, -, rfl⟩ <;> exact less

theorem fallThroughs_ordered {before : Option Instruction}
    (increasing : is.Pairwise fun i j => i.offset < j.offset) :
    (fallThroughs before is).Pairwise fun a b => a.offset < b.offset := by
  induction is generalizing before with
  | nil => exact .nil
  | cons i is ih =>
    obtain ⟨less, later⟩ := List.pairwise_cons.mp increasing
    rw [fallThroughs]
    split
    · refine .cons ?_ (ih later)
      intro issue member
      obtain ⟨front, j, rest, rfl, -, -, rfl⟩ := mem_fallThroughs_iff.mp member
      exact less j (by simp)
    · exact ih later

theorem offsetsOf_increasing (op : Opcode)
    (increasing : is.Pairwise fun i j => i.offset < j.offset) :
    (offsetsOf op is).Pairwise (· < ·) := by
  rw [offsetsOf, List.pairwise_map]
  exact increasing.filter _

theorem uncalled_ordered (increasing : is.Pairwise fun i j => i.offset < j.offset) :
    ((uncalled is).map unreachableSubroutine).Pairwise fun a b => a.offset < b.offset := by
  rw [List.pairwise_map]
  exact (offsetsOf_increasing .beginsub increasing).filter _

theorem all_ordered (increasing : is.Pairwise fun i j => i.offset < j.offset) :
    (all is).Pairwise fun a b => a.offset < b.offset ∨ a.offset = b.offset ∧ a.pass < b.pass := by
  apply pairwise_mergeSort
  have apart {l : List Issue} (ordered : l.Pairwise fun a b => a.offset < b.offset) :
      l.Pairwise fun a b => a.offset = b.offset → a.pass < b.pass :=
    ordered.imp fun less same => absurd same (Nat.ne_of_lt less)
  have zero : ∀ a ∈ is.filterMap structural?, a.pass = 0 := by
    intro a member
    obtain ⟨i, -, found⟩ := List.mem_filterMap.mp member
    rcases structural?_eq_some_iff.mp found with ⟨-, rfl⟩ | ⟨-, -, rfl⟩ <;> rfl
  have one : ∀ a ∈ fallThroughs none is, a.pass = 1 := by
    intro a member
    obtain ⟨front, i, rest, -, -, -, rfl⟩ := mem_fallThroughs_iff.mp member
    rfl
  have two : ∀ a ∈ (uncalled is).map unreachableSubroutine, a.pass = 2 := by
    intro a member
    obtain ⟨offset, -, rfl⟩ := List.mem_map.mp member
    rfl
  rw [List.pairwise_append, List.pairwise_append]
  refine ⟨⟨apart (structural_ordered increasing), apart (fallThroughs_ordered increasing), ?_⟩,
    apart (uncalled_ordered increasing), ?_⟩
  · intro a first b second _
    rw [zero a first, one b second]
    decide
  · intro a first b second _
    rw [two b second]
    rcases List.mem_append.mp first with structural | fallThrough
    · rw [zero a structural]
      decide
    · rw [one a fallThrough]
      decide

end Order

end SubroutineVM.Issue
