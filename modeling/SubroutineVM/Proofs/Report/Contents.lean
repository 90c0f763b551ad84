import SubroutineVM.Proofs.Code.Neighbours
import SubroutineVM.Proofs.Report.Scans
import SubroutineVM.Report.Basic

/-!
What the report on a code says against it, in terms of the marks of the code: each kind of issue is
listed just where the marks and bytes say so, and the listing fails the code if it has one of two
kinds. Main statement: `issue_list_exact`.
-/
namespace SubroutineVM

def Code.CallsDirectly (c : Code) (offset : Nat) : Prop :=
  ∃ place, ∃ n : Fin 32, c.holds place (.push n) = true ∧
    BigEndian.value (c.slice (place + 1) (n + 1)) = offset ∧
    c.holds (place + 1 + (n + 1)) .jumpsub = true

/-- Whether the instruction before an offset, or the start of the code, leads on to it. -/
def Code.LeadsTo (c : Code) (offset : Nat) : Prop :=
  offset = 0 ∨ ∃ place op, IsGreatest {p | c.isOpcodeOffset p = true ∧ p < offset} place ∧
    c.opcode? place = some op ∧ op ≠ .stop ∧ op ≠ .jump ∧ op ≠ .returnsub

namespace Issue

def Fails (issue : Issue) : Prop :=
  (∃ offset, issue = .fallThroughIntoSubroutine offset) ∨ ∃ offset, issue = .truncatedPush offset

theorem isError_iff {issue : Issue} : issue.isError = true ↔ issue.Fails := by
  cases issue <;> simp [isError, Fails]

end Issue

section Contents

variable {code : Code} {offset : Nat} {b : UInt8} {issue : Issue} {i : Instruction}

theorem mem_offsetsOf_iff {op : Opcode} :
    offset ∈ Issue.offsetsOf op code.instructions ↔ code.holds offset op = true := by
  rw [Issue.mem_offsetsOf_iff, Code.holds_iff_exists]

theorem mem_issues_iff : issue ∈ (analyze code).issues ↔
    issue ∈ code.instructions.filterMap Issue.structural? ∨
      issue ∈ Issue.fallThroughs none code.instructions ∨
      ∃ offset ∈ Issue.uncalled code.instructions, .unreachableSubroutine offset = issue :=
  Issue.mem_all_iff

theorem undefined_mem_iff : .undefinedOpcode offset b ∈ (analyze code).issues ↔
    code.isOpcodeOffset offset = true ∧ code.byte? offset = some b ∧ Opcode.ofByte? b = none := by
  have found : .undefinedOpcode offset b ∈ (analyze code).issues ↔
      ∃ i ∈ code.instructions, i.opcode? = none ∧ i.offset = offset ∧ i.byte = b := by
    simp [mem_issues_iff, List.mem_filterMap, Issue.structural?_eq_some_iff,
      Issue.mem_fallThroughs_iff]
  rw [found]
  constructor
  · rintro ⟨i, member, unknown, rfl, rfl⟩
    obtain ⟨marked, here, -⟩ := Code.mem_instructions_iff.mp member
    exact ⟨marked, here, unknown⟩
  · rintro ⟨marked, here, unknown⟩
    obtain ⟨i, member, place, rfl⟩ := Code.instruction_at marked here
    exact ⟨i, member, unknown, place, rfl⟩

theorem truncated_mem_iff : .truncatedPush offset ∈ (analyze code).issues ↔
    ∃ i ∈ code.instructions, i.isTruncated = true ∧ i.offset = offset := by
  have found : .truncatedPush offset ∈ (analyze code).issues ↔ ∃ i ∈ code.instructions,
      (∃ op, i.opcode? = some op) ∧ i.isTruncated = true ∧ i.offset = offset := by
    simp [mem_issues_iff, List.mem_filterMap, Issue.structural?_eq_some_iff,
      Issue.mem_fallThroughs_iff]
  rw [found]
  constructor
  · rintro ⟨i, member, -, cut⟩
    exact ⟨i, member, cut⟩
  · rintro ⟨i, member, cut, place⟩
    obtain ⟨n, push⟩ := push_of_truncated cut
    exact ⟨i, member, ⟨_, push⟩, cut, place⟩

theorem truncated_mem_iff_push : .truncatedPush offset ∈ (analyze code).issues ↔
    ∃ n : Fin 32, code.holds offset (.push n) = true ∧ code.size ≤ offset + (n + 1) := by
  rw [truncated_mem_iff]
  constructor
  · rintro ⟨i, member, cut, rfl⟩
    obtain ⟨n, push⟩ := push_of_truncated cut
    exact ⟨n, Code.holds_iff_exists.mpr ⟨i, member, push, rfl⟩,
      (Code.truncated_iff_push member push).mp cut⟩
  · rintro ⟨n, held, ends⟩
    obtain ⟨i, member, push, rfl⟩ := Code.holds_iff_exists.mp held
    exact ⟨i, member, (Code.truncated_iff_push member push).mpr ends, rfl⟩

theorem continues_iff {front rest : List Instruction}
    (walked : code.instructions = front ++ i :: rest) :
    Issue.continues (front.getLast?.or none) = true ↔ code.LeadsTo i.offset := by
  rw [Option.or_none]
  rcases List.eq_nil_or_concat front with rfl | ⟨front, j, rfl⟩
  · have start := Code.offset_of_first walked
    exact ⟨fun _ => .inl start, fun _ => rfl⟩
  · rw [List.concat_eq_append] at walked ⊢
    rw [List.append_assoc] at walked
    have greatest := Code.neighbour_isGreatest walked
    have fetched : code.opcode? j.offset = j.opcode? := Code.opcode?_of_mem (by simp [walked])
    rw [List.getLast?_concat, Issue.continues]
    constructor
    · intro leads
      cases known : j.opcode? with
      | none => simp [known] at leads
      | some op =>
        refine .inr ⟨j.offset, op, greatest, fetched.trans known, ?_⟩
        simp only [known, Bool.not_eq_true'] at leads
        refine ⟨?_, ?_, ?_⟩ <;> rintro rfl <;> cases leads
    · rintro (start | ⟨place, op, greatest', fetched', noStop, noJump, noReturn⟩)
      · have before := greatest.1.2
        omega
      · rw [← greatest.unique greatest', fetched] at fetched'
        simp only [fetched', Bool.not_eq_true']
        cases op <;> first | rfl | contradiction

theorem fallThrough_mem_iff : .fallThroughIntoSubroutine offset ∈ (analyze code).issues ↔
    code.isSubroutineEntry offset = true ∧ code.LeadsTo offset := by
  have found : .fallThroughIntoSubroutine offset ∈ (analyze code).issues ↔
      ∃ front i rest, code.instructions = front ++ i :: rest ∧ i.opcode? = some .beginsub ∧
        Issue.continues (front.getLast?.or none) = true ∧ i.offset = offset := by
    simp [mem_issues_iff, List.mem_filterMap, Issue.structural?_eq_some_iff,
      Issue.mem_fallThroughs_iff]
  rw [found, Code.isSubroutineEntry, Code.holds_iff_exists]
  constructor
  · rintro ⟨front, i, rest, walked, entry, leads, rfl⟩
    exact ⟨⟨i, by simp [walked], entry, rfl⟩, (continues_iff walked).mp leads⟩
  · rintro ⟨⟨i, member, entry, rfl⟩, leads⟩
    obtain ⟨front, rest, walked⟩ := List.append_of_mem member
    exact ⟨front, i, rest, walked, entry, (continues_iff walked).mpr leads, rfl⟩

theorem mem_callTargets_iff_callsDirectly :
    offset ∈ Issue.callTargets code.instructions ↔ code.CallsDirectly offset := by
  rw [Issue.mem_callTargets_iff]
  constructor
  · rintro ⟨front, i, j, rest, walked, called⟩
    obtain ⟨⟨n, push⟩, call, -, value⟩ := Issue.callTarget?_eq_some_iff.mp called
    have member : i ∈ code.instructions := by simp [walked]
    have width := immediateLength_of_known push
    have behind := Code.offset_of_neighbour walked
    obtain ⟨-, -, immediate⟩ := Code.mem_instructions_iff.mp member
    rw [width, Opcode.immediateLength] at behind immediate
    refine ⟨i.offset, n, Code.holds_iff_exists.mpr ⟨i, member, push, rfl⟩, ?_, ?_⟩
    · rw [← immediate, value]
    · exact Code.holds_iff_exists.mpr ⟨j, by simp [walked], call, behind⟩
  · rintro ⟨place, n, push, value, call⟩
    obtain ⟨marked, fetched⟩ := Code.holds_iff.mp push
    obtain ⟨next, called⟩ := Code.holds_iff.mp call
    have width := immediateLength_toByte (.push n)
    rw [Opcode.immediateLength] at width
    rw [← width] at next
    obtain ⟨front, j, rest, behind, walked⟩ :=
      Code.exists_neighbour marked (Code.opcode?_eq_some_iff.mp fetched) next
    rw [width] at behind walked
    have second : j ∈ code.instructions := by simp [walked]
    have known : j.opcode? = some .jumpsub := by
      rw [← Code.opcode?_of_mem second, behind, called]
    have whole := Instruction.isTruncated_eq_false_iff.mpr
      (Nat.le_of_eq (Code.neighbour_whole walked).symm)
    exact ⟨front, _, j, rest, walked, Issue.callTarget?_eq_some_iff.mpr
      ⟨⟨n, Opcode.ofByte?_toByte (.push n)⟩, known, whole, value⟩⟩

theorem unreachable_mem_iff : .unreachableSubroutine offset ∈ (analyze code).issues ↔
    code.isSubroutineEntry offset = true ∧ ¬ code.CallsDirectly offset := by
  have found : .unreachableSubroutine offset ∈ (analyze code).issues ↔
      offset ∈ Issue.uncalled code.instructions := by
    simp [mem_issues_iff, List.mem_filterMap, Issue.structural?_eq_some_iff,
      Issue.mem_fallThroughs_iff]
  rw [found, Issue.mem_uncalled_iff, mem_callTargets_iff_callsDirectly, Code.isSubroutineEntry,
    Code.holds_iff_exists]

theorem issues_ordered (code : Code) : (analyze code).issues.Pairwise fun a b =>
    a.offset < b.offset ∨ a.offset = b.offset ∧ a.pass < b.pass :=
  Issue.all_ordered (Instruction.walk_increasing 0 code.toBytes)

theorem last_of_truncated_mem (reported : .truncatedPush offset ∈ (analyze code).issues) :
    code.instructions.getLast?.map Instruction.offset = some offset := by
  obtain ⟨i, member, cut, place⟩ := truncated_mem_iff.mp reported
  rw [Code.last_of_truncated member cut, Option.map_some, place]

theorem verify_eq_ok_iff : verify code = .ok () ↔ (analyze code).errors = [] := by
  unfold verify
  split
  · rename_i none
    exact ⟨fun _ => none, fun _ => rfl⟩
  · rename_i some
    simp only [reduceCtorEq, false_iff]
    exact some

theorem errors_of_verify {errors : List Issue} (failed : verify code = .error errors) :
    errors = (analyze code).errors := by
  unfold verify at failed
  split at failed
  · cases failed
  · cases failed
    rfl

theorem mem_errors_iff :
    issue ∈ (analyze code).errors ↔ issue ∈ (analyze code).issues ∧ issue.Fails := by
  rw [Report.errors, List.mem_filter, Issue.isError_iff]

end Contents

/-- What the issue list of a code says and in which order, and which of it fails the code. -/
theorem issue_list_exact (code : Code) :
    let issues := (analyze code).issues
    issues.Nodup ∧
    (issues.Pairwise fun a b => a.offset < b.offset ∨ a.offset = b.offset ∧ a.pass < b.pass) ∧
    (∀ offset b, .undefinedOpcode offset b ∈ issues ↔ code.isOpcodeOffset offset = true ∧
      code.byte? offset = some b ∧ Opcode.ofByte? b = none) ∧
    (∀ offset, .truncatedPush offset ∈ issues ↔
      ∃ n : Fin 32, code.holds offset (.push n) = true ∧ code.size ≤ offset + (n + 1)) ∧
    (∀ offset, .fallThroughIntoSubroutine offset ∈ issues ↔
      code.isSubroutineEntry offset = true ∧ code.LeadsTo offset) ∧
    (∀ offset, .unreachableSubroutine offset ∈ issues ↔
      code.isSubroutineEntry offset = true ∧ ¬ code.CallsDirectly offset) ∧
    (∀ offset, .truncatedPush offset ∈ issues →
      code.instructions.getLast?.map Instruction.offset = some offset ∧
        ∀ other, .truncatedPush other ∈ issues → other = offset) ∧
    (verify code = .ok () ↔ ∀ issue ∈ issues, ¬ issue.Fails) ∧
    ∀ errors, verify code = .error errors → errors.Sublist issues ∧
      ∀ issue, issue ∈ errors ↔ issue ∈ issues ∧ issue.Fails := by
  intro issues
  have ordered := issues_ordered code
  refine ⟨?_, ordered, fun _ _ => undefined_mem_iff, fun _ => truncated_mem_iff_push,
    fun _ => fallThrough_mem_iff, fun _ => unreachable_mem_iff, ?_, ?_, ?_⟩
  · refine ordered.imp ?_
    intro a b before same
    subst same
    omega
  · intro offset reported
    have last := last_of_truncated_mem reported
    refine ⟨last, ?_⟩
    intro other reported'
    exact Option.some.inj ((last_of_truncated_mem reported').symm.trans last)
  · rw [verify_eq_ok_iff, List.eq_nil_iff_forall_not_mem]
    simp only [mem_errors_iff, not_and]
    rfl
  · intro errors failed
    rw [errors_of_verify failed]
    exact ⟨List.filter_sublist, fun _ => mem_errors_iff⟩

theorem issues_of_entry_at_start :
    let code := Code.ofBytes [0xb2, 0xfe, 0x61]
    let issues := (analyze code).issues
    .truncatedPush 2 ∈ issues ∧ code.instructions.getLast?.map Instruction.offset = some 2 ∧
      ∃ errors, verify code = .error errors ∧ errors.Sublist issues ∧
        .fallThroughIntoSubroutine 0 ∈ errors ∧ .undefinedOpcode 1 0xfe ∉ errors := by
  intro code issues
  have cut : .truncatedPush 2 ∈ issues := mem_issues_iff.mpr (by decide +kernel)
  have walkedInto : .fallThroughIntoSubroutine 0 ∈ issues := mem_issues_iff.mpr (by decide +kernel)
  obtain ⟨-, -, -, -, -, -, last, passes, fails⟩ := issue_list_exact code
  refine ⟨cut, (last 2 cut).1, ?_⟩
  cases verified : verify code with
  | ok u => exact absurd (.inr ⟨2, rfl⟩) (passes.mp verified _ cut)
  | error errors =>
    obtain ⟨inOrder, members⟩ := fails errors verified
    refine ⟨errors, rfl, inOrder, (members _).mpr ⟨walkedInto, .inl ⟨0, rfl⟩⟩, ?_⟩
    intro listed
    rcases ((members _).mp listed).2 with ⟨offset, same⟩ | ⟨offset, same⟩ <;> cases same

end SubroutineVM
