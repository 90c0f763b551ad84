import SubroutineVM.Proofs.Code.Offsets
import SubroutineVM.Proofs.Machine.Calls
import SubroutineVM.Proofs.Report.Contents

/-!
Calls that a run makes directly. Where the record of a JUMPSUB comes behind that of a PUSH, the
JUMPSUB stands directly behind the PUSH in the code and calls the number in its immediate
(`call_behind_push`), so that a BEGINSUB entered in this way is not reported as never called
(`directly_called_not_reported`). The numbers called that are no offsets, or no entries, do not
bear on what is reported (`uncalled_by_entries`).
-/
namespace SubroutineVM

namespace Issue

/-- The entries among the numbers called, each number taken as a word and the word as an offset. -/
def entryTargets (code : Code) : List Nat :=
  ((callTargets code.instructions).filterMap fun n =>
    Word.toOffset? (BitVec.ofNat 256 n)).filter code.isSubroutineEntry

variable {code : Code} {offset : Nat}

theorem callTarget_toNat (called : offset ∈ callTargets code.instructions) :
    (BitVec.ofNat 256 offset).toNat = offset := by
  obtain ⟨front, i, j, rest, walked, target⟩ := mem_callTargets_iff.mp called
  obtain ⟨⟨n, push⟩, -, -, rfl⟩ := callTarget?_eq_some_iff.mp target
  have member : i ∈ code.instructions := by simp [walked]
  have room := Instruction.walk_fits i member
  rw [immediateLength_of_known push, Opcode.immediateLength] at room
  exact Nat.mod_eq_of_lt (BigEndian.value_lt (Nat.le_trans room n.isLt))

theorem mem_entryTargets_iff (addressable : code.Addressable) : offset ∈ entryTargets code ↔
    offset ∈ callTargets code.instructions ∧ code.isSubroutineEntry offset = true := by
  rw [entryTargets, List.mem_filter, List.mem_filterMap]
  refine and_congr_left fun entry => ?_
  have inside : offset < 1 <<< 64 := Nat.lt_of_lt_of_le (Code.holds_lt_size entry) addressable
  constructor
  · rintro ⟨n, called, denoted⟩
    obtain ⟨-, same⟩ := Word.toOffset?_eq_some_iff.mp denoted
    rw [callTarget_toNat called] at same
    rwa [← same]
  · intro called
    have same := callTarget_toNat called
    exact ⟨offset, called, Word.toOffset?_eq_some_iff.mpr ⟨by rwa [same], same⟩⟩

theorem uncalled_by_entries (addressable : code.Addressable) :
    uncalled code.instructions = (offsetsOf .beginsub code.instructions).filter fun offset =>
      !(entryTargets code).contains offset := by
  refine List.filter_congr fun offset listed => ?_
  have entry : code.isSubroutineEntry offset = true :=
    SubroutineVM.mem_offsetsOf_iff.mp listed
  have same : offset ∈ entryTargets code ↔ offset ∈ callTargets code.instructions := by
    rw [mem_entryTargets_iff addressable, and_iff_left entry]
  simp only [List.contains_eq_mem, same]

end Issue

section Records

variable {c : Context} {i gasLimit : Nat} {n : Fin 32} {push call entry : StepRecord}

theorem record_behind_push (pushed : (records c (.start gasLimit))[i]? = some push)
    (pushes : push.opcode = .push n) (behind : (records c (.start gasLimit))[i + 1]? = some call) :
    call.pc = min (push.pc + 1 + (n + 1)) c.code.size ∧
      call.stack = push.stack.push (c.code.immediate (push.pc + 1) (n + 1)) := by
  obtain ⟨s, -, t, moved, made, made'⟩ := records_neighbours pushed behind
  obtain ⟨-, place, -, stack, -⟩ := record?_eq_some_iff.mp made
  obtain ⟨-, place', -, stack', -⟩ := record?_eq_some_iff.mp made'
  cases advance_of_next moved made with
  | landed landing entry => cases pushes.symm.trans entry
  | performed fetching fetched =>
    rw [pushes] at fetched
    rw [place, place', stack, stack']
    exact push_moved fetching fetched moved

theorem call_behind_push (pushed : (records c (.start gasLimit))[i]? = some push)
    (pushes : push.opcode = .push n) (called : (records c (.start gasLimit))[i + 1]? = some call)
    (calls : call.opcode = .jumpsub)
    (entered : (records c (.start gasLimit))[i + 2]? = some entry) :
    c.code.CallsDirectly entry.pc := by
  have pushHeld := record_held (List.mem_of_getElem? pushed)
  have callHeld := record_held (List.mem_of_getElem? called)
  rw [pushes] at pushHeld
  rw [calls] at callHeld
  obtain ⟨place, stack⟩ := record_behind_push pushed pushes called
  -- The JUMPSUB is a byte of the code, so that the program counter has not been stopped at its end.
  have inside := Code.marked_lt_size (Code.holds_iff.mp callHeld).1
  have behind : call.pc = push.pc + 1 + (n + 1) := by omega
  obtain ⟨-, -, ⟨dest, operand, target⟩, -⟩ := call_record called calls entered
  rw [stack, Stack.items_push] at operand
  obtain ⟨pushedWord, -⟩ := List.cons.inj operand
  refine ⟨push.pc, n, pushHeld, ?_, by rwa [behind] at callHeld⟩
  rw [← target, ← pushedWord]
  exact (Code.immediate_toNat_of_whole (by omega) (by omega)).symm

end Records

/-- A BEGINSUB that a run enters from a JUMPSUB directly behind a PUSH is not reported as one that
    nothing calls directly. -/
theorem directly_called_not_reported (code : Code) (config : Config) {i : Nat} {n : Fin 32}
    {push call entry : StepRecord} (pushed : (stepRecords code config)[i]? = some push)
    (pushes : push.opcode = .push n) (called : (stepRecords code config)[i + 1]? = some call)
    (calls : call.opcode = .jumpsub) (entered : (stepRecords code config)[i + 2]? = some entry) :
    entry.opcode = .beginsub ∧ .unreachableSubroutine entry.pc ∉ (analyze code).issues := by
  obtain ⟨-, logged⟩ := runTraced_log code config
  rw [logged] at pushed called entered
  obtain ⟨lands, -⟩ := call_record called calls entered
  refine ⟨lands, ?_⟩
  intro reported
  exact (unreachable_mem_iff.mp reported).2 (call_behind_push pushed pushes called calls entered)

theorem entry_called_by_wide_push :
    let code := Code.ofBytes [0x61, 0x00, 0x05, 0xb3, 0x00, 0xb2, 0xb7]
    let entry : StepRecord := ⟨5, .beginsub, 3, .empty, .ofItems [4]⟩
    (stepRecords code ⟨14, 1024⟩)[2]? = some entry ∧ entry.opcode = .beginsub ∧
      .unreachableSubroutine 5 ∉ (analyze code).issues := by
  intro code entry
  have pushed : (stepRecords code ⟨14, 1024⟩)[0]? =
      some ⟨0, .push 1, 14, .empty, .empty⟩ := by decide +kernel
  have called : (stepRecords code ⟨14, 1024⟩)[1]? =
      some ⟨3, .jumpsub, 11, .ofItems [5], .empty⟩ := by decide +kernel
  have entered : (stepRecords code ⟨14, 1024⟩)[2]? = some entry := by decide +kernel
  exact ⟨entered, directly_called_not_reported code ⟨14, 1024⟩ pushed rfl called rfl entered⟩

end SubroutineVM
