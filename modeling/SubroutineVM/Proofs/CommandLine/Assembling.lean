import SubroutineVM.Proofs.CommandLine.Loading
import SubroutineVM.Proofs.Text.HexReading

/-!
Assembling to a file. The file holds the hex of the code and one line end, which is read back as
the code (`read_line`), so that the file stands for its source in every command on a code. Main
statement: `assembled_file_answers_alike`.
-/
namespace SubroutineVM

theorem Hex.lower_encodeChars (bytes : List UInt8) :
    (encodeChars bytes).map Char.toLower = encodeChars bytes := by
  have lower : ∀ c ∈ encodeChars bytes, c.toLower = c := by
    intro c member
    obtain ⟨n, bound, rfl⟩ := mem_encodeChars member
    exact (Digits.hex?_eq_some_iff_toLower.mp (digit_sound bound).1).2
  rw [List.map_congr_left lower, List.map_id']

theorem Code.read_line (code : Code) : Code.read (lines [code.hex]) = .ok code := by
  have line : lines [code.hex] = String.ofList ([] ++ code.hex.toList ++ ['\n']) := by
    rw [← String.toList_inj, String.toList_ofList]
    simp [lines, String.toList_append]
  have blank : ∀ c ∈ ['\n'], Blank.isBlank c = true := List.forall_mem_singleton.mpr rfl
  rw [line]
  refine read_shown (by simp) blank (.inl ?_)
  rw [toList_hex, Hex.lower_encodeChars]

section Assembled

variable {store : FileStore} {input output text : String}

theorem respond_printed {code : Code} (read : store.readText input = .ok text)
    (assembled : Assembly.assemble text = .ok code) :
    (Command.assemble input none).respond store =
      ⟨ExitCode.success, lines [code.hex], "", store⟩ := by
  simp only [Command.respond, Response.assemble, read, assembled]

theorem respond_written {code : Code} {after : FileStore} (read : store.readText input = .ok text)
    (assembled : Assembly.assemble text = .ok code)
    (written : store.write? output (lines [code.hex]).toUTF8 = some after) :
    (Command.assemble input (some output)).respond store = ⟨ExitCode.success, "",
      lines ["assembled " ++ toString code.size ++ " bytes -> " ++ output], after⟩ := by
  simp only [Command.respond, Response.assemble, read, assembled, written]

theorem respond_unassembled {e : Assembly.Error} (output? : Option String)
    (read : store.readText input = .ok text) (refused : Assembly.assemble text = .error e) :
    (Command.assemble input output?).respond store =
      .failure store ("error: " ++ e.message) := by
  simp only [Command.respond, Response.assemble, read, refused]

end Assembled

/-- What is assembled to a file is what is printed without one, and the file answers every command
    on a code as its source does, be the code empty or not. A text that does not assemble leaves all
    files as they are. -/
theorem assembled_file_answers_alike (store : FileStore) (input output text : String)
    (source : (Location.ofPath input).extension? = some "asm")
    (read : store.readText input = .ok text) :
    let printed := (Command.assemble input none).respond store
    let answer := (Command.assemble input (some output)).respond store
    (∀ code, Assembly.assemble text = .ok code → store.Writable output →
      (Location.ofPath output).extension? ≠ some "asm" →
      answer.exit = 0 ∧ printed.exit = 0 ∧
      answer.store.read? output = some printed.stdout.toUTF8 ∧
      (∀ path, Location.ofPath path ≠ Location.ofPath output →
        answer.store.read? path = store.read? path) ∧
      (∀ gas trace, ((Command.run output gas trace).respond answer.store).shown =
        ((Command.run input gas trace).respond store).shown) ∧
      ((Command.disassemble output).respond answer.store).shown =
        ((Command.disassemble input).respond store).shown ∧
      ∀ json, ((Command.analyze output json).respond answer.store).shown =
        ((Command.analyze input json).respond store).shown) ∧
    ∀ e, Assembly.assemble text = .error e → answer.exit = 1 ∧ answer.store = store := by
  intro printed answer
  constructor
  · intro code assembled writable noSource
    obtain ⟨after, written⟩ := store.write?_of_writable writable (lines [code.hex]).toUTF8
    have plain : printed = _ := respond_printed read assembled
    have made : answer = _ := respond_written read assembled written
    have before : store.loadCode input = .ok code :=
      FileStore.loadCode_assembled read source assembled
    have later : after.loadCode output = .ok code :=
      FileStore.loadCode_hex (FileStore.readText_write? written) noSource code.read_line
    rw [made, plain]
    exact ⟨rfl, rfl, FileStore.read?_write? written rfl,
      fun _ => FileStore.read?_write?_other written, answers_alike before later⟩
  · intro e refused
    have failed : answer = _ := respond_unassembled (some output) read refused
    rw [failed]
    exact ⟨rfl, rfl⟩

theorem call_assembled_to_file :
    let store := FileStore.ofFiles
      [("call.asm", "push1 4 ; in\njumpsub\nSTOP\nBEGINSUB\nRETURNSUB\n".toUTF8),
        ("wide.asm", "PUSH1 256".toUTF8)]
    let answer := (Command.assemble "call.asm" (some "./call.hex")).respond store
    let refused := (Command.assemble "wide.asm" (some "call.hex")).respond store
    answer.exit = 0 ∧ answer.store.read? "./call.hex" = some "6004b300b2b7\n".toUTF8 ∧
      ((Command.run "./call.hex" 11 true).respond answer.store).shown =
        ((Command.run "call.asm" 11 true).respond store).shown ∧
      ((Command.analyze "./call.hex" true).respond answer.store).shown =
        ((Command.analyze "call.asm" true).respond store).shown ∧
      refused.exit = 1 ∧ refused.store = store := by
  intro store answer refused
  have read : store.readText "call.asm" =
      .ok "push1 4 ; in\njumpsub\nSTOP\nBEGINSUB\nRETURNSUB\n" := by decide +kernel
  have assembled : Assembly.assemble "push1 4 ; in\njumpsub\nSTOP\nBEGINSUB\nRETURNSUB\n" =
      .ok (.ofBytes [0x60, 0x04, 0xb3, 0x00, 0xb2, 0xb7]) := by decide +kernel
  have printed : ((Command.assemble "call.asm" none).respond store).stdout = "6004b300b2b7\n" := by
    decide +kernel
  have wide : store.readText "wide.asm" = .ok "PUSH1 256" := by decide +kernel
  have fault : Assembly.assemble "PUSH1 256" = .error ⟨1, .valueTooLarge 0⟩ := by
    decide +kernel
  obtain ⟨made, -⟩ :=
    assembled_file_answers_alike store "call.asm" "./call.hex" _ (by decide +kernel) read
  obtain ⟨-, unmade⟩ :=
    assembled_file_answers_alike store "wide.asm" "call.hex" _ (by decide +kernel) wide
  obtain ⟨exit, -, content, -, runs, -, reports⟩ :=
    made _ assembled (by decide +kernel) (by decide +kernel)
  obtain ⟨bad, same⟩ := unmade _ fault
  rw [printed] at content
  exact ⟨exit, content, runs 11 true, reports true, bad, same⟩

end SubroutineVM
