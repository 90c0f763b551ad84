import SubroutineVM.Proofs.CommandLine.Loading
import SubroutineVM.Proofs.Machine.Observation
import SubroutineVM.Proofs.Text.OneLine

/-!
Running a code with its trace shown and without. The abort record is kept in either case
(`read_silent`, `read_printing`), so that the message of an abort does not depend on it. Main
statement: `traced_run_agrees`.
-/
namespace SubroutineVM

def Config.ofGas (gas : Nat) : Config := { Config.standard with gasLimit := gas }

def fullTrace (code : Code) (config : Config) : TraceLog :=
  (runTraced code config TraceLog.tracer .empty).2

def TraceLog.stepLines (log : TraceLog) : List String :=
  log.steps.toList.map fun r => r.json.compact

namespace Transcript

theorem foldl_silent (rs : List StepRecord) (t : Transcript) :
    rs.foldl (tracer false).receive t = t := by
  induction rs with
  | nil => rfl
  | cons r rs ih => exact ih

theorem foldl_printing (rs : List StepRecord) (t : Transcript) :
    rs.foldl (tracer true).receive t =
      { t with records := t.records ++ (rs.map fun r => r.json.compact).toArray } := by
  induction rs generalizing t with
  | nil => simp
  | cons r rs ih =>
    rw [List.foldl_cons, ih]
    simp [Tracer.receive, tracer]

theorem read_silent (log : TraceLog) : (tracer false).read log .empty = ⟨#[], log.abort?⟩ := by
  rw [Tracer.read, foldl_silent]
  cases log.abort? with
  | none => rfl
  | some r => rfl

theorem read_printing (log : TraceLog) : (tracer true).read log .empty =
    ⟨(log.stepLines ++ log.abort?.toList.map fun r => r.json.compact).toArray, log.abort?⟩ := by
  rw [Tracer.read, foldl_printing]
  cases log.abort? with
  | none => simp [empty, TraceLog.stepLines]
  | some r => simp [empty, TraceLog.stepLines, tracer]

end Transcript

section Run

variable {code : Code} {gas : Nat}

theorem isLine_of_stepLine {log : TraceLog} : ∀ line ∈ log.stepLines, IsLine line := by
  intro line member
  obtain ⟨r, -, rfl⟩ := List.mem_map.mp member
  exact Json.isLine_compact _

theorem fullTrace_abort? (code : Code) (config : Config) : (fullTrace code config).abort? =
    abortRecord? ⟨code, config.stackLimit⟩ (run code config) := by
  rw [fullTrace, runTraced_log_eq, run_eq]

/-- What the transcript keeps of the trace decides, with the result, what is answered. -/
theorem respond_run (store : FileStore) (trace : Bool) : Response.run store code gas trace =
    let transcript := (Transcript.tracer trace).read (fullTrace code (.ofGas gas)) .empty
    let records := lines transcript.records.toList
    match run code (.ofGas gas) with
    | .ok outcome => ⟨ExitCode.success, records ++ lines (("ok gas_used=" ++
        toString outcome.gasUsed) :: outcome.stack.items.map Word.text), "", store⟩
    | .error f =>
      ⟨ExitCode.aborted, records, lines [Response.abortMessage f transcript.abort?], store⟩ := by
  rw [Response.run, runTraced_eq]
  rfl

theorem respond_succeeded {outcome : Outcome} (store : FileStore)
    (succeeded : run code (.ofGas gas) = .ok outcome) :
    ∃ shown, Response.run store code gas false = ⟨ExitCode.success, shown, "", store⟩ ∧
      Response.run store code gas true = ⟨ExitCode.success,
        lines (fullTrace code (.ofGas gas)).stepLines ++ shown, "", store⟩ := by
  have kept := fullTrace_abort? code (.ofGas gas)
  rw [succeeded, abortRecord?] at kept
  refine ⟨lines (("ok gas_used=" ++ toString outcome.gasUsed) ::
    outcome.stack.items.map Word.text), ?_, ?_⟩
  · rw [respond_run, Transcript.read_silent, succeeded]
    simp only [lines, List.map_nil, String.join_nil, String.empty_append]
  · rw [respond_run, Transcript.read_printing, succeeded, kept]
    simp only [Option.toList_none, List.map_nil, List.append_nil]

theorem respond_aborted {f : Fault} (store : FileStore)
    (aborted : run code (.ofGas gas) = .error f) :
    ∃ r, (fullTrace code (.ofGas gas)).abort? = some r ∧
      let message := "runtime error: " ++ r.error ++ " at pc " ++ toString r.pc ++ " (" ++
        r.op ++ ")"
      Response.run store code gas false = ⟨ExitCode.aborted, "", lines [message], store⟩ ∧
        Response.run store code gas true = ⟨ExitCode.aborted,
          lines ((fullTrace code (.ofGas gas)).stepLines ++ [r.json.compact]), lines [message],
          store⟩ := by
  have kept := fullTrace_abort? code (.ofGas gas)
  rw [aborted, abortRecord?] at kept
  refine ⟨_, kept, ?_, ?_⟩
  · rw [respond_run, Transcript.read_silent, aborted, kept]
    rfl
  · rw [respond_run, Transcript.read_printing, aborted, kept]
    rfl

end Run

/-- The trace adds lines to what `run` prints and changes nothing else. In front of the result of a
    successful execution stand the lines of its step records, and the line of the abort record
    stands behind those of an aborted one, whose message always has this record. -/
theorem traced_run_agrees (store : FileStore) (input : String) (gas : Nat) :
    let plain := (Command.run input gas false).respond store
    let traced := (Command.run input gas true).respond store
    traced.exit = plain.exit ∧ traced.stderr = plain.stderr ∧ plain.store = store ∧
      traced.store = store ∧
    (∀ message, store.loadCode input = .error message →
      plain.exit = 1 ∧ plain.stdout = "" ∧ traced.stdout = "") ∧
    ∀ code, store.loadCode input = .ok code →
      let trace := fullTrace code (.ofGas gas)
      (∀ line ∈ trace.stepLines, IsLine line) ∧
      (∀ outcome, run code (.ofGas gas) = .ok outcome → plain.exit = 0 ∧ plain.stderr = "" ∧
        traced.stdout = lines trace.stepLines ++ plain.stdout) ∧
      ∀ f, run code (.ofGas gas) = .error f →
        ∃ r, trace.abort? = some r ∧ IsLine r.json.compact ∧ plain.exit = 3 ∧
          plain.stdout = "" ∧ traced.stdout = lines (trace.stepLines ++ [r.json.compact]) ∧
          plain.stderr = lines ["runtime error: " ++ r.error ++ " at pc " ++ toString r.pc ++
            " (" ++ r.op ++ ")"] := by
  intro plain traced
  have answered : plain = store.withCode input (fun code => .run store code gas false) ∧
      traced = store.withCode input (fun code => .run store code gas true) := ⟨rfl, rfl⟩
  cases loaded : store.loadCode input with
  | error message =>
    rw [withCode_refused loaded, withCode_refused loaded] at answered
    rw [answered.1, answered.2]
    exact ⟨rfl, rfl, rfl, rfl, fun _ _ => ⟨rfl, rfl, rfl⟩, nofun⟩
  | ok code =>
    rw [withCode_loaded loaded, withCode_loaded loaded] at answered
    cases result : run code (.ofGas gas) with
    | ok outcome =>
      obtain ⟨shown, silent, printing⟩ := respond_succeeded store result
      rw [answered.1, answered.2, silent, printing]
      refine ⟨rfl, rfl, rfl, rfl, nofun, ?_⟩
      rintro _ ⟨⟩
      refine ⟨isLine_of_stepLine, fun _ _ => ⟨rfl, rfl, rfl⟩, ?_⟩
      intro f aborted
      cases result.symm.trans aborted
    | error f =>
      obtain ⟨r, kept, silent, printing⟩ := respond_aborted store result
      rw [answered.1, answered.2, silent, printing]
      refine ⟨rfl, rfl, rfl, rfl, nofun, ?_⟩
      rintro _ ⟨⟩
      refine ⟨isLine_of_stepLine, ?_, fun _ _ => ?_⟩
      · intro outcome succeeded
        cases result.symm.trans succeeded
      · exact ⟨r, kept, Json.isLine_compact _, rfl, rfl, rfl, rfl⟩

theorem unpaid_landing_shown_with_trace :
    let store := FileStore.ofFiles [("call.asm", "PUSH1 4\nJUMPSUB\nSTOP\nBEGINSUB\n".toUTF8)]
    let plain input gas := (Command.run input gas false).respond store
    let traced input gas := (Command.run input gas true).respond store
    let call : List StepRecord := [⟨0, .push 0, 11, .empty, .empty⟩,
      ⟨2, .jumpsub, 8, .ofItems [4], .empty⟩, ⟨4, .beginsub, 0, .empty, .ofItems [3]⟩]
    let abort : AbortRecord := ⟨4, some .beginsub, .outOfGas⟩
    (plain "./call.asm" 11).exit = 3 ∧ (plain "./call.asm" 11).stdout = "" ∧
      (plain "./call.asm" 11).stderr = "runtime error: out of gas at pc 4 (BEGINSUB)\n" ∧
      (traced "./call.asm" 11).stdout =
        lines ((call.map fun r => r.json.compact) ++ [abort.json.compact]) ∧
      (plain "6001" 3).stdout = "ok gas_used=3\n0x1\n" ∧
      (traced "6001" 3).stdout = lines
        [(⟨0, .push 0, 3, .empty, .empty⟩ : StepRecord).json.compact] ++ (plain "6001" 3).stdout ∧
      (plain "zz" 3).exit = 1 := by
  intro store plain traced call abort
  have loaded : store.loadCode "./call.asm" = .ok (.ofBytes [0x60, 0x04, 0xb3, 0x00, 0xb2]) := by
    decide +kernel
  have inline : store.loadCode "6001" = .ok (.ofBytes [0x60, 0x01]) := by decide +kernel
  have refused : store.loadCode "zz" = .error ("error: 'zz' is neither a file nor valid hex: " ++
      (Hex.Error.strayByte 0x7a 0).message) := by decide +kernel
  have aborted : run (.ofBytes [0x60, 0x04, 0xb3, 0x00, 0xb2]) (.ofGas 11) =
      .error ⟨4, .outOfGas⟩ := by
    rw [run_eq, Ending.result_eq_error_iff]
    decide +kernel
  have succeeded : run (.ofBytes [0x60, 0x01]) (.ofGas 3) = .ok ⟨3, .ofItems [1], 2⟩ := by
    rw [run_eq, Ending.result_eq_ok_iff]
    decide +kernel
  have steps : (fullTrace (.ofBytes [0x60, 0x04, 0xb3, 0x00, 0xb2]) (.ofGas 11)).steps.toList =
      call := by decide +kernel
  have step : (fullTrace (.ofBytes [0x60, 0x01]) (.ofGas 3)).steps.toList =
      [⟨0, .push 0, 3, .empty, .empty⟩] := by decide +kernel
  obtain ⟨-, -, -, -, -, answers⟩ := traced_run_agrees store "./call.asm" 11
  obtain ⟨-, -, abortion⟩ := answers _ loaded
  obtain ⟨r, kept, -, exit, stdout, records, stderr⟩ := abortion _ aborted
  have shown : (fullTrace (.ofBytes [0x60, 0x04, 0xb3, 0x00, 0xb2]) (.ofGas 11)).abort? =
      some abort := by decide +kernel
  cases shown.symm.trans kept
  obtain ⟨-, -, -, -, -, answers⟩ := traced_run_agrees store "6001" 3
  obtain ⟨-, success, -⟩ := answers _ inline
  obtain ⟨-, -, record⟩ := success _ succeeded
  obtain ⟨-, -, -, -, failure, -⟩ := traced_run_agrees store "zz" 3
  rw [TraceLog.stepLines, steps] at records
  rw [TraceLog.stepLines, step] at record
  refine ⟨exit, stdout, ?_, records, by decide +kernel, record, (failure _ refused).1⟩
  rw [stderr]
  decide +kernel

end SubroutineVM
