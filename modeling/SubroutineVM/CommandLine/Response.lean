import SubroutineVM.Assembly.Source
import SubroutineVM.CommandLine.Command
import SubroutineVM.CommandLine.FileStore
import SubroutineVM.Machine.Trace
import SubroutineVM.Report.Json

/-!
What a command answers, given the files it sees. The exit code tells success from a faulty
input, a report with errors and an aborted execution.
-/
namespace SubroutineVM

namespace ExitCode

def success : Nat := 0
def badInput : Nat := 1
def badReport : Nat := 2
def aborted : Nat := 3

end ExitCode

structure Response where
  exit : Nat
  stdout : String
  stderr : String
  store : FileStore

def lines (texts : List String) : String := String.join (texts.map (· ++ "\n"))

namespace FileStore

def missing : String := "No such file or directory (os error 2)"

def readText (store : FileStore) (path : String) : Except String String :=
  match store.read? path with
  | none => .error missing
  | some content =>
    match String.fromUTF8? content with
    | none => .error "stream did not contain valid UTF-8"
    | some text => .ok text

/-- The code that an input denotes. An input that is no file is hex itself; a file with the
    extension `asm` is assembled, and any other is read as hex. -/
def loadCode (store : FileStore) (input : String) : Except String Code :=
  match store.read? input with
  | none =>
    match Code.read input with
    | .ok code => .ok code
    | .error e =>
      .error ("error: '" ++ input ++ "' is neither a file nor valid hex: " ++ e.message)
  | some _ =>
    match store.readText input with
    | .error reason => .error ("error: cannot read '" ++ input ++ "': " ++ reason)
    | .ok text =>
      if (Location.ofPath input).extension? = some "asm" then
        match Assembly.assemble text with
        | .ok code => .ok code
        | .error e => .error ("error: " ++ input ++ ": " ++ e.message)
      else match Code.read text with
        | .ok code => .ok code
        | .error e => .error ("error: " ++ input ++ ": " ++ e.message)

end FileStore

structure Transcript where
  records : Array String
  abort? : Option AbortRecord

namespace Transcript

def empty : Transcript := ⟨#[], none⟩

def tracer (printing : Bool) : Tracer Transcript where
  enabled _ := printing
  step r t := { t with records := t.records.push r.json.compact }
  abort r t :=
    ⟨if printing then t.records.push r.json.compact else t.records, some r⟩

end Transcript

namespace Response

def failure (store : FileStore) (message : String) : Response :=
  ⟨ExitCode.badInput, "", lines [message], store⟩

def abortMessage (f : Fault) : Option AbortRecord → String
  | some r =>
    "runtime error: " ++ r.error ++ " at pc " ++ toString r.pc ++ " (" ++ r.op ++ ")"
  | none => "runtime error: " ++ f.cause.message

def run (store : FileStore) (code : Code) (gas : Nat) (trace : Bool) : Response :=
  let config := { Config.standard with gasLimit := gas }
  let (result, transcript) := runTraced code config (Transcript.tracer trace) .empty
  let records := lines transcript.records.toList
  match result with
  | .ok outcome =>
    let shown := ("ok gas_used=" ++ toString outcome.gasUsed) :: outcome.stack.items.map Word.text
    ⟨ExitCode.success, records ++ lines shown, "", store⟩
  | .error f => ⟨ExitCode.aborted, records, lines [abortMessage f transcript.abort?], store⟩

def assemble (store : FileStore) (input : String) (output? : Option String) : Response :=
  match store.readText input with
  | .error reason => failure store ("error: cannot read '" ++ input ++ "': " ++ reason)
  | .ok text =>
    match Assembly.assemble text with
    | .error e => failure store ("error: " ++ e.message)
    | .ok code =>
      match output? with
      | none => ⟨ExitCode.success, lines [code.hex], "", store⟩
      | some output =>
        match store.write? output (lines [code.hex]).toUTF8 with
        | none =>
          failure store ("error: cannot write '" ++ output ++ "': " ++ FileStore.missing)
        | some after =>
          ⟨ExitCode.success, "",
            lines ["assembled " ++ toString code.size ++ " bytes -> " ++ output], after⟩

def offsetLine (offsets : List Nat) : String :=
  if offsets.isEmpty then "-" else ", ".intercalate (offsets.map toString)

def issueLine (issue : Issue) : String :=
  (if issue.isError then "error: " else "warning: ") ++ issue.message

def analyze (store : FileStore) (code : Code) (json : Bool) : Response :=
  let report := SubroutineVM.analyze code
  let exit := if report.hasErrors then ExitCode.badReport else ExitCode.success
  if json then ⟨exit, lines [report.json.pretty], "", store⟩
  else
    ⟨exit,
      lines ["digest: " ++ report.digest, "instructions: " ++ toString report.instructions.length,
        "jump destinations: " ++ offsetLine report.jumpDestinations,
        "subroutine entries: " ++ offsetLine report.subroutineEntries],
      lines (report.issues.map issueLine), store⟩

end Response

def FileStore.withCode (store : FileStore) (input : String) (answer : Code → Response) :
    Response :=
  match store.loadCode input with
  | .error message => .failure store message
  | .ok code => answer code

def Command.respond (store : FileStore) : Command → Response
  | .run input gas trace => store.withCode input fun code => .run store code gas trace
  | .assemble input output? => .assemble store input output?
  | .disassemble input => store.withCode input fun code =>
    ⟨ExitCode.success, Assembly.disassemble code, "", store⟩
  | .analyze input json => store.withCode input fun code => .analyze store code json

end SubroutineVM
