import SubroutineVM.CommandLine.Response

/-!
The program: reads the file a command names, answers the command, and writes what it made.
-/
namespace SubroutineVM

def storeFor (command : Command) : IO FileStore := do
  let directories := match command with
    | .assemble _ (some output) => [(Location.ofPath output).directory]
    | _ => []
  let path : String := command.input
  try
    let content ← IO.FS.readBinFile path
    return ⟨[(.ofPath path, content)], directories⟩
  catch _ => return ⟨[], directories⟩

/-- Writes the output of a command; the message of a failure goes in the place of its answer. -/
def writeOutput (command : Command) (response : Response) : IO Response := do
  match command with
  | .assemble _ (some output) =>
    if response.exit ≠ ExitCode.success then return response
    let content := (response.store.read? output).getD .empty
    try
      IO.FS.writeBinFile output content
      return response
    catch e =>
      let reason := match e with
        | .noFileOrDirectory .. => FileStore.missing
        | _ => toString e
      return .failure response.store ("error: cannot write '" ++ output ++ "': " ++ reason)
  | _ => return response

end SubroutineVM

open SubroutineVM in
def main (args : List String) : IO UInt32 := do
  match Command.ofArguments? args with
  | none =>
    IO.eprintln "error: run CODE, assemble INPUT, disassemble CODE or analyze CODE expected"
    return 2
  | some command =>
    let response ← writeOutput command (command.respond (← storeFor command))
    IO.print response.stdout
    IO.eprint response.stderr
    return UInt32.ofNat response.exit
