import SubroutineVM.Digits
import SubroutineVM.Machine.Run

/-!
Commands and the arguments that spell them. Flags may stand before and after what they go with,
and two dashes end them. The flag `--verbose`, or `-v`, is not accepted: it asks for the log of an
execution, which is no part of an answer.
-/
namespace SubroutineVM

inductive Command where
  | run (input : String) (gas : Nat) (trace : Bool)
  | assemble (input : String) (output? : Option String)
  | disassemble (input : String)
  | analyze (input : String) (json : Bool)
  deriving DecidableEq

namespace Command

def input : Command → String
  | .run input .. => input
  | .assemble input _ => input
  | .disassemble input => input
  | .analyze input _ => input

inductive Argument where
  | plain (text : String)
  | flag (name : String) (value? : Option String)
  deriving DecidableEq

/-- Splits `--name=value` and `-nvalue`; a text without leading dash is no flag. -/
def flagParts? (text : String) : Option (String × Option String) :=
  match text.toList with
  | '-' :: '-' :: long =>
    match long.dropWhile (· ≠ '=') with
    | [] => some (text, none)
    | _ :: value =>
      some ("--" ++ String.ofList (long.takeWhile (· ≠ '=')), some (String.ofList value))
  | ['-', short] => some ("-" ++ String.singleton short, none)
  | '-' :: short :: '=' :: value =>
    some ("-" ++ String.singleton short, some (String.ofList value))
  | '-' :: short :: value => some ("-" ++ String.singleton short, some (String.ofList value))
  | _ => none

def arguments (valued : List String) : List String → List Argument
  | [] => []
  | text :: rest =>
    if text = "--" then rest.map .plain
    else match flagParts? text with
      | none => .plain text :: arguments valued rest
      | some (name, some value) => .flag name (some value) :: arguments valued rest
      | some (name, none) =>
        if name ∈ valued then
          match rest with
          | value :: rest => .flag name (some value) :: arguments valued rest
          | [] => [.flag name none]
        else .flag name none :: arguments valued rest

def gasAmount? (text : String) : Option Nat :=
  let digits := match text.toList with
    | '+' :: digits => digits
    | digits => digits
  if digits.isEmpty then none
  else (Digits.read? 10 Digits.decimal? digits).filter (· < 1 <<< 64)

def with? (named : Bool) (command : Command) (argument : Argument) : Option (Bool × Command) :=
  match command, argument with
  | .run input gas _, .flag "--trace" none => some (named, .run input gas true)
  | .run input _ trace, .flag "--gas" (some value) =>
    (gasAmount? value).map fun gas => (named, .run input gas trace)
  | .assemble input _, .flag "--output" (some output) => some (named, .assemble input (some output))
  | .assemble input _, .flag "-o" (some output) => some (named, .assemble input (some output))
  | .analyze input _, .flag "--json" none => some (named, .analyze input true)
  | command, .plain input =>
    if named then none
    else match command with
      | .run _ gas trace => some (true, .run input gas trace)
      | .assemble _ output? => some (true, .assemble input output?)
      | .disassemble _ => some (true, .disassemble input)
      | .analyze _ json => some (true, .analyze input json)
  | _, _ => none

def ofName? : String → Option Command
  | "run" => some (.run "" Config.standard.gasLimit false)
  | "assemble" => some (.assemble "" none)
  | "disassemble" => some (.disassemble "")
  | "analyze" => some (.analyze "" false)
  | _ => none

def ofArguments? : List String → Option Command
  | [] => none
  | name :: rest => do
    let bare ← ofName? name
    let (named, command) ← (arguments ["--gas", "--output", "-o"] rest).foldlM
      (fun (named, command) argument => with? named command argument) (false, bare)
    if named then some command else none

end Command

end SubroutineVM
