import SubroutineVM.Machine.Step

/-!
Whole executions. A machine holds a context and a state, runs to its end at the first call of
`execute` and answers every later call with the result of the first. An observer is shown each
state before its move, and the result; what it keeps never enters the execution.
-/
namespace SubroutineVM

structure Ending where
  state : State
  cause? : Option Cause
  deriving DecidableEq

/-- Moves until none leads on. Every state met goes through `visit` in order. -/
def watch {σ : Type} (c : Context) (visit : State → σ → σ) (seen : σ) (s : State) : Ending × σ :=
  match _moved : step c s with
  | .next t => watch c visit (visit s seen) t
  | .halt t => (⟨t, none⟩, visit s seen)
  | .fault t cause => (⟨t, some cause⟩, visit s seen)
termination_by s.gas.remaining
decreasing_by exact step_decreases _moved

structure Outcome where
  gasUsed : Nat
  stack : Stack Word
  pc : Nat
  deriving DecidableEq

abbrev Result := Except Fault Outcome

namespace Ending

def result (e : Ending) : Result :=
  match e.cause? with
  | none => .ok ⟨e.state.gas.used, e.state.stack, e.state.pc⟩
  | some cause => .error ⟨e.state.pc, cause⟩

def settle (e : Ending) : State :=
  match e.cause? with
  | none => e.state
  | some _ => { e.state with gas := e.state.gas.exhaust }

end Ending

structure Observer (σ : Type) where
  visit : Context → State → σ → σ
  finish : Context → Result → σ → σ

namespace Observer

def silent : Observer Unit := ⟨fun _ _ _ => (), fun _ _ _ => ()⟩

def both {σ τ : Type} (a : Observer σ) (b : Observer τ) : Observer (σ × τ) where
  visit c s seen := (a.visit c s seen.1, b.visit c s seen.2)
  finish c r seen := (a.finish c r seen.1, b.finish c r seen.2)

end Observer

structure Config where
  gasLimit : Nat
  stackLimit : Nat

def Config.standard : Config := ⟨10000000, 1024⟩

structure Machine where
  context : Context
  state : State
  result? : Option Result

structure Execution (σ : Type) where
  result : Result
  machine : Machine
  seen : σ

namespace Machine

def new (code : Code) (config : Config) : Machine :=
  ⟨⟨code, config.stackLimit⟩, .start config.gasLimit, none⟩

def isFinished (m : Machine) : Bool := m.result?.isSome

def execute {σ : Type} (m : Machine) (observer : Observer σ) (seen : σ) : Execution σ :=
  match m.result? with
  | some result => ⟨result, m, seen⟩
  | none =>
    let (ending, seen) := watch m.context (observer.visit m.context) seen m.state
    let result := ending.result
    ⟨result, { m with state := ending.settle, result? := some result },
      observer.finish m.context result seen⟩

end Machine

def run (code : Code) (config : Config) : Result :=
  ((Machine.new code config).execute .silent ()).result

end SubroutineVM
