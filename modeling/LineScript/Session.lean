import LineScript.Evaluation
import LineScript.Library
import LineScript.Program.Parser
/-!
# Sessions

A session runs programs against a library. Each run has scopes of its own, which are emptied when it ends, so that
what a program leaves behind is in the library's objects and in the values that the host keeps.
-/

namespace LineScript

structure Session where
  library : Library
  maxCallDepth : Nat

namespace Session

/-- The depth of steps and the rounds of a loop that an evaluation may take, more than any machine will make. -/
def fuel : Nat := Nat.pow 2 62

def stackSize (s : Session) : Nat :=
  CallStack.sizeFor s.maxCallDepth

/-- A call by the host, outside every run. -/
def call (f : Value) (args : List Value) : Eval Value :=
  Eval.execute fuel (.call f args)

/-- A run at its start: the arena and the outermost scope that it is given, and the machine with both. -/
structure Start where
  arena : ArenaId
  root : Scope
  machine : Machine

/-- The limit of calls is the session's while a program runs. -/
def start (s : Session) (m : Machine) : Start :=
  let (arena, scopes) := m.scopes.newArena
  let (root, scopes) := scopes.newArenaRoot arena (s.library.bindings m.heap)
  ⟨arena, root, { m with scopes, limit := s.maxCallDepth }⟩

/-- The end of a run. A result or a failure empties the scopes of the run; a fault does not get that far. The limit of
calls is again what it was outside. -/
def finish (arena : ArenaId) (limit : Nat) :
    EStateM.Result Interrupt Machine Value → EStateM.Result Interrupt Machine Value
  | .ok v m => .ok v { m with scopes := m.scopes.release arena, limit }
  | .error (.failure f) m => .error (.failure f) { m with scopes := m.scopes.release arena, limit }
  | .error e m => .error e { m with limit }

/-- Runs a program under a bound on its steps. -/
def runWith (fuel : Nat) (s : Session) (p : Program) : Eval Value := fun m =>
  let start := s.start m
  finish start.arena m.limit (Eval.statements (Eval.execute fuel) start.root .none p.body start.machine)

def run (s : Session) (p : Program) : Eval Value :=
  runWith fuel s p

def compile (source text : String) : Eval Program :=
  match Program.parse source text with
  | .ok p => pure p
  | .error stop => throw stop.interrupt

def execute (s : Session) (source text : String) : Eval Value := do
  s.run (← compile source text)

/-- The text of a source that is read as bytes. -/
def decode (bytes : ByteArray) : Eval String :=
  match String.fromUTF8? bytes with
  | some text => pure text
  | none => throw (.failure (.io "stream did not contain valid UTF-8"))

def compileBytes (source : String) (bytes : ByteArray) : Eval Program := do
  compile source (← decode bytes)

def executeBytes (s : Session) (source : String) (bytes : ByteArray) : Eval Value := do
  s.run (← compileBytes source bytes)

end Session

end LineScript
