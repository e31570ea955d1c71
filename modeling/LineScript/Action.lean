import LineScript.Diagnostic
import LineScript.Fault
import LineScript.Program.Cursor
/-!
# Actions

An action changes a state and ends in a result or in an interruption, and keeps the state reached in either case.
An interruption is a failure of the program, a fault of the library or its host, or the end of the fuel that bounds
an evaluation: the three are never confused.
-/

namespace LineScript

inductive Interrupt where
  | failure (f : Failure)
  | fault (f : Fault)
  | outOfFuel
deriving DecidableEq

abbrev Action (σ α : Type) := EStateM Interrupt σ α

/-- Stops with a cause that has no position yet. -/
def raise {σ α : Type} (cause : RuntimeCause) : Action σ α :=
  throw (.failure (.ofCause cause))

def orRaise {σ α : Type} (cause : RuntimeCause) : Option α → Action σ α
  | some a => pure a
  | none => raise cause

def ParseStop.interrupt : ParseStop → Interrupt
  | rejected e => .failure (.diagnostic e.diagnostic)
  | fault f => .fault f
  | outOfFuel => .outOfFuel

end LineScript
