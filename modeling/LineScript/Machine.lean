import LineScript.Action
import LineScript.CallStack
import LineScript.Heap.Rendering
/-!
# The machine

Everything that a running program can change: the heap, its scopes, the state of the host with what callbacks
hold of it, and the number of calls it is in.

The stacks of renderings and of comparisons are not among these. Each begins and ends inside one operation, and gives
its stack back as it was, whether or not it fails (`rendering_marks_cycles`, `equal_decides_bisimilar`).
-/

namespace LineScript

structure Machine extends HostState where
  heap : Heap
  scopes : Scopes
  /-- The cells that callbacks hold. -/
  borrowed : List Cell
  /-- The number of calls that are active. -/
  depth : Nat
  /-- The number of calls that may be. -/
  limit : Nat

abbrev Eval (α : Type) := Action Machine α

namespace Machine

def ofConsole (console : Console) : Machine :=
  ⟨⟨console, []⟩, .empty, .empty, [], 0, CallStack.defaultLimit⟩

end Machine

namespace Eval

/-- An action on the heap as one on the machine. -/
def onHeap {α : Type} (action : Action Heap α) : Eval α := fun ⟨host, heap, scopes, borrowed, depth, limit⟩ =>
  match action heap with
  | .ok a heap => .ok a ⟨host, heap, scopes, borrowed, depth, limit⟩
  | .error e heap => .error e ⟨host, heap, scopes, borrowed, depth, limit⟩

/-- A step on the scopes as one on the machine. -/
def onScopes {α : Type} (step : Scopes → α × Scopes) : Eval α := fun ⟨host, heap, scopes, borrowed, depth, limit⟩ =>
  let (a, scopes) := step scopes
  .ok a ⟨host, heap, scopes, borrowed, depth, limit⟩

/-- A failure inside the action that has no position gets this one. -/
def located {α : Type} (p : Position) (action : Eval α) : Eval α := fun m =>
  match action m with
  | .error (.failure f) m => .error (.failure (f.orPosition p)) m
  | result => result

/-- Counts a call while it lasts, and refuses one too many. -/
def nested {α : Type} (action : Eval α) : Eval α := fun m =>
  if m.limit ≤ m.depth then raise (.callDepth m.limit) m
  else
    match action { m with depth := m.depth + 1 } with
    | .ok a m => .ok a { m with depth := m.depth - 1 }
    | .error e m => .error e { m with depth := m.depth - 1 }

/-! ### Code of the host -/

/-- A step on the host's state as one on the machine. -/
def exchange (step : HostState → Reply × HostState) : Eval Reply := fun ⟨host, heap, scopes, borrowed, depth, limit⟩ =>
  let (reply, host) := step host
  .ok reply ⟨host, heap, scopes, borrowed, depth, limit⟩

/-- A failure of the action is something to reply, as its result is. -/
def attempt (action : Eval Value) : Eval Reply := fun m =>
  match action m with
  | .ok v m => .ok (.ok v) m
  | .error (.failure f) m => .ok (.error f) m
  | .error e m => .error e m

/-- A fault inside the action is the host's. -/
def blaming {α : Type} (action : Eval α) : Eval α := fun m =>
  match action m with
  | .error (.fault f) m => .error (.fault (.ofHost f)) m
  | result => result

/-- Holds a cell while the action lasts, and faults if it is held already. -/
def borrowing {α : Type} (cell : Cell) (action : Eval α) : Eval α := fun m =>
  if cell ∈ m.borrowed then .error (.fault .alreadyBorrowed) m
  else
    match action { m with borrowed := cell :: m.borrowed } with
    | .ok a m => .ok a { m with borrowed := m.borrowed.erase cell }
    | .error e m => .error e { m with borrowed := m.borrowed.erase cell }

end Eval

end LineScript
