import LineScript.Bindings
import LineScript.Fault
import LineScript.HostState
import LineScript.Primitive
/-!
# Code of the host

A function that a host hands to scripts, its console and its hook for updates run code of the host. All that such code
can do to the library is to ask it for something: to apply an operation on values, to call a function, to make a
function or an object. Between two requests it may do what it likes with a state of its own. So it is a tree:
a request, and for every reply the code that goes on.

The tree has no endless path. Code that would go on for ever is one of those that `diverges` cuts short, each behind
some number of requests, and a run of it that ends is a run of one of them.
-/

namespace LineScript

inductive HostCode where
  | returns (v : Value)
  | raises (f : Failure)
  | panics (f : Fault)
  /-- Goes on for ever without another request. -/
  | diverges
  | applies (operation : Primitive) (args : List Value) (next : Reply → HostCode)
  | calls (f : Value) (args : List Value) (next : Reply → HostCode)
  | makesFunction (name : String) (params : List String) (body : List Value → HostCode) (next : Value → HostCode)
  | makesObject (name : String) (members : Bindings) (next : Value → HostCode)
  | exchanges (step : HostState → Reply × HostState) (next : Reply → HostCode)

namespace HostCode

/-- Passes on what it is told. -/
def handsOn : Reply → HostCode
  | .ok v => returns v
  | .error f => raises f

/-- Applies the operation to the arguments. A call is asked for as one. -/
def primitive (operation : Primitive) (args : List Value) : HostCode :=
  match operation, args with
  | .call, f :: rest => calls f rest handsOn
  | .call, [] => panics (.missingArgument 0 0)
  | operation, args => applies operation args handsOn

end HostCode

/-! ### Functions of the host -/

/-- Where a console or a hook is kept. Only one callback holds it at a time. -/
structure Cell where
  index : Nat
deriving DecidableEq, Repr

inductive Native where
  /-- Has the console that is kept in the cell write its argument as a line. -/
  | writeLine (cell : Cell) (write : Value → HostCode)
  /-- Asks the console or the hook that is kept in the cell. -/
  | asks (cell : Cell) (answer : HostCode)
  | convertTo (target : Tag)
  | host (body : List Value → HostCode)

namespace Native

def idle : Native :=
  host fun _ => .returns .none

/-- Returns the array of its arguments. -/
def collect : Native :=
  host fun args => .applies .makeArray args HostCode.handsOn

/-- Raises an error in the host's words. -/
def fail (text : String) (position : Option Position) : Native :=
  host fun _ => .raises (.diagnostic ⟨.reported .running text, position, []⟩)

def primitive (operation : Primitive) : Native :=
  host (HostCode.primitive operation)

end Native

/-! ### Consoles and hooks -/

/-- What a host brings to the standard library: how its console writes a value as a line and reads a line, and how its
hook makes an update. -/
structure Callbacks where
  writeLine : Value → HostCode
  readLine : HostCode
  update : HostCode

/-- Writes the text of a value, and takes lines and updates as the host's state has them. -/
def Callbacks.plain : Callbacks where
  writeLine v := .applies .display [v] fun
    | .ok (.string line) => .exchanges (HostState.write line) HostCode.handsOn
    | reply => HostCode.handsOn reply
  readLine := .exchanges HostState.readLine HostCode.handsOn
  update := .exchanges HostState.nextUpdate HostCode.handsOn

end LineScript
