import LineScript.Machine
/-!
# Host libraries

A library is a list of objects, each under a name of its own, that every program of a session finds bound. The
standard one reads and writes lines, converts values and asks the host for updates.
-/

namespace LineScript

abbrev Library := List ObjectId

namespace Library

/-- Adds an object behind the others, in place of an earlier one of its name. -/
def add (library : Library) (object : Object) : Action Heap Library := do
  let h ← get
  let others := library.filter fun id => (h.object id).name != object.name
  let id ← modifyGet (·.newObject object)
  return others ++ [id]

def nativeMember (name : String) (params : List String) (operation : Native) : Action Heap (String × Value) := do
  return (name, ← modifyGet (·.newFunction ⟨name, params, .native operation⟩))

/-- A cell that no function on the heap uses: each console and each hook is kept in one named after its first
function. -/
def newCell : Action Heap Cell := do
  return ⟨(← get).functions.size⟩

def console (c : Callbacks) : Action Heap Object := do
  let cell ← newCell
  return ⟨"Console", [← nativeMember "WriteLine" ["v"] (.writeLine cell c.writeLine),
    ← nativeMember "ReadLine" [] (.asks cell c.readLine)]⟩

def conversions : Action Heap Object := do
  return ⟨"Convert", [← nativeMember "ToString" ["v"] (.convertTo .string),
    ← nativeMember "ToBool" ["v"] (.convertTo .bool),
    ← nativeMember "ToNumber" ["v"] (.convertTo .number)]⟩

def system (c : Callbacks) : Action Heap Object := do
  let cell ← newCell
  return ⟨"System", [← nativeMember "Update" [] (.asks cell c.update)]⟩

/-- The standard library of a host with these callbacks. -/
def standardOf (c : Callbacks) : Action Heap Library := do
  let library ← add [] (← console c)
  let library ← add library (← conversions)
  add library (← system c)

def standard : Action Heap Library :=
  standardOf .plain

/-- The variables that a program starts with. -/
def bindings (library : Library) (h : Heap) : Bindings :=
  .ofPairs (library.map fun id => ((h.object id).name, .object id))

end Library

end LineScript
