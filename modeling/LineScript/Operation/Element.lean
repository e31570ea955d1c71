import LineScript.Operation.Sequence
/-!
# Items and members

Reading and writing the items of an array and the members of an object. An array grows when it is written behind its
end, and the items in between are `none`. A write that fails changes nothing.
-/

namespace LineScript

namespace Operation

/-! ### Arrays of the heap -/

/-- Cuts an array off, or fills it up with `none`. -/
def resized (length : Nat) (items : Array Value) : Array Value :=
  if length ≤ items.size then items.take length
  else items ++ Array.replicate (length - items.size) Value.none

def getItem (id : ArrayId) (index : Int) : Action Heap Value := do
  let items := (← get).items id
  if index < 0 then raise (.indexOutOfRange index)
  else orRaise (.indexOutOfRange index) items[index.toNat]?

def setLength (id : ArrayId) (length : Int) : Action Heap Unit := do
  if length < 0 then raise (.negativeLength length)
  else
    checkLength length.toNat
    modify (·.modifyItems id (resized length.toNat))

/-- Writes a place that the array has to have. -/
def putItem (id : ArrayId) (place : Nat) (value : Value) : Action Heap Unit := do
  if (← get).lacks id place then throw (.fault (.missingItem place ((← get).items id).size))
  else modify (·.modifyItems id fun items => items.setIfInBounds place value)

def setItem (id : ArrayId) (index : Int) (value : Value) : Action Heap Unit := do
  if index < 0 then raise (.indexOutOfRange index)
  else
    if ((← get).items id).size ≤ index.toNat then setLength id (saturated (index + 1))
    putItem id index.toNat value

def pushItem (id : ArrayId) (value : Value) : Action Heap Unit :=
  modify (·.modifyItems id (·.push value))

/-! ### Indexing -/

/-- The array and the place that an index expression means. -/
def arrayAndIndex (v index : Value) : Action Heap (ArrayId × Int) := do
  match v with
  | .array id =>
      match index with
      | .number n =>
          if n.isInteger then
            if saturated n.truncated = n.truncated then return (id, n.truncated)
            else raise (.indexTooLarge n)
          else raise (.indexNotInteger ((← get).display index))
      | _ => raise (.indexNotInteger ((← get).display index))
  | _ => raise (.cannotIndex v.tag)

def readItem (v index : Value) : Action Heap Value := do
  let (id, index) ← arrayAndIndex v index
  getItem id index

def writeItem (v index value : Value) : Action Heap Unit := do
  let (id, index) ← arrayAndIndex v index
  setItem id index value

/-! ### Members -/

def getMember (id : ObjectId) (name : String) : Action Heap Value := do
  let object := (← get).object id
  orRaise (.undefinedMember name object.name) (object.members.get? name)

def readMember (v : Value) (name : String) : Action Heap Value :=
  match v with
  | .object id => getMember id name
  | _ => raise (.cannotReadMember name v.tag)

def writeMember (v : Value) (name : String) (value : Value) : Action Heap Unit :=
  match v with
  | .object id => modify (·.setMember id name value)
  | _ => raise (.cannotSetMember name v.tag)

end Operation

end LineScript
