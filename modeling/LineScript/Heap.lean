import LineScript.Host
import LineScript.Scope
/-!
# The heap

What handles stand for: arrays of values, objects with named members, and functions. Nothing is ever removed, so
a handle stays good.
-/

namespace LineScript

structure Object where
  name : String
  members : Bindings
deriving Inhabited

/-- A function is a script's, with the scope it was made in, or the host's. -/
inductive FunctionBody where
  | script (body : List Node) (scope : Scope)
  | native (operation : Native)

structure Function where
  name : String
  params : List String
  body : FunctionBody

instance : Inhabited Function := ⟨⟨"", [], .native .idle⟩⟩

def Function.isNative (f : Function) : Bool :=
  match f.body with
  | .script .. => false
  | .native _ => true

structure Heap where
  arrays : Array (Array Value)
  objects : Array Object
  functions : Array Function

namespace Heap

def empty : Heap :=
  ⟨#[], #[], #[]⟩

def items (h : Heap) (id : ArrayId) : Array Value :=
  (h.arrays[id.index]?).getD #[]

/-- Only an array of the heap has items. -/
theorem index_lt_of_lt_size {h : Heap} {id : ArrayId} {i : Nat} (hi : i < (h.items id).size) :
    id.index < h.arrays.size := by
  refine Nat.lt_of_not_le fun hle => ?_
  rw [items, Array.getElem?_eq_none hle] at hi
  exact Nat.not_lt_zero i hi

/-- The handle stands for an array that ends before a place. -/
def lacks (h : Heap) (id : ArrayId) (place : Nat) : Bool :=
  h.arrays[id.index]?.any (·.size ≤ place)

def object (h : Heap) (id : ObjectId) : Object :=
  (h.objects[id.index]?).getD default

def function (h : Heap) (id : FunctionId) : Function :=
  (h.functions[id.index]?).getD default

def newArray (h : Heap) (items : Array Value) : Value × Heap :=
  (.array ⟨h.arrays.size⟩, { h with arrays := h.arrays.push items })

def newObject (h : Heap) (object : Object) : ObjectId × Heap :=
  (⟨h.objects.size⟩, { h with objects := h.objects.push object })

def newFunction (h : Heap) (function : Function) : Value × Heap :=
  (.function ⟨h.functions.size⟩, { h with functions := h.functions.push function })

def modifyItems (h : Heap) (id : ArrayId) (f : Array Value → Array Value) : Heap :=
  { h with arrays := h.arrays.modify id.index f }

def setMember (h : Heap) (id : ObjectId) (name : String) (value : Value) : Heap :=
  { h with
    objects := h.objects.modify id.index fun o => { o with members := Bindings.insert name value o.members } }

end Heap

end LineScript
