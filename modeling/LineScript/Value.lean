import LineScript.Program
import LineScript.Tag
/-!
# Values

A value is a piece of data or a handle: arrays, objects and functions live in a heap, and copying a handle shares
what it stands for.
-/

namespace LineScript

structure ArrayId where
  index : Nat
deriving DecidableEq, Repr

structure ObjectId where
  index : Nat
deriving DecidableEq, Repr

structure FunctionId where
  index : Nat
deriving DecidableEq, Repr

inductive Value where
  | none
  | bool (b : Bool)
  | number (n : Decimal)
  | string (s : String)
  | object (id : ObjectId)
  | array (id : ArrayId)
  | function (id : FunctionId)
deriving DecidableEq

instance : Inhabited Value := ⟨.none⟩

namespace Value

def tag : Value → Tag
  | none => .none
  | bool _ => .bool
  | number _ => .number
  | string _ => .string
  | object _ => .object
  | array _ => .array
  | function _ => .function

def isNone : Value → Bool
  | none => true
  | _ => false

/-- Whether this is a number without a fraction. -/
def isInteger : Value → Bool
  | number n => n.isInteger
  | _ => false

end Value

def Literal.value : Literal → Value
  | none => .none
  | bool b => .bool b
  | number n => .number n
  | string s => .string s

end LineScript
