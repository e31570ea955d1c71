import LineScript.Action
import LineScript.Decimal.Reader
import LineScript.Heap.Rendering
import LineScript.Text.Blank
/-!
# Conversions

A value that has the wanted type is left alone. Any other is converted by its text: every text is a string, some are
numbers or truth values, and none is an array, an object or a function.
-/

namespace LineScript

namespace Value

/-- The value of a type that a text denotes. -/
def ofText? (text : String) : Tag → Option Value
  | .none => some none
  | .string => some (string text)
  | .bool => if text = "true" then some (bool true) else if text = "false" then some (bool false) else .none
  | .number => (Decimal.ofChars? (Text.trimBlanks text.toList)).map number
  | .object | .array | .function => .none

/-! ### Payloads

The host may take a value for one of a type that it knows it to have.
-/

def asBool : Value → Except Fault Bool
  | bool b => .ok b
  | v => .error (.wrongTag .bool v.tag)

def asNumber : Value → Except Fault Decimal
  | number n => .ok n
  | v => .error (.wrongTag .number v.tag)

def asString : Value → Except Fault String
  | string s => .ok s
  | v => .error (.wrongTag .string v.tag)

def asArray : Value → Except Fault ArrayId
  | array id => .ok id
  | v => .error (.wrongTag .array v.tag)

def asObject : Value → Except Fault ObjectId
  | object id => .ok id
  | v => .error (.wrongTag .object v.tag)

def asFunction : Value → Except Fault FunctionId
  | function id => .ok id
  | v => .error (.wrongTag .function v.tag)

end Value

namespace Operation

def payload {α : Type} : Except Fault α → Action Heap α
  | .ok a => pure a
  | .error f => throw (.fault f)

def convert (v : Value) (target : Tag) : Action Heap Value := do
  if v.tag = target then return v
  let text := (← get).display v
  orRaise (.cannotConvert text target) (Value.ofText? text target)

end Operation

end LineScript
