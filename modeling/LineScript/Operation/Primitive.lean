import LineScript.Operation.Arithmetic
import LineScript.Operation.Comparison
import LineScript.Operation.Conversion
import LineScript.Operation.Element
/-!
# Operations on argument lists

Each primitive operation but the call, applied to the arguments that a host passes. The host has to pass enough of
them and, where an operation takes a name, an array or an integer, has to pass that.
-/

namespace LineScript.Operation

def argument (args : List Value) (i : Nat) : Action Heap Value :=
  match args[i]? with
  | some v => pure v
  | none => throw (.fault (.missingArgument i args.length))

def nameArgument (args : List Value) (i : Nat) : Action Heap String := do
  payload (← argument args i).asString

def integerArgument (args : List Value) (i : Nat) : Action Heap Int := do
  return saturated (← payload (← argument args i).asNumber).truncated

def arrayArgument (args : List Value) (i : Nat) : Action Heap ArrayId := do
  payload (← argument args i).asArray

def objectArgument (args : List Value) (i : Nat) : Action Heap ObjectId := do
  payload (← argument args i).asObject

def functionArgument (args : List Value) (i : Nat) : Action Heap Function := do
  return (← get).function (← payload (← argument args i).asFunction)

def tagArgument (args : List Value) (i : Nat) : Action Heap Tag := do
  match Tag.ofName? (← nameArgument args i) with
  | some tag => return tag
  | none => throw (.fault (.missingArgument i args.length))

def unaryOn (args : List Value) (operation : Value → Action Heap Value) : Action Heap Value := do
  operation (← argument args 0)

def binaryOn (args : List Value) (operation : Value → Value → Action Heap Value) : Action Heap Value := do
  operation (← argument args 0) (← argument args 1)

def nothing (action : Action Heap Unit) : Action Heap Value := do
  action
  return .none

def texts (list : List String) : Action Heap Value :=
  makeArray (list.map Value.string).toArray

/-- Applies a primitive to its arguments. A call needs the evaluator and is not applied here. -/
def apply (primitive : Primitive) (args : List Value) : Action Heap Value := do
  match primitive with
  | .add => binaryOn args add
  | .subtract => binaryOn args subtract
  | .multiply => binaryOn args multiply
  | .divide => binaryOn args divide
  | .equals => binaryOn args equals
  | .notEquals => binaryOn args notEquals
  | .less => binaryOn args less
  | .lessEquals => binaryOn args lessEquals
  | .greater => binaryOn args greater
  | .greaterEquals => binaryOn args greaterEquals
  | .not => unaryOn args not
  | .negate => unaryOn args negate
  | .length => unaryOn args length
  | .reverse => unaryOn args reverse
  | .slice => slice (← argument args 0) (← argument args 1) (← argument args 2)
  | .repetition => binaryOn args repetition
  | .readMember => readMember (← argument args 0) (← nameArgument args 1)
  | .writeMember => nothing (do writeMember (← argument args 0) (← nameArgument args 1) (← argument args 2))
  | .makeArray => makeArray args.toArray
  | .makeRange => range (← argument args 0) (← argument args 1) args[2]?
  | .readItem => binaryOn args readItem
  | .writeItem => nothing (do writeItem (← argument args 0) (← argument args 1) (← argument args 2))
  | .same => argument args 0
  | .convert => convert (← argument args 0) (← tagArgument args 1)
  | .display => return .string ((← get).display (← argument args 0))
  | .debug => return .string ((← get).debug (← argument args 0))
  | .typeName => return .string (← argument args 0).tag.name
  | .isNone => return .bool (← argument args 0).isNone
  | .isInteger => return .bool (← argument args 0).isInteger
  | .asBool => return .bool (← payload (← argument args 0).asBool)
  | .asNumber => return .number (← payload (← argument args 0).asNumber)
  | .asString => return .string (← payload (← argument args 0).asString)
  | .asArray => return .array (← payload (← argument args 0).asArray)
  | .asObject => return .object (← payload (← argument args 0).asObject)
  | .asFunction => return .function (← payload (← argument args 0).asFunction)
  | .emptyArray => makeArray #[]
  | .arrayLength => return .number (.ofNat ((← get).items (← arrayArgument args 0)).size)
  | .arrayIsEmpty => return .bool ((← get).items (← arrayArgument args 0)).isEmpty
  | .arrayGet => getItem (← arrayArgument args 0) (← integerArgument args 1)
  | .arraySet =>
      nothing (do setItem (← arrayArgument args 0) (← integerArgument args 1) (← argument args 2))
  | .arrayResize => nothing (do setLength (← arrayArgument args 0) (← integerArgument args 1))
  | .arrayPush => nothing (do pushItem (← arrayArgument args 0) (← argument args 1))
  | .arrayConcat => add (.array (← arrayArgument args 0)) (.array (← arrayArgument args 1))
  | .arraySpan =>
      let items := (← get).items (← arrayArgument args 0)
      makeArray (items.extract (← integerArgument args 1).toNat (← integerArgument args 2).toNat)
  | .arrayReversed => reverse (.array (← arrayArgument args 0))
  | .arrayCopy => makeArray ((← get).items (← arrayArgument args 0))
  | .objectName => return .string ((← get).object (← objectArgument args 0)).name
  | .objectSet =>
      nothing (do writeMember (.object (← objectArgument args 0)) (← nameArgument args 1) (← argument args 2))
  | .objectGet => getMember (← objectArgument args 0) (← nameArgument args 1)
  | .objectContains =>
      return .bool (((← get).object (← objectArgument args 0)).members.contains (← nameArgument args 1))
  | .objectNames => texts ((← get).object (← objectArgument args 0)).members.names
  | .functionName => return .string (← functionArgument args 0).name
  | .functionParams => texts (← functionArgument args 0).params
  | .functionArity => return .number (.ofNat (← functionArgument args 0).params.length)
  | .functionDebug => return .string (← functionArgument args 0).debug
  | .call => throw (.fault (.missingArgument 0 args.length))

end LineScript.Operation
