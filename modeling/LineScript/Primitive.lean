/-!
# Primitive operations

The operations on values that the code of a host may apply.
-/

namespace LineScript

/-- The operations on values, as a host calls them: on a list of arguments. -/
inductive Primitive where
  | add | subtract | multiply | divide
  | equals | notEquals | less | lessEquals | greater | greaterEquals
  | not | negate | length | reverse | slice | repetition
  | readMember | writeMember | call | makeArray | makeRange | readItem | writeItem
  | same | convert | display | debug | typeName | isNone | isInteger
  | asBool | asNumber | asString | asArray | asObject | asFunction
  | emptyArray | arrayLength | arrayIsEmpty | arrayGet | arraySet | arrayResize | arrayPush
  | arrayConcat | arraySpan | arrayReversed | arrayCopy
  | objectName | objectSet | objectGet | objectContains | objectNames
  | functionName | functionParams | functionArity | functionDebug
deriving DecidableEq, Repr

end LineScript
