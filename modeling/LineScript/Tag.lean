/-!
# The types of values

A value carries its type with it, and the messages of the language call the type by its name.
-/

namespace LineScript

inductive Tag where
  | none | bool | number | string | object | array | function
deriving DecidableEq, Repr

namespace Tag

def name : Tag → String
  | none => "None"
  | bool => "Bool"
  | number => "Number"
  | string => "String"
  | object => "Object"
  | array => "Array"
  | function => "Function"

def all : List Tag :=
  [none, bool, number, string, object, array, function]

def ofName? (text : String) : Option Tag :=
  all.find? (·.name == text)

end Tag

end LineScript
