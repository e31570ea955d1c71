import LineScript.Value
/-!
# Bindings

Names with their values, in the order in which the names were first bound. Binding a name again replaces its value
and leaves its place.
-/

namespace LineScript

abbrev Bindings := List (String × Value)

namespace Bindings

def get? (bindings : Bindings) (name : String) : Option Value :=
  bindings.lookup name

def contains (bindings : Bindings) (name : String) : Bool :=
  (bindings.get? name).isSome

def insert (name : String) (value : Value) : Bindings → Bindings
  | [] => [(name, value)]
  | (bound, old) :: rest =>
      if bound = name then (bound, value) :: rest else (bound, old) :: insert name value rest

/-- The bindings made one after the other. -/
def ofPairs (pairs : List (String × Value)) : Bindings :=
  pairs.foldl (fun bindings (name, value) => insert name value bindings) []

def names (bindings : Bindings) : List String :=
  bindings.map (·.1)

end Bindings

end LineScript
