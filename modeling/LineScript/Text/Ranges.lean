/-!
# Classes of characters

A class of characters is given by an ascending list of closed ranges of code points. The classes
themselves are data of the Unicode standard, one module each.
-/

namespace LineScript.Text

abbrev Ranges := List (Nat × Nat)

namespace Ranges

/-- The ranges ascend, so the search is over at the first range that starts behind the code point. -/
def contains : Ranges → Nat → Bool
  | [], _ => false
  | (low, high) :: rest, code =>
      if code < low then false else if code ≤ high then true else contains rest code

end Ranges

end LineScript.Text
