import LineScript.Tag
import LineScript.Token
/-!
# Broken internal invariants

A fault is the host's mistake, or the library's own, and never the script's: a value taken for one of another
type, a look beyond the tokens at hand, a token taken for an operator or a literal that it is not, an argument that a
host function was not given, a place that an array does not have, a console that is used while it is in use.
-/

namespace LineScript

inductive Fault where
  | wrongTag (wanted found : Tag)
  | beyondLookahead (index filled : Nat)
  | noSlots
  | unprimedLookahead
  | notUnaryOperator (found : Token.Kind)
  | notBinaryOperator (found : Token.Kind)
  | notLiteral (found : Token.Kind)
  | missingArgument (index count : Nat)
  | missingItem (index count : Nat)
  | notSequence (found : Tag)
  | arithmeticOverflow
  /-- A console or a hook was asked for something while a callback held it. -/
  | alreadyBorrowed
  /-- Met in code of the host, by its own mistake. -/
  | ofHost (f : Fault)
deriving DecidableEq, Repr

namespace Fault

def message : Fault → String
  | wrongTag wanted found =>
      "value payload accessed as " ++ wanted.name ++ " but the value is " ++ found.name
  | beyondLookahead index filled =>
      "lookahead index " ++ toString index ++ " out of range (filled " ++ toString filled ++ ")"
  | noSlots => "lookahead buffer needs at least one slot"
  | unprimedLookahead => "lookahead buffer is not primed"
  | notUnaryOperator found => found.name ++ " is not a unary operator"
  | notBinaryOperator found => found.name ++ " is not a binary operator"
  | notLiteral found => found.name ++ " is not a literal"
  | missingArgument index count | missingItem index count =>
      "index out of bounds: the len is " ++ toString count ++ " but the index is " ++ toString index
  | notSequence found => "a sequence was taken for granted but the value is " ++ found.name
  | arithmeticOverflow => "arithmetic overflow"
  | alreadyBorrowed => "already borrowed: BorrowMutError"
  | ofHost f => f.message

end Fault

end LineScript
