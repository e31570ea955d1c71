import LineScript.Tag
import LineScript.Token
import LineScript.Decimal.Printer
/-!
# Diagnostics

What can go wrong with a source and with a running program, one constructor for each cause, and the wording
of every message in one place. A diagnostic is a cause with the position it was met at, if that is known.
-/

namespace LineScript

/-- What the grammar would have accepted where something else was found. -/
inductive Expectation where
  | token (kind : Token.Kind)
  | endOfLine
  | expression
deriving DecidableEq, Repr

def Expectation.text : Expectation → String
  | token kind => kind.name
  | endOfLine => "end of line"
  | expression => "expression"

/-- Why a source is not a program. -/
inductive SyntaxCause where
  | unterminatedString
  | invalidEscape (c : Char)
  | invalidCharacter (c : Char)
  | unexpected (wanted : Expectation) (found : Token.Kind)
  | invalidTarget
  | invalidNumber (text : String)
  | duplicateParameter (name : String)
deriving DecidableEq, Repr

namespace SyntaxCause

def message : SyntaxCause → String
  | unterminatedString => "unterminated string literal"
  | invalidEscape c => "invalid escape sequence `\\" ++ c.toString ++ "`"
  | invalidCharacter c => "invalid character `" ++ Text.shown c ++ "`"
  | unexpected wanted found => "expected " ++ wanted.text ++ " but found " ++ found.name
  | invalidTarget => "invalid left-hand side of assignment"
  | invalidNumber text => "invalid number literal `" ++ text ++ "`"
  | duplicateParameter name => "duplicate parameter `" ++ name ++ "`"

end SyntaxCause

/-- The operands that have to be numbers. -/
inductive NumberRole where
  | sliceStart | sliceEnd | repeatCount | rangeStart | rangeEnd | rangeStep
deriving DecidableEq, Repr

def NumberRole.text : NumberRole → String
  | sliceStart => "slice start"
  | sliceEnd => "slice end"
  | repeatCount => "repeat count"
  | rangeStart => "range start"
  | rangeEnd => "range end"
  | rangeStep => "range step"

/-- The longest array or string that a script may build. -/
def maxLength : Nat := Nat.pow 2 24

/-- Why a running program cannot go on. -/
inductive RuntimeCause where
  | undefinedVariable (name : String)
  | undefinedMember (member object : String)
  | operandTypes (symbol : String) (left right : Tag)
  | cannotNot (found : Tag)
  | cannotNegate (found : Tag)
  | cannotReverse (found : Tag)
  | cannotRepeat (found : Tag)
  | noLength (found : Tag)
  | notNumber (role : NumberRole) (found : Tag)
  | cannotReadMember (name : String) (found : Tag)
  | cannotSetMember (name : String) (found : Tag)
  | cannotCall (found : Tag)
  | cannotIndex (found : Tag)
  | cannotIterate (found : Tag)
  | cannotConvert (text : String) (target : Tag)
  | conditionType (found : Tag)
  | logicalType (word : String) (found : Tag)
  | arity (function : String) (expected received : Nat)
  | callDepth (limit : Nat)
  | numberOverflow
  | divisionByZero
  | zeroStep
  | lengthLimit
  | indexNotInteger (text : String)
  | indexOutOfRange (index : Int)
  | indexTooLarge (index : Decimal)
  | negativeLength (length : Int)
deriving DecidableEq

namespace RuntimeCause

def message : RuntimeCause → String
  | undefinedVariable name => "undefined variable `" ++ name ++ "`"
  | undefinedMember member object => "undefined member `" ++ member ++ "` of object " ++ object
  | operandTypes symbol left right =>
      "cannot apply `" ++ symbol ++ "` to " ++ left.name ++ " and " ++ right.name
  | cannotNot found => "cannot apply `not` to " ++ found.name
  | cannotNegate found => "cannot negate " ++ found.name
  | cannotReverse found => "cannot reverse " ++ found.name
  | cannotRepeat found => "cannot repeat " ++ found.name
  | noLength found => found.name ++ " has no length"
  | notNumber role found => role.text ++ " must be a number but found " ++ found.name
  | cannotReadMember name found => "cannot access member `" ++ name ++ "` of " ++ found.name
  | cannotSetMember name found => "cannot set member `" ++ name ++ "` of " ++ found.name
  | cannotCall found => "cannot call " ++ found.name
  | cannotIndex found => "cannot index into " ++ found.name
  | cannotIterate found => "cannot iterate over " ++ found.name
  | cannotConvert text target => "cannot convert `" ++ text ++ "` to " ++ target.name
  | conditionType found => "condition must be a bool but found " ++ found.name
  | logicalType word found => "operands of `" ++ word ++ "` must be bools but found " ++ found.name
  | arity function expected received =>
      "function `" ++ function ++ "` expected " ++ toString expected ++ " arguments but received "
        ++ toString received
  | callDepth limit => "maximum call depth of " ++ toString limit ++ " exceeded"
  | numberOverflow => "number overflow"
  | divisionByZero => "division by zero"
  | zeroStep => "range step cannot be zero"
  | lengthLimit => "sequence length exceeds the limit of " ++ toString maxLength
  | indexNotInteger text => "array index must be an integer but found " ++ text
  | indexOutOfRange index => "index " ++ toString index ++ " out of range"
  | indexTooLarge index => "index " ++ index.text ++ " out of range"
  | negativeLength length => "array length cannot be negative: " ++ toString length

end RuntimeCause

/-- A diagnostic is raised while a source is read or while a program runs. -/
inductive Phase where
  | reading
  | running
deriving DecidableEq, Repr

def Phase.title : Phase → String
  | reading => "Syntax"
  | running => "Runtime"

inductive Cause where
  | reading (cause : SyntaxCause)
  | running (cause : RuntimeCause)
  /-- Raised by the host, in its own words. -/
  | reported (phase : Phase) (text : String)
deriving DecidableEq

namespace Cause

def phase : Cause → Phase
  | reading _ => .reading
  | running _ => .running
  | reported phase _ => phase

def message : Cause → String
  | reading cause => cause.message
  | running cause => cause.message
  | reported _ text => text

end Cause

structure Diagnostic where
  cause : Cause
  position : Option Position
  notes : List String
deriving DecidableEq

namespace Diagnostic

def title (d : Diagnostic) : String :=
  d.cause.phase.title ++ " error" ++ (d.position.map (" at " ++ ·.text)).getD ""

def message (d : Diagnostic) : String :=
  d.title ++ ": " ++ d.cause.message ++ String.join (d.notes.map (" (note: " ++ · ++ ")"))

end Diagnostic

/-- A source is rejected for a cause at a position. -/
structure SyntaxError where
  cause : SyntaxCause
  position : Position
deriving DecidableEq, Repr

def SyntaxError.diagnostic (e : SyntaxError) : Diagnostic :=
  ⟨.reading e.cause, some e.position, []⟩

/-! ### Failures

What compiling or running can end in besides a value: a diagnostic, or an input or output that failed. -/

inductive Failure where
  | diagnostic (d : Diagnostic)
  | io (text : String)
deriving DecidableEq

namespace Failure

def ofCause (cause : RuntimeCause) : Failure :=
  diagnostic ⟨.running cause, none, []⟩

def message : Failure → String
  | diagnostic d => d.message
  | io text => "I/O error: " ++ text

/-- A diagnostic without a position gets this one; what has a position keeps it. -/
def orPosition (p : Position) : Failure → Failure
  | diagnostic ⟨cause, none, notes⟩ => diagnostic ⟨cause, some p, notes⟩
  | failure => failure

end Failure

end LineScript
