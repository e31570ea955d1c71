import LineScript.Position
import LineScript.Text.Quoted
/-!
# Tokens

The kinds of tokens, the words and symbols that have a spelling of their own, and the classes of kinds that
the grammar speaks of.
-/

namespace LineScript

namespace Token

inductive Kind where
  | noneLiteral | trueLiteral | falseLiteral | stringLiteral | numberLiteral
  | endOfLine | endOfFile | identifier
  | beginWord | ifWord | elifWord | elseWord | forWord | endWord | funcWord
  | andWord | orWord | notWord | toWord | stepWord | inWord
  | assign | plusAssign | minusAssign | starAssign | slashAssign
  | equals | notEquals | less | lessEquals | greater | greaterEquals
  | plus | minus | star | slash
  | parenLeft | parenRight | bracketLeft | bracketRight | dot | comma
deriving DecidableEq, Repr

namespace Kind

/-- Each kind with the name under which messages mention it. -/
def names : List (Kind × String) :=
  [(noneLiteral, "NoneLiteral"), (trueLiteral, "TrueLiteral"), (falseLiteral, "FalseLiteral"),
   (stringLiteral, "StringLiteral"), (numberLiteral, "NumberLiteral"), (endOfLine, "EndOfLine"),
   (endOfFile, "EndOfFile"), (identifier, "Identifier"), (beginWord, "Begin"), (ifWord, "If"),
   (elifWord, "Elif"), (elseWord, "Else"), (forWord, "For"), (endWord, "End"), (funcWord, "Func"),
   (andWord, "And"), (orWord, "Or"), (notWord, "Not"), (toWord, "To"), (stepWord, "Step"),
   (inWord, "In"), (assign, "Assign"), (plusAssign, "PlusAssign"), (minusAssign, "MinusAssign"),
   (starAssign, "StarAssign"), (slashAssign, "SlashAssign"), (equals, "Equals"),
   (notEquals, "NotEquals"), (less, "LessThan"), (lessEquals, "LessThanOrEquals"),
   (greater, "GreaterThan"), (greaterEquals, "GreaterThanOrEquals"), (plus, "Plus"),
   (minus, "Minus"), (star, "Star"), (slash, "Slash"), (parenLeft, "ParenLeft"),
   (parenRight, "ParenRight"), (bracketLeft, "SquareBracketLeft"),
   (bracketRight, "SquareBracketRight"), (dot, "Dot"), (comma, "Comma")]

def name (kind : Kind) : String :=
  (names.lookup kind).getD ""

def ofName? (name : String) : Option Kind :=
  (names.find? (·.2 == name)).map (·.1)

end Kind

/-! ### Spellings -/

def keywords : List (String × Kind) :=
  [("none", .noneLiteral), ("true", .trueLiteral), ("false", .falseLiteral), ("begin", .beginWord),
   ("end", .endWord), ("if", .ifWord), ("elif", .elifWord), ("else", .elseWord), ("for", .forWord),
   ("func", .funcWord), ("and", .andWord), ("or", .orWord), ("not", .notWord), ("to", .toWord),
   ("step", .stepWord), ("in", .inWord)]

def doubleSymbols : List ((Char × Char) × Kind) :=
  [(('=', '='), .equals), (('!', '='), .notEquals), (('<', '='), .lessEquals),
   (('>', '='), .greaterEquals), (('+', '='), .plusAssign), (('-', '='), .minusAssign),
   (('*', '='), .starAssign), (('/', '='), .slashAssign)]

def singleSymbols : List (Char × Kind) :=
  [('=', .assign), ('<', .less), ('>', .greater), ('+', .plus), ('-', .minus), ('*', .star),
   ('/', .slash), ('(', .parenLeft), (')', .parenRight), ('[', .bracketLeft), (']', .bracketRight),
   ('.', .dot), (',', .comma)]

def keyword? (text : String) : Option Kind :=
  keywords.lookup text

def doubleSymbol? (first second : Char) : Option Kind :=
  doubleSymbols.lookup (first, second)

def singleSymbol? (c : Char) : Option Kind :=
  singleSymbols.lookup c

/-- Every kind that has exactly one spelling, with that spelling. -/
def spellings : List (Kind × String) :=
  (.endOfLine, "\n") :: keywords.map (fun (text, kind) => (kind, text))
    ++ doubleSymbols.map (fun ((a, b), kind) => (kind, String.ofList [a, b]))
    ++ singleSymbols.map (fun (c, kind) => (kind, String.ofList [c]))

/-! ### Classes of kinds -/

namespace Kind

def spelling? (kind : Kind) : Option String :=
  spellings.lookup kind

def isLiteral : Kind → Bool
  | noneLiteral | trueLiteral | falseLiteral | numberLiteral | stringLiteral => true
  | _ => false

def isTermOperator : Kind → Bool
  | plus | minus => true
  | _ => false

def isFactorOperator : Kind → Bool
  | star | slash => true
  | _ => false

def isComparison : Kind → Bool
  | equals | notEquals | less | lessEquals | greater | greaterEquals => true
  | _ => false

def isUnaryOperator : Kind → Bool
  | notWord | minus => true
  | _ => false

/-- The operator that a compound assignment applies before it stores. -/
def compoundOperator? : Kind → Option Kind
  | plusAssign => some plus
  | minusAssign => some minus
  | starAssign => some star
  | slashAssign => some slash
  | _ => none

def isAssignment (kind : Kind) : Bool :=
  kind == assign || kind.compoundOperator?.isSome

def endsStatement : Kind → Bool
  | endOfLine | endOfFile => true
  | _ => false

end Kind

end Token

/-- A token's text is its spelling, except that a string literal carries the text it denotes. -/
structure Token where
  kind : Token.Kind
  text : String
  position : Position
deriving DecidableEq, Repr

namespace Token

def describe (t : Token) : String :=
  t.position.text ++ ": " ++ t.kind.name ++ " " ++ Text.quoted t.text

end Token

end LineScript
