import LineScript.Decimal.Reader
import LineScript.Program
import LineScript.Program.Cursor
/-!
# The grammar

Recursive descent, one function for each rule. The rules between an expression and its smallest parts take the
expression as a parameter, so that only `expression` itself is recursive. The fuel bounds the nesting of
expressions and the length of every repetition; each step of either takes a token, so the length of the source is
fuel enough.
-/

namespace LineScript

namespace Parser

open Token (Kind)

/-! ### Operators

What a token stands for is asked only of tokens of the right class. Any other is a fault.
-/

def unaryOp : Kind → Parser UnaryOp
  | .notWord => return .not
  | .minus => return .negate
  | kind => throw (.fault (.notUnaryOperator kind))

def binaryOp : Kind → Parser BinaryOp
  | .plus => return .add
  | .minus => return .subtract
  | .star => return .multiply
  | .slash => return .divide
  | .equals => return .equals
  | .notEquals => return .notEquals
  | .less => return .less
  | .lessEquals => return .lessEquals
  | .greater => return .greater
  | .greaterEquals => return .greaterEquals
  | kind => throw (.fault (.notBinaryOperator kind))

def binary (t : Token) (left right : Node) : Parser Node := do
  return .binary t.position (← binaryOp t.kind) left right

def logical (op : LogicalOp) (t : Token) (left right : Node) : Parser Node :=
  return .logical t.position op left right

/-! ### Operations

A chain of operators of one level associates to the left.
-/

/-- The rest of a chain behind its operand `left`. -/
def chainFrom (isOp : Kind → Bool) (combine : Token → Node → Node → Parser Node) (operand : Parser Node) :
    (fuel : Nat) → (left : Node) → Parser Node
  | 0, _ => exhausted
  | fuel + 1, left => do
      if isOp (← peekKind 0) then
        let t ← advance
        let right ← operand
        chainFrom isOp combine operand fuel (← combine t left right)
      else
        return left

def chain (isOp : Kind → Bool) (combine : Token → Node → Node → Parser Node) (operand : Parser Node) (fuel : Nat) :
    Parser Node := do
  chainFrom isOp combine operand fuel (← operand)

/-- Unary operators nest, the leftmost outermost. -/
def unary (operand : Parser Node) : (fuel : Nat) → Parser Node
  | 0 => exhausted
  | fuel + 1 => do
      if (← peekKind 0).isUnaryOperator then
        let t ← advance
        let inner ← unary operand fuel
        return .unary t.position (← unaryOp t.kind) inner
      else
        operand

def range (term : Parser Node) : Parser Node := do
  let first ← term
  if (← peekKind 0) = .toWord then
    let t ← advance
    let last ← term
    if (← peekKind 0) = .stepWord then
      let _ ← advance
      return .range t.position first last (some (← term))
    else
      return .range t.position first last none
  else
    return first

/-! ### Lists, members, calls and indices -/

/-- Expressions between commas, up to and with the closing token; at least one of them. -/
def itemsFrom (expression : Parser Node) (close : Kind) : (fuel : Nat) → Parser (List Node)
  | 0 => exhausted
  | fuel + 1 => do
      let item ← expression
      let kind ← peekKind 0
      if kind = .comma then
        let _ ← advance
        return item :: (← itemsFrom expression close fuel)
      else if kind = close then
        let _ ← advance
        return [item]
      else
        unexpected (.token close)

def items (expression : Parser Node) (close : Kind) (fuel : Nat) : Parser (List Node) := do
  if (← peekKind 0) = close then
    let _ ← advance
    return []
  else
    itemsFrom expression close fuel

/-- Member accesses, calls and indices behind an expression. -/
def postfixFrom (expression : Parser Node) : (fuel : Nat) → (left : Node) → Parser Node
  | 0, _ => exhausted
  | fuel + 1, left => do
      match ← peekKind 0 with
      | .dot =>
          let t ← advance
          let name ← consume .identifier
          postfixFrom expression fuel (.member t.position left name.text)
      | .parenLeft =>
          let t ← advance
          let args ← items expression .parenRight fuel
          postfixFrom expression fuel (.call t.position left args)
      | .bracketLeft =>
          let t ← advance
          let index ← expression
          let _ ← consume .bracketRight
          postfixFrom expression fuel (.item t.position left index)
      | _ => return left

/-! ### Statements -/

/-- What an assignment by `op` stores into a target that reads as `current`. -/
def assigned (op : Token) (current value : Node) : Parser Node := do
  match op.kind.compoundOperator? with
  | some kind => return .binary op.position (← binaryOp kind) current value
  | none => return value

def variableAssignment (expression : Parser Node) : Parser Node := do
  let name ← consume .identifier
  let op ← advance
  let value ← expression
  return .assign name.position name.text (← assigned op (.var name.position name.text) value)

/-- An assignment to an expression that has been read. -/
def targetAssignment (expression : Parser Node) (target : Node) : Parser Node := do
  let op ← advance
  let value ← expression
  match target with
  | .var p name => return .assign p name (← assigned op target value)
  | .item p array index => return .assignItem p array index (← assigned op target value)
  | .member p receiver name => return .assignMember p receiver name (← assigned op target value)
  | _ => reject .invalidTarget op.position

/-- An assignment or an expression. -/
def sentence (expression : Parser Node) : Parser Node := do
  let first ← peekKind 0
  let second ← peekKind 1
  if first = .identifier ∧ second.isAssignment then variableAssignment expression
  else
    let target ← expression
    if (← peekKind 0).isAssignment then targetAssignment expression target else return target

def statement (expression : Parser Node) : Parser Node := do
  let node ← sentence expression
  let kind ← peekKind 0
  if kind = .endOfLine then
    let _ ← advance
    return node
  else if kind = .endOfFile then
    return node
  else
    unexpected .endOfLine

/-- Statements up to the first token of kind `close` or `others`, which is left. Blank lines count for nothing. -/
def lines (expression : Parser Node) (close : Kind) (others : List Kind) : (fuel : Nat) → Parser (List Node)
  | 0 => exhausted
  | fuel + 1 => do
      let kind ← peekKind 0
      if kind = .endOfLine then
        let _ ← advance
        lines expression close others fuel
      else if kind = close ∨ kind ∈ others then
        return []
      else if kind = .endOfFile then
        unexpected (.token close)
      else
        let node ← statement expression
        return node :: (← lines expression close others fuel)

/-! ### Blocks -/

/-- The end of a line, statements and the token that closes them, which is left. -/
def body (expression : Parser Node) (close : Kind) (others : List Kind) (fuel : Nat) : Parser (List Node) := do
  let _ ← consume .endOfLine
  lines expression close others fuel

def beginBlock (expression : Parser Node) (fuel : Nat) : Parser Node := do
  let t ← consume .beginWord
  let statements ← body expression .endWord [] fuel
  let _ ← consume .endWord
  return .block t.position statements

/-- A test and its branch, with the tests and branches behind it. The closing word is left for the first of them. -/
def branch (expression : Parser Node) : (fuel : Nat) → Parser Node
  | 0 => exhausted
  | fuel + 1 => do
      let t ← advance
      let test ← expression
      let statements ← body expression .endWord [.elifWord, .elseWord] fuel
      match ← peekKind 0 with
      | .elifWord => return .branch t.position test statements (some (← branch expression fuel))
      | .elseWord =>
          let e ← advance
          let others ← body expression .endWord [] fuel
          return .branch t.position test statements (some (.block e.position others))
      | _ => return .branch t.position test statements none

def loop (expression : Parser Node) (fuel : Nat) : Parser Node := do
  let t ← consume .forWord
  let first ← peekKind 0
  let second ← peekKind 1
  if first = .identifier ∧ (second = .assign ∨ second = .inWord) then
    let name ← advance
    let _ ← advance
    let list ← expression
    let statements ← body expression .endWord [] fuel
    let _ ← consume .endWord
    return .forEach t.position name.text list statements
  else
    let test ← expression
    let statements ← body expression .endWord [] fuel
    let _ ← consume .endWord
    return .loop t.position test statements

/-- Parameters between commas, none of them twice; at least one. -/
def paramsFrom (earlier : List String) : (fuel : Nat) → Parser (List String)
  | 0 => exhausted
  | fuel + 1 => do
      let t ← consume .identifier
      if t.text ∈ earlier then reject (.duplicateParameter t.text) t.position
      else if (← peekKind 0) = .comma then
        let _ ← advance
        return t.text :: (← paramsFrom (t.text :: earlier) fuel)
      else
        return [t.text]

def paramNames (fuel : Nat) : Parser (List String) := do
  if (← peekKind 0) = .parenRight then return [] else paramsFrom [] fuel

def params (fuel : Nat) : Parser (List String) := do
  let _ ← consume .parenLeft
  let names ← paramNames fuel
  let _ ← consume .parenRight
  return names

def functionName : Parser (Option String) := do
  if (← peekKind 0) = .identifier then return some (← advance).text else return none

def function (expression : Parser Node) (fuel : Nat) : Parser Node := do
  let t ← consume .funcWord
  let name ← functionName
  let names ← params fuel
  let statements ← body expression .endWord [] fuel
  let _ ← consume .endWord
  return .function t.position name names statements

/-! ### Expressions -/

def literal : Parser Node := do
  let t ← advance
  match t.kind with
  | .noneLiteral => return .literal t.position .none
  | .trueLiteral => return .literal t.position (.bool true)
  | .falseLiteral => return .literal t.position (.bool false)
  | .stringLiteral => return .literal t.position (.string t.text)
  | .numberLiteral =>
      match Decimal.ofChars? t.text.toList with
      | some n => return .literal t.position (.number n)
      | none => reject (.invalidNumber t.text) t.position
  | kind => throw (.fault (.notLiteral kind))

def primary (expression : Parser Node) (fuel : Nat) : Parser Node := do
  let kind ← peekKind 0
  if kind.isLiteral then literal
  else
    match kind with
    | .identifier =>
        let t ← advance
        return .var t.position t.text
    | .bracketLeft =>
        let t ← advance
        return .list t.position (← items expression .bracketRight fuel)
    | .parenLeft =>
        let _ ← advance
        let inner ← expression
        let _ ← consume .parenRight
        return inner
    | .beginWord => beginBlock expression fuel
    | .ifWord =>
        let node ← branch expression fuel
        let _ ← consume .endWord
        return node
    | .forWord => loop expression fuel
    | .funcWord => function expression fuel
    | _ => unexpected .expression

def postfixed (expression : Parser Node) (fuel : Nat) : Parser Node := do
  postfixFrom expression fuel (← primary expression fuel)

def factor (expression : Parser Node) (fuel : Nat) : Parser Node :=
  chain Kind.isFactorOperator binary (unary (postfixed expression fuel) fuel) fuel

def term (expression : Parser Node) (fuel : Nat) : Parser Node :=
  chain Kind.isTermOperator binary (factor expression fuel) fuel

def comparison (expression : Parser Node) (fuel : Nat) : Parser Node :=
  chain Kind.isComparison binary (range (term expression fuel)) fuel

def conjunction (expression : Parser Node) (fuel : Nat) : Parser Node :=
  chain (· == .andWord) (logical .and) (comparison expression fuel) fuel

def disjunction (expression : Parser Node) (fuel : Nat) : Parser Node :=
  chain (· == .orWord) (logical .or) (conjunction expression fuel) fuel

def expression : (fuel : Nat) → Parser Node
  | 0 => exhausted
  | fuel + 1 => disjunction (expression fuel) fuel

end Parser

namespace Program

/-- Reads a program under a bound on the nesting and the length of its parts. -/
def parseWith (fuel : Nat) (source text : String) : Except ParseStop Program := do
  let c ← Cursor.ofLexer (.ofSource source text)
  let (body, _) ← (Parser.lines (Parser.expression fuel) .endOfFile [] fuel).run c
  return ⟨source, body⟩

/-- Reads a program. A source has at most as many tokens as characters, and one for its end. -/
def parse (source text : String) : Except ParseStop Program :=
  parseWith (text.length + 2) source text

end Program

end LineScript
