import LineScript.RingBuffer
import LineScript.Token.Lexer
/-!
# A window on the tokens of a source

The grammar needs to see two tokens at a time. A cursor holds them in a ring buffer and reads one more token for
each that it hands out, so a mistake in the next two tokens is met before the grammar can reject the one at hand.
-/

namespace LineScript

/-- Why reading a program stops: the source is rejected, or the library fails its own invariants, or the fuel of
the grammar is used up. -/
inductive ParseStop where
  | rejected (e : SyntaxError)
  | fault (f : Fault)
  | outOfFuel
deriving DecidableEq

/-- The number of tokens in view. -/
abbrev lookahead : Nat := 2

structure Cursor where
  lexer : Lexer
  window : RingBuffer Token lookahead

abbrev Parser := StateT Cursor (Except ParseStop)

namespace Cursor

/-- Appends the next token of the source to the window; a full window hands out its oldest token. -/
def refill (c : Cursor) : Except ParseStop (Option Token × Cursor) :=
  match c.lexer.next with
  | .error e => .error (.rejected e)
  | .ok (t, lexer) =>
      let (oldest, window) := c.window.push t
      .ok (oldest, ⟨lexer, window⟩)

/-- A cursor at the start of a source, with its window filled. -/
def ofLexer (l : Lexer) : Except ParseStop Cursor := do
  let (_, c) ← refill ⟨l, .empty⟩
  let (_, c) ← refill c
  return c

end Cursor

namespace Parser

/-- The token at hand, or the one behind it. -/
def peek (i : Nat) : Parser Token := fun c =>
  match c.window.get i with
  | .ok t => .ok (t, c)
  | .error f => .error (.fault f)

def peekKind (i : Nat) : Parser Token.Kind := do
  return (← peek i).kind

/-- Takes the token at hand. -/
def advance : Parser Token := fun c =>
  match c.refill with
  | .ok (some t, c) => .ok (t, c)
  | .ok (none, _) => .error (.fault .unprimedLookahead)
  | .error stop => .error stop

def reject {α : Type} (cause : SyntaxCause) (p : Position) : Parser α :=
  throw (.rejected ⟨cause, p⟩)

/-- Rejects the token at hand. -/
def unexpected {α : Type} (wanted : Expectation) : Parser α := do
  let t ← peek 0
  reject (.unexpected wanted t.kind) t.position

/-- Takes the token at hand, which has to be of the given kind. -/
def consume (kind : Token.Kind) : Parser Token := do
  if (← peekKind 0) = kind then advance else unexpected (.token kind)

def exhausted {α : Type} : Parser α :=
  throw .outOfFuel

end Parser

end LineScript
