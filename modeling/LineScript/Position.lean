/-!
# Positions in a source

A position names its source and counts lines and columns from one. A column is a character, whatever its
width, and only a line feed starts a new line.
-/

namespace LineScript

structure Position where
  source : String
  line : Nat
  column : Nat
deriving DecidableEq, Repr

namespace Position

def start (source : String) : Position :=
  ⟨source, 1, 1⟩

/-- The position behind a character that stands at this one. -/
def next (p : Position) (c : Char) : Position :=
  if c = '\n' then { p with line := p.line + 1, column := 1 } else { p with column := p.column + 1 }

/-- The position behind a run of characters that starts at this one. -/
def advance (p : Position) (text : List Char) : Position :=
  text.foldl next p

def text (p : Position) : String :=
  p.source ++ ": " ++ toString p.line ++ "," ++ toString p.column

@[simp] theorem advance_nil (p : Position) : p.advance [] = p := rfl

theorem advance_append (p : Position) (a b : List Char) :
    p.advance (a ++ b) = (p.advance a).advance b := by
  simp [advance]

end Position

end LineScript
