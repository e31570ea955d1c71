import LineScript.Decimal.Printer
import LineScript.Heap
import LineScript.Text.Quoted
/-!
# The text of a value

Two texts: the one that scripts see, and one for debugging that quotes strings and shows the members of objects. An
array that is met inside itself is shown as `[...]`, and for debugging an object inside itself as `{...}`.

The texts are made by a rendering, which hands their pieces to a formatter and keeps the containers that it is inside of
on a stack. `displayWithin` and `debugWithin` make them at once, with the stack as an argument.
-/

namespace LineScript

namespace Function

def display (f : Function) : String :=
  "func " ++ f.name ++ "(" ++ ", ".intercalate f.params ++ ")"

def debug (f : Function) : String :=
  "Function \x7b name: " ++ Text.quoted f.name ++ ", params: ["
    ++ ", ".intercalate (f.params.map Text.quoted) ++ "], kind: "
    ++ Text.quoted (if f.isNative then "native" else "script") ++ " \x7d"

end Function

def Object.display (o : Object) : String :=
  "object " ++ o.name

/-- Texts between an opening and a closing mark, divided by commas. -/
def enclosed {α : Type} (opening closing : String) (render : α → String) : List α → String
  | [] => opening ++ closing
  | x :: rest => rest.foldl (fun text y => text ++ ", " ++ render y) (opening ++ render x) ++ closing

namespace Heap

/-- The text inside the arrays on `path`. A path holds each array once, which bounds its length; the fuel is what
is left of that bound. -/
def displayWithin (h : Heap) (fuel : Nat) (path : List ArrayId) : Value → String
  | .none => "none"
  | .bool b => if b then "true" else "false"
  | .number n => n.normalized.text
  | .string s => s
  | .object id => (h.object id).display
  | .function id => (h.function id).display
  | .array id =>
      if id ∈ path then "[...]"
      else
        match fuel with
        | 0 => "[...]"
        | fuel + 1 => enclosed "[" "]" (h.displayWithin fuel (id :: path)) (h.items id).toList

def display (h : Heap) (v : Value) : String :=
  h.displayWithin (h.arrays.size + 1) [] v

inductive Container where
  | array (id : ArrayId)
  | object (id : ObjectId)
deriving DecidableEq, Repr

/-- The debugging text inside the containers on `path`. -/
def debugWithin (h : Heap) (fuel : Nat) (path : List Container) : Value → String
  | .none => "none"
  | .bool b => if b then "true" else "false"
  | .number n => n.normalized.text
  | .string s => Text.quoted s
  | .function id => "<" ++ (h.function id).display ++ ">"
  | .array id =>
      if .array id ∈ path then "[...]"
      else
        match fuel with
        | 0 => "[...]"
        | fuel + 1 => enclosed "[" "]" (h.debugWithin fuel (.array id :: path)) (h.items id).toList
  | .object id =>
      if .object id ∈ path then "\x7b...\x7d"
      else
        match fuel with
        | 0 => "\x7b...\x7d"
        | fuel + 1 =>
            enclosed "\x7b" "\x7d"
              (fun member => Text.quoted member.1 ++ ": "
                ++ h.debugWithin fuel (.object id :: path) member.2)
              (h.object id).members

def debug (h : Heap) (v : Value) : String :=
  h.debugWithin (h.arrays.size + h.objects.size + 1) [] v

/-! ### Renderings -/

namespace Container

/-- What stands in place of a container inside itself. -/
def marker : Container → String
  | array _ => "[...]"
  | object _ => "\x7b...\x7d"

def opening : Container → String
  | array _ => "["
  | object _ => "\x7b"

def closing : Container → String
  | array _ => "]"
  | object _ => "\x7d"

end Container

/-- The text that scripts see, and the one for debugging. -/
inductive Style where
  | display
  | debug

/-- What there is to render of a value: a text, or a container with values in it, each behind a label. -/
inductive View where
  | whole (text : String)
  | parts (c : Container) (parts : List (String × Value))

def Style.view (style : Style) (h : Heap) : Value → View
  | .none => .whole "none"
  | .bool b => .whole (if b then "true" else "false")
  | .number n => .whole n.normalized.text
  | .string s =>
      match style with
      | display => .whole s
      | debug => .whole (Text.quoted s)
  | .function id =>
      match style with
      | display => .whole (h.function id).display
      | debug => .whole ("<" ++ (h.function id).display ++ ">")
  | .array id => .parts (.array id) ((h.items id).toList.map fun item => ("", item))
  | .object id =>
      match style with
      | display => .whole (h.object id).display
      | debug =>
          .parts (.object id) ((h.object id).members.map fun member => (Text.quoted member.1 ++ ": ", member.2))

/-- Whether what a text is written to takes a piece behind the pieces it has taken. -/
abbrev Formatter := (written piece : String) → Bool

/-- The containers whose rendering is in progress, the innermost first, and what has been written. -/
structure RenderState where
  visiting : List Container
  written : String

/-- How a rendering stops without its text. -/
inductive RenderStop where
  | refused
  | outOfFuel

abbrev Rendering := EStateM RenderStop RenderState

namespace Rendering

def write (formatter : Formatter) (piece : String) : Rendering Unit := do
  if formatter (← get).written piece then modify fun s => { s with written := s.written ++ piece }
  else throw .refused

/-- A rendering with a container on the stack, which is taken off however the rendering ends. -/
def inside (c : Container) (render : Rendering Unit) : Rendering Unit := fun s =>
  match render { s with visiting := c :: s.visiting } with
  | .ok () s => .ok () { s with visiting := s.visiting.tail }
  | .error stop s => .error stop { s with visiting := s.visiting.tail }

/-- A container that is on the stack already is marked. -/
def visit (formatter : Formatter) (c : Container) (render : Rendering Unit) : Rendering Unit := do
  if c ∈ (← get).visiting then write formatter c.marker else inside c render

/-- Labelled values with commas between them. The first is written behind `before`. -/
def entries (formatter : Formatter) (render : Value → Rendering Unit) (before : String) :
    List (String × Value) → Rendering Unit
  | [] => return
  | part :: rest => do
      write formatter (before ++ part.1)
      render part.2
      entries formatter render ", " rest

end Rendering

/-- The rendering of a value on a stack. -/
def Style.rendering (style : Style) (h : Heap) (formatter : Formatter) (fuel : Nat) (v : Value) : Rendering Unit :=
  match style.view h v with
  | .whole text => Rendering.write formatter text
  | .parts c parts =>
      match fuel with
      | 0 => throw .outOfFuel
      | fuel + 1 => Rendering.visit formatter c do
          Rendering.write formatter c.opening
          Rendering.entries formatter (style.rendering h formatter fuel) "" parts
          Rendering.write formatter c.closing

end Heap

end LineScript
