import LineScript.Decimal.Basic
import LineScript.Position
/-!
# Programs

The tree of a program. Every node carries the position of the token that introduces it: the operator of an
operation, the bracket of an index, the word that opens a block. The bodies of branches, loops and functions
start at their node's own position.
-/

namespace LineScript

inductive Literal where
  | none
  | bool (b : Bool)
  | number (n : Decimal)
  | string (s : String)
deriving DecidableEq

inductive BinaryOp where
  | add | subtract | multiply | divide
  | equals | notEquals | less | lessEquals | greater | greaterEquals
deriving DecidableEq, Repr

inductive UnaryOp where
  | not | negate
deriving DecidableEq, Repr

inductive LogicalOp where
  | and | or
deriving DecidableEq, Repr

inductive Node where
  | literal (pos : Position) (value : Literal)
  | var (pos : Position) (name : String)
  | assign (pos : Position) (name : String) (value : Node)
  | binary (pos : Position) (op : BinaryOp) (left right : Node)
  | unary (pos : Position) (op : UnaryOp) (operand : Node)
  | logical (pos : Position) (op : LogicalOp) (left right : Node)
  | member (pos : Position) (receiver : Node) (name : String)
  | assignMember (pos : Position) (receiver : Node) (name : String) (value : Node)
  | call (pos : Position) (function : Node) (args : List Node)
  | list (pos : Position) (items : List Node)
  | range (pos : Position) (first last : Node) (step : Option Node)
  | item (pos : Position) (array index : Node)
  | assignItem (pos : Position) (array index value : Node)
  /-- The other branch is a block, or for a chain of tests another branch. -/
  | branch (pos : Position) (test : Node) (body : List Node) (otherwise : Option Node)
  | loop (pos : Position) (test : Node) (body : List Node)
  | forEach (pos : Position) (name : String) (list : Node) (body : List Node)
  | block (pos : Position) (body : List Node)
  | function (pos : Position) (name : Option String) (params : List String) (body : List Node)

namespace Node

def position : Node → Position
  | literal p _ | var p _ | assign p _ _ | binary p _ _ _ | unary p _ _ | logical p _ _ _
  | member p _ _ | assignMember p _ _ _ | call p _ _ | list p _ | range p _ _ _ | item p _ _
  | assignItem p _ _ _ | branch p _ _ _ | loop p _ _ | forEach p _ _ _ | block p _
  | function p _ _ _ => p

end Node

structure Program where
  source : String
  body : List Node

end LineScript
