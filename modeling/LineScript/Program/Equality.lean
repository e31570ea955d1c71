import LineScript.Program
import LineScript.Token.Lexer
import Mathlib.Control.Monad.Basic
/-!
# Comparing trees

Whether two programs are the same tree, positions included, can be computed, so that what the parser makes of a source
is compared with the tree that is written down for it. Nodes hold lists of nodes and nodes that may be missing, and the
comparison descends into these beside them.
-/

namespace LineScript

mutual

/-- Whether the nodes are the same, in the same places. -/
def Node.same : Node → Node → Bool
  | .literal p value, .literal q value' => p = q && value = value'
  | .var p name, .var q name' => p = q && name = name'
  | .assign p name value, .assign q name' value' => p = q && name = name' && value.same value'
  | .binary p op x y, .binary q op' x' y' => p = q && op = op' && x.same x' && y.same y'
  | .unary p op x, .unary q op' x' => p = q && op = op' && x.same x'
  | .logical p op x y, .logical q op' x' y' => p = q && op = op' && x.same x' && y.same y'
  | .member p x name, .member q x' name' => p = q && x.same x' && name = name'
  | .assignMember p x name value, .assignMember q x' name' value' =>
      p = q && x.same x' && name = name' && value.same value'
  | .call p f args, .call q f' args' => p = q && f.same f' && Node.allSame args args'
  | .list p items, .list q items' => p = q && Node.allSame items items'
  | .range p first last step, .range q first' last' step' =>
      p = q && first.same first' && last.same last' && Node.optionSame step step'
  | .item p array index, .item q array' index' => p = q && array.same array' && index.same index'
  | .assignItem p array index value, .assignItem q array' index' value' =>
      p = q && array.same array' && index.same index' && value.same value'
  | .branch p test body otherwise, .branch q test' body' otherwise' =>
      p = q && test.same test' && Node.allSame body body' && Node.optionSame otherwise otherwise'
  | .loop p test body, .loop q test' body' => p = q && test.same test' && Node.allSame body body'
  | .forEach p name x body, .forEach q name' x' body' =>
      p = q && name = name' && x.same x' && Node.allSame body body'
  | .block p body, .block q body' => p = q && Node.allSame body body'
  | .function p name params body, .function q name' params' body' =>
      p = q && name = name' && params = params' && Node.allSame body body'
  | _, _ => false

def Node.allSame : List Node → List Node → Bool
  | [], [] => true
  | n :: rest, n' :: rest' => n.same n' && Node.allSame rest rest'
  | _, _ => false

def Node.optionSame : Option Node → Option Node → Bool
  | none, none => true
  | some n, some n' => n.same n'
  | _, _ => false

end

mutual

theorem Node.same_iff (n n' : Node) : n.same n' = true ↔ n = n' := by
  cases n with
  | literal | var => cases n' <;> simp [Node.same]
  | assign _ _ x | unary _ _ x | member _ x => cases n' <;> simp [Node.same, Node.same_iff x, and_assoc]
  | binary _ _ x y | logical _ _ x y | assignMember _ x _ y | item _ x y =>
      cases n' <;> simp [Node.same, Node.same_iff x, Node.same_iff y, and_assoc]
  | assignItem _ x y z => cases n' <;> simp [Node.same, Node.same_iff x, Node.same_iff y, Node.same_iff z, and_assoc]
  | call _ x xs | loop _ x xs | forEach _ _ x xs =>
      cases n' <;> simp [Node.same, Node.same_iff x, Node.allSame_iff xs, and_assoc]
  | list _ xs | block _ xs | function _ _ _ xs => cases n' <;> simp [Node.same, Node.allSame_iff xs, and_assoc]
  | range _ x y z =>
      cases n' <;> simp [Node.same, Node.same_iff x, Node.same_iff y, Node.optionSame_iff z, and_assoc]
  | branch _ x xs z =>
      cases n' <;> simp [Node.same, Node.same_iff x, Node.allSame_iff xs, Node.optionSame_iff z, and_assoc]

theorem Node.allSame_iff (ns ns' : List Node) : Node.allSame ns ns' = true ↔ ns = ns' := by
  cases ns with
  | nil => cases ns' <;> simp [Node.allSame]
  | cons n rest => cases ns' <;> simp [Node.allSame, Node.same_iff n, Node.allSame_iff rest]

theorem Node.optionSame_iff (n n' : Option Node) : Node.optionSame n n' = true ↔ n = n' := by
  cases n with
  | none => cases n' <;> simp [Node.optionSame]
  | some n => cases n' <;> simp [Node.optionSame, Node.same_iff n]

end

instance : DecidableEq Node := fun n n' =>
  decidable_of_iff _ (n.same_iff n')

deriving instance DecidableEq for Program, Lexer

end LineScript
