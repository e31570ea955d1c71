import LineScript.Machine
import LineScript.Operation.Primitive
/-!
# Evaluation

Nodes are evaluated in a scope, operands from left to right, and functions are called with values. Statements yield
the value of the last of them. A failure is located at the innermost node it passes that is not a literal or a block.
Code of the host runs as far as the library answers it: it is told results and failures, while a fault, its own or
that of something it calls, goes through it.

The evaluation of a node and the call of a function are the two pieces of work that lead to others. One step of
either is given the means to do the others, and `execute` ties the knot under a bound on the depth of steps and on
the rounds of each loop.
-/

namespace LineScript

inductive Work where
  | node (scope : Scope) (n : Node)
  | call (f : Value) (args : List Value)

def BinaryOp.operation : BinaryOp → Value → Value → Action Heap Value
  | add => Operation.add
  | subtract => Operation.subtract
  | multiply => Operation.multiply
  | divide => Operation.divide
  | equals => Operation.equals
  | notEquals => Operation.notEquals
  | less => Operation.less
  | lessEquals => Operation.lessEquals
  | greater => Operation.greater
  | greaterEquals => Operation.greaterEquals

def UnaryOp.operation : UnaryOp → Value → Action Heap Value
  | not => Operation.not
  | negate => Operation.negate

namespace Eval

/-! ### Scopes -/

def readVariable (scope : Scope) (name : String) : Eval Value := fun m =>
  orRaise (.undefinedVariable name) (m.scopes.get? scope name) m

def writeVariable (scope : Scope) (name : String) (value : Value) : Eval Unit :=
  onScopes fun s => ((), s.assign scope name value)

def newChild (scope : Scope) (bindings : Bindings) : Eval Scope :=
  onScopes fun s => s.newChild scope bindings

/-- Makes a function that holds on to the scope, and binds the name it may have. -/
def makeFunction (scope : Scope) (name : Option String) (params : List String) (body : List Node) : Eval Value := do
  onScopes fun s => ((), s.capture scope)
  let f ← onHeap (modifyGet (·.newFunction ⟨name.getD "", params, .script body scope⟩))
  match name with
  | none => return f
  | some name =>
      writeVariable scope name f
      return f

/-! ### Operators -/

def applyBinary (op : BinaryOp) (x y : Value) : Eval Value :=
  onHeap (op.operation x y)

def applyUnary (op : UnaryOp) (x : Value) : Eval Value :=
  onHeap (op.operation x)

def condition : Value → Eval Bool
  | .bool b => pure b
  | v => raise (.conditionType v.tag)

def logicalOperand (op : LogicalOp) : Value → Eval Bool
  | .bool b => pure b
  | v => raise (.logicalType (match op with | .and => "and" | .or => "or") v.tag)

/-- The operand that settles an operation without the other one. -/
def settles : LogicalOp → Bool
  | .and => false
  | .or => true

/-! ### Statements and loops -/

/-- Runs statements and yields the last value, which is `last` when there are none. -/
def statements (run : Work → Eval Value) (scope : Scope) (last : Value) : List Node → Eval Value
  | [] => pure last
  | n :: rest => do
      let v ← run (.node scope n)
      statements run scope v rest

/-- Runs statements in a scope of their own. -/
def block (run : Work → Eval Value) (scope : Scope) (body : List Node) : Eval Value := do
  statements run (← newChild scope []) .none body

def values (run : Work → Eval Value) (scope : Scope) : List Node → Eval (List Value)
  | [] => pure []
  | n :: rest => do
      let v ← run (.node scope n)
      return v :: (← values run scope rest)

def optional (run : Work → Eval Value) (scope : Scope) : Option Node → Eval (Option Value)
  | none => pure none
  | some n => do return some (← run (.node scope n))

/-- Runs the body as long as the test holds. -/
def whileHolds (test : Eval Bool) (body : Eval Value) : (fuel : Nat) → Eval Value
  | 0 => throw .outOfFuel
  | fuel + 1 => do
      if ← test then
        let _ ← body
        whileHolds test body fuel
      else return .none

/-- Runs the body for the items of an array from a place on. The array is read anew in each round, so items that the
body writes or adds are seen. -/
def forItems (id : ArrayId) (body : Value → Eval Value) : (fuel : Nat) → (place : Nat) → Eval Value
  | 0, _ => throw .outOfFuel
  | fuel + 1, place => do
      match ((← get).heap.items id)[place]? with
      | none => return .none
      | some v =>
          let _ ← body v
          forItems id body fuel (place + 1)

/-! ### One step -/

def node (fuel : Nat) (run : Work → Eval Value) (scope : Scope) : Node → Eval Value
  | .literal _ value => pure value.value
  | .var p name => located p (readVariable scope name)
  | .assign p name value => located p do
      let v ← run (.node scope value)
      writeVariable scope name v
      return v
  | .binary p op left right => located p do
      let x ← run (.node scope left)
      let y ← run (.node scope right)
      applyBinary op x y
  | .unary p op operand => located p do
      applyUnary op (← run (.node scope operand))
  | .logical p op left right => located p do
      let x ← logicalOperand op (← run (.node scope left))
      if x = settles op then return .bool x
      else return .bool (← logicalOperand op (← run (.node scope right)))
  | .member p receiver name => located p do
      let v ← run (.node scope receiver)
      onHeap (Operation.readMember v name)
  | .assignMember p receiver name value => located p do
      let target ← run (.node scope receiver)
      let v ← run (.node scope value)
      onHeap (Operation.writeMember target name v)
      return v
  | .call p function args => located p do
      let f ← run (.node scope function)
      run (.call f (← values run scope args))
  | .list p items => located p do
      let vs ← values run scope items
      onHeap (Operation.makeArray vs.toArray)
  | .range p first last step => located p do
      let x ← run (.node scope first)
      let y ← run (.node scope last)
      let z ← optional run scope step
      onHeap (Operation.range x y z)
  | .item p array index => located p do
      let v ← run (.node scope array)
      let i ← run (.node scope index)
      onHeap (Operation.readItem v i)
  | .assignItem p array index value => located p do
      let target ← run (.node scope array)
      let i ← run (.node scope index)
      let v ← run (.node scope value)
      onHeap (Operation.writeItem target i v)
      return v
  | .branch p test body otherwise => located p do
      if ← condition (← run (.node scope test)) then block run scope body
      else
        match otherwise with
        | none => return .none
        | some other => run (.node scope other)
  | .loop p test body => located p
      (whileHolds (do condition (← run (.node scope test))) (block run scope body) fuel)
  | .forEach p name list body => located p do
      match ← run (.node scope list) with
      | .array id =>
          forItems id (fun v => do writeVariable scope name v; block run scope body) fuel 0
      | v => raise (.cannotIterate v.tag)
  | .block _ body => block run scope body
  | .function p name params body => located p (makeFunction scope name params body)

def applied (operation : Primitive) (args : List Value) : Eval Value :=
  blaming (onHeap (Operation.apply operation args))

def hostFunction (name : String) (params : List String) (body : List Value → HostCode) : Eval Value :=
  onHeap (modifyGet (·.newFunction ⟨name, params, .native (.host body)⟩))

def hostObject (name : String) (members : Bindings) : Eval Value :=
  return .object (← onHeap (modifyGet (·.newObject ⟨name, members⟩)))

def host (run : Work → Eval Value) : HostCode → Eval Value
  | .returns v => pure v
  | .raises f => throw (.failure f)
  | .panics f => throw (.fault (.ofHost f))
  | .diverges => throw .outOfFuel
  | .applies operation args next => do host run (next (← attempt (applied operation args)))
  | .calls f args next => do host run (next (← attempt (run (.call f args))))
  | .makesFunction name params body next => do host run (next (← hostFunction name params body))
  | .makesObject name members next => do host run (next (← hostObject name members))
  | .exchanges step next => do host run (next (← exchange step))

def native (run : Work → Eval Value) (operation : Native) (args : List Value) : Eval Value :=
  match operation with
  | .writeLine cell write => do
      let v ← onHeap (Operation.argument args 0)
      let _ ← borrowing cell (host run (write v))
      return .none
  | .asks cell answer => borrowing cell (host run answer)
  | .convertTo target => onHeap do Operation.convert (← Operation.argument args 0) target
  | .host body => host run (body args)

/-- A script's function runs in a new scope inside the one it was made in, with its parameters bound. -/
def invoke (run : Work → Eval Value) (f : Function) (args : List Value) : Eval Value :=
  match f.body with
  | .script body scope => do
      statements run (← newChild scope (.ofPairs (f.params.zip args))) .none body
  | .native operation => native run operation args

def call (run : Work → Eval Value) (f : Value) (args : List Value) : Eval Value := do
  match f with
  | .function id =>
      let f := (← get).heap.function id
      if args.length = f.params.length then nested (invoke run f args)
      else raise (.arity f.name f.params.length args.length)
  | v => raise (.cannotCall v.tag)

def step (fuel : Nat) (run : Work → Eval Value) : Work → Eval Value
  | .node scope n => node fuel run scope n
  | .call f args => call run f args

def execute : (fuel : Nat) → Work → Eval Value
  | 0, _ => throw .outOfFuel
  | fuel + 1, work => step fuel (execute fuel) work

end Eval

end LineScript
