import LineScript.Evaluation
import LineScript.Proofs.Host
/-!
# Going through an evaluation

An evaluation is put together from elementary actions: operations on the heap, reading and writing variables, making
functions, what the code of the host does by itself, and refusals. Which of them occur depends on the code that may run.
A property of actions that the elementary ones have, and that is kept where actions are put together, is one of every
evaluation. It is a walk through the evaluation, and the cases of the evaluator are gone through once, here.
-/

namespace LineScript

namespace Operation

variable {trusts : Prop} {evolves : Heap → Heap → Prop} [Heap.Growing evolves]

theorem regular_binary (op : BinaryOp) (x y : Value) : Regular trusts evolves (op.operation x y) := by
  cases op with
  | add => exact regular_add x y
  | subtract => exact regular_subtract x y
  | multiply => exact regular_multiply x y
  | divide => exact regular_divide x y
  | equals => exact regular_equals x y
  | notEquals => exact regular_notEquals x y
  | less => exact .pure _
  | lessEquals => exact regular_lessEquals x y
  | greater => exact .pure _
  | greaterEquals => exact regular_greaterEquals x y

theorem regular_unary (op : UnaryOp) (x : Value) : Regular trusts evolves (op.operation x) := by
  cases op with
  | not => exact regular_not x
  | negate => exact regular_negate x

end Operation

/-! ### Code -/

/-- The nodes directly inside a node, with those of its blocks and, for a function, of its body. -/
def Node.children : Node → List Node
  | literal .. | var .. => []
  | assign _ _ value => [value]
  | binary _ _ left right | logical _ _ left right => [left, right]
  | unary _ _ operand => [operand]
  | member _ receiver _ => [receiver]
  | assignMember _ receiver _ value => [receiver, value]
  | call _ callee args => callee :: args
  | list _ items => items
  | range _ first last step => first :: last :: step.toList
  | item _ array index => [array, index]
  | assignItem _ array index value => [array, index, value]
  | branch _ test body otherwise => test :: (body ++ otherwise.toList)
  | loop _ test body => test :: body
  | forEach _ _ items body => items :: body
  | block _ body => body
  | function _ _ _ body => body

/-- Whether the failures inside the node are located at it. Literals have none, and a block leaves them to its
statements. -/
def Node.isLocated : Node → Bool
  | literal .. | block .. => false
  | _ => true

/-- If the work locates the failures inside it, then at one of these places. -/
def Work.LocatedIn (places : Position → Prop) (w : Work) : Prop :=
  ∀ scope n, w = .node scope n → n.isLocated = true → places n.position

theorem Work.locatedIn_of_forall {places : Position → Prop} (hplaces : ∀ p, places p) (w : Work) : w.LocatedIn places :=
  fun _ n _ _ => hplaces n.position

/-- The number of arguments that a function of the host takes for granted. -/
def Native.arity : Native → Nat
  | writeLine .. | convertTo _ => 1
  | _ => 0

/-- The code that may run: nodes, with the nodes inside them, and functions of the host by the number of their
parameters. Among these is the one that a handle of no function means, and those that their code may make. A function
of the host takes no more arguments for granted than it has parameters, unless the host is trusted with that. -/
structure Code where
  node : Node → Prop
  native : Nat → Native → Prop
  terms : Terms
  trusts : Prop
  child : ∀ {n c : Node}, node n → c ∈ n.children → node c
  idle : native 0 .idle
  arity_le : ∀ {count : Nat} {operation : Native}, native count operation → trusts ∨ operation.arity ≤ count
  honours : ∀ {count : Nat} {operation : Native}, native count operation → operation.Honours terms count
  made : ∀ {count : Nat} {body : List Value → HostCode}, terms.makes →
    (∀ args, args.length = count → (body args).Honours terms) → native count (.host body)

/-- These nodes, and every function of the host whose code honours the terms. -/
def Code.under (node : Node → Prop) (child : ∀ {n c : Node}, node n → c ∈ n.children → node c) (terms : Terms)
    (trusts : Prop) : Code where
  node := node
  native count operation := operation.Honours terms count ∧ (trusts ∨ operation.arity ≤ count)
  terms := terms
  trusts := trusts
  child := child
  idle := ⟨Native.honours_idle terms 0, .inr (Nat.le_refl 0)⟩
  arity_le hnative := hnative.2
  honours hnative := hnative.1
  made _ hbody := ⟨hbody, .inr (Nat.zero_le _)⟩

namespace Code

variable (code : Code)

def function (f : Function) : Prop :=
  match f.body with
  | .script body _ => ∀ n ∈ body, code.node n
  | .native operation => code.native f.params.length operation

def heap (h : Heap) : Prop :=
  ∀ f ∈ h.functions, code.function f

/-- The machines on which there is only such code. -/
def machine (m : Machine) : Prop :=
  code.heap m.heap ∧ code.terms.states m.toHostState

theorem heap_empty : code.heap .empty := fun f hf =>
  (Array.not_mem_empty f hf).elim

theorem function_of_heap {code : Code} {h : Heap} (hheap : code.heap h) (id : FunctionId) :
    code.function (h.function id) := by
  unfold Heap.function
  cases hfound : h.functions[id.index]? with
  | none => exact code.idle
  | some f => exact hheap f (Array.mem_of_getElem? hfound)

/-- All code. -/
def any : Code :=
  .under (fun _ => True) (fun _ _ => trivial) .any True

theorem any_machine (m : Machine) : any.machine m := by
  refine ⟨fun f _ => ?_, trivial⟩
  obtain ⟨name, params, body⟩ := f
  cases body with
  | script body scope => exact fun _ _ => trivial
  | native operation => exact ⟨operation.honours_any params.length, .inl trivial⟩

/-- Code without functions of the host, other than the one that a handle of no function means. -/
def scripts : Code where
  node _ := True
  native count operation := count = 0 ∧ operation = .idle
  terms := .none
  trusts := False
  child _ _ := trivial
  idle := ⟨rfl, rfl⟩
  arity_le hnative := by
    obtain ⟨rfl, rfl⟩ := hnative
    exact .inr (Nat.le_refl 0)
  honours hnative := by
    obtain ⟨rfl, rfl⟩ := hnative
    exact Native.honours_idle _ _
  made := False.elim

/-- The work that may be done in a frame. A call is made from any. -/
def work (home : FrameId) : Work → Prop
  | .node scope n => scope.frame = home ∧ code.node n
  | .call _ _ => True

end Code

/-- The host's state is another one from here on. -/
def Eval.become (host : HostState) : Eval Unit := fun m =>
  .ok () { m with toHostState := host }

/-- What code of the host does to the host's state depends on that alone. -/
theorem Eval.exchange_bind {α : Type} (step : HostState → Reply × HostState) (next : Reply → Eval α) :
    (exchange step >>= next) = fun m =>
      (do become (step m.toHostState).2; next (step m.toHostState).1 : Eval α) m :=
  rfl

/-! ### Elementary actions -/

namespace Code

variable (code : Code)

/-- The operations on the heap that an evaluation of the code goes through, but for the writes of items. -/
inductive Operates : {α : Type} → Action Heap α → Prop
  | binary (op : BinaryOp) (x y : Value) : Operates (op.operation x y)
  | unary (op : UnaryOp) (x : Value) : Operates (op.operation x)
  | readMember {p : Position} {receiver : Node} {name : String} (hn : code.node (.member p receiver name)) (v : Value) :
      Operates (Operation.readMember v name)
  | writeMember {p : Position} {receiver value : Node} {name : String}
      (hn : code.node (.assignMember p receiver name value)) (target v : Value) :
      Operates (Operation.writeMember target name v)
  | makeArray (items : Array Value) : Operates (Operation.makeArray items)
  | range (first last : Value) (step : Option Value) : Operates (Operation.range first last step)
  | readItem (v index : Value) : Operates (Operation.readItem v index)
  | argument {args : List Value} {i : Nat} (hargs : code.trusts ∨ i < args.length) :
      Operates (Operation.argument args i)
  | convert {args : List Value} (target : Tag) (hargs : code.trusts ∨ 0 < args.length) :
      Operates (do Operation.convert (← Operation.argument args 0) target)

theorem Operates.regular {code : Code} {evolves : Heap → Heap → Prop} [Heap.Growing evolves] {α : Type}
    {action : Action Heap α} (h : code.Operates action) : Regular code.trusts evolves action := by
  cases h with
  | binary op x y => exact Operation.regular_binary op x y
  | unary op x => exact Operation.regular_unary op x
  | readMember hn v => exact Operation.regular_readMember v _
  | writeMember hn target v => exact Operation.regular_writeMember target _ v
  | makeArray items => exact Operation.regular_makeArray items
  | range first last step => exact Operation.regular_range first last step
  | readItem v index => exact Operation.regular_readItem v index
  | argument hargs => exact Operation.regular_argument hargs
  | convert target hargs => exact .bind (Operation.regular_argument hargs) fun v => Operation.regular_convert v target

/-- The elementary actions of an evaluation on such heaps, in a scope whose own frame is `home`. -/
inductive Elementary (heaps : Heap → Prop) : FrameId → {α : Type} → Eval α → Prop
  | pure {home : FrameId} {α : Type} (a : α) : Elementary heaps home (pure a)
  | onHeap {home : FrameId} {α : Type} {action : Action Heap α} (h : code.Operates action) :
      Elementary heaps home (Eval.onHeap action)
  | readVariable {home : FrameId} {p : Position} {name : String} (hn : code.node (.var p name)) (scope : Scope) :
      Elementary heaps home (Eval.readVariable scope name)
  | writeVariable (scope : Scope) (name : String) (v : Value) :
      Elementary heaps scope.frame (Eval.writeVariable scope name v)
  | makeFunction {p : Position} {name : Option String} {params : List String} {body : List Node}
      (hn : code.node (.function p name params body)) (scope : Scope) :
      Elementary heaps scope.frame (Eval.makeFunction scope name params body)
  | condition {home : FrameId} (v : Value) : Elementary heaps home (Eval.condition v)
  | logicalOperand {home : FrameId} (op : LogicalOp) (v : Value) : Elementary heaps home (Eval.logicalOperand op v)
  | cannotIterate {home : FrameId} {α : Type} (v : Value) :
      Elementary heaps home (raise (.cannotIterate v.tag) : Eval α)
  | cannotCall {home : FrameId} {α : Type} (v : Value) : Elementary heaps home (raise (.cannotCall v.tag) : Eval α)
  | arity {home : FrameId} {α : Type} {h : Heap} (hh : heaps h) (id : FunctionId) (received : Nat) :
      Elementary heaps home (raise (.arity (h.function id).name (h.function id).params.length received) : Eval α)
  | raises {home : FrameId} {α : Type} {f : Failure} (hraises : code.terms.raises f) :
      Elementary heaps home (throw (.failure f) : Eval α)
  | panics {home : FrameId} {α : Type} (hpanics : code.terms.panics) (f : Fault) :
      Elementary heaps home (throw (.fault (.ofHost f)) : Eval α)
  | diverges {home : FrameId} {α : Type} (hdiverges : code.terms.diverges) :
      Elementary heaps home (throw .outOfFuel : Eval α)
  | applied {home : FrameId} {operation : Primitive} {args : List Value} (happlies : code.terms.applies operation)
      (hfaultless : code.terms.panics ∨ ∀ h, (Operation.apply operation args h).Faultless) :
      Elementary heaps home (Eval.applied operation args)
  | hostFunction {home : FrameId} (hmakes : code.terms.makes) (name : String) (params : List String)
      {body : List Value → HostCode} (hbody : ∀ args, args.length = params.length → (body args).Honours code.terms) :
      Elementary heaps home (Eval.hostFunction name params body)
  | hostObject {home : FrameId} (hmakes : code.terms.makes) (name : String) (members : Bindings) :
      Elementary heaps home (Eval.hostObject name members)
  | become {home : FrameId} {host : HostState} (hhost : code.terms.states host) :
      Elementary heaps home (Eval.become host)

end Code

namespace Eval

variable {code : Code} {heaps : Heap → Prop} {home : FrameId}

/-! ### Walks

The actions come in families, so that a walk can compare those of a family or follow them along a growing bound on their
fuel. A walk meets heaps that have only functions of the code, and of which it may know more.
-/

/-- A walk through code of the host. -/
structure HostWalk (code : Code) (heaps : Heap → Prop) (ι : Type) where
  Holds : {α : Type} → FrameId → (ι → Eval α) → Prop
  elementary : ∀ {α : Type} {home : FrameId} {action : Eval α}, code.Elementary heaps home action →
    Holds home fun _ => action
  bind : ∀ {α β : Type} {home : FrameId} {action : ι → Eval α} {next : α → ι → Eval β}, Holds home action →
    (∀ a, Holds home (next a)) → Holds home fun i => action i >>= fun a => next a i
  reading : ∀ {α : Type} {home : FrameId} (next : Heap → HostState → ι → Eval α),
    (∀ h host, code.heap h → heaps h → code.terms.states host → Holds home (next h host)) →
    Holds home fun i m => next m.heap m.toHostState i m
  caught : ∀ {α : Type} {home : FrameId} {action : ι → Eval Value} {next : Reply → ι → Eval α}, Holds home action →
    (∀ v, Holds home (next (.ok v))) →
    (∀ f, (∀ i, next (.error f) i = throw (.failure f)) ∨ code.terms.catches f ∧ Holds home (next (.error f))) →
    Holds home fun i => attempt (action i) >>= fun reply => next reply i

/-- A walk goes through code of the host, whatever that is told, if it goes through the calls that the code makes. -/
theorem HostWalk.host {ι : Type} (walk : HostWalk code heaps ι) {run : ι → Work → Eval Value} {c : HostCode}
    (hc : c.Honours code.terms)
    (hcall : code.terms.calls → ∀ f args, walk.Holds home fun i => run i (.call f args)) :
    walk.Holds home fun i => host (run i) c := by
  induction c with
  | returns v => exact walk.elementary (.pure v)
  | raises f => exact walk.elementary (.raises hc)
  | panics f => exact walk.elementary (.panics hc f)
  | diverges => exact walk.elementary (.diverges hc)
  | applies operation args next ih =>
      obtain ⟨happlies, hfaultless, hok, herror⟩ := hc
      refine walk.caught (walk.elementary (.applied happlies hfaultless)) (fun v => ih _ (hok v)) fun f => ?_
      exact (herror f).imp (fun hhanded i => congrArg (Eval.host (run i)) hhanded) (.imp_right (ih _))
  | calls f args next ih =>
      obtain ⟨hcalls, hok, herror⟩ := hc
      refine walk.caught (hcall hcalls f args) (fun v => ih _ (hok v)) fun f => ?_
      exact (herror f).imp (fun hhanded i => congrArg (Eval.host (run i)) hhanded) (.imp_right (ih _))
  | makesFunction name params body next _ ih =>
      obtain ⟨hmakes, hbody, hnext⟩ := hc
      exact walk.bind (walk.elementary (.hostFunction hmakes name params hbody)) fun v => ih v (hnext v)
  | makesObject name members next ih =>
      exact walk.bind (walk.elementary (.hostObject hc.1 name members)) fun v => ih v (hc.2 v)
  | exchanges step next ih =>
      simp only [Eval.host, exchange_bind]
      refine walk.reading (fun _ host i => do become (step host).2; Eval.host (run i) (next (step host).1))
        fun _ host _ _ hhost => ?_
      obtain ⟨hstate, hnext⟩ := hc host hhost
      exact walk.bind (walk.elementary (.become hstate)) fun _ => ih _ hnext

structure Walk (code : Code) (heaps : Heap → Prop) (ι : Type) extends HostWalk code heaps ι where
  /-- The positions at which failures may be located. -/
  Places : Position → Prop := fun _ => True
  inside : ∀ {α : Type} {home : FrameId} {next : Scope → ι → Eval α} (scope : Scope) (bindings : Bindings),
    (∀ inner : Scope, Holds inner.frame (next inner)) →
    Holds home fun i => newChild scope bindings >>= fun inner => next inner i
  located : ∀ {α : Type} {home : FrameId} {action : ι → Eval α} (p : Position), Places p → Holds home action →
    Holds home fun i => located p (action i)
  borrowing : ∀ {home : FrameId} {run : ι → Work → Eval Value} {c : HostCode} (cell : Cell), c.Honours code.terms →
    (Holds home fun i => host (run i) c) → Holds home fun i => borrowing cell (host (run i) c)

namespace Walk

variable {ι : Type} (walk : Walk code heaps ι) {run : ι → Work → Eval Value} {scope : Scope}

theorem statements {body : List Node} (hbody : ∀ n ∈ body, walk.Holds scope.frame fun i => run i (.node scope n))
    (last : Value) : walk.Holds scope.frame fun i => statements (run i) scope last body := by
  induction body generalizing last with
  | nil => exact walk.elementary (.pure last)
  | cons n rest ih =>
      rw [List.forall_mem_cons] at hbody
      exact walk.bind hbody.1 fun v => ih hbody.2 v

theorem block {body : List Node}
    (hbody : ∀ scope, ∀ n ∈ body, walk.Holds scope.frame fun i => run i (.node scope n)) :
    walk.Holds home fun i => block (run i) scope body :=
  walk.inside scope [] fun inner => walk.statements (hbody inner) .none

theorem values {nodes : List Node} (hnodes : ∀ n ∈ nodes, walk.Holds scope.frame fun i => run i (.node scope n)) :
    walk.Holds scope.frame fun i => values (run i) scope nodes := by
  induction nodes with
  | nil => exact walk.elementary (.pure [])
  | cons n rest ih =>
      rw [List.forall_mem_cons] at hnodes
      exact walk.bind hnodes.1 fun _ => walk.bind (ih hnodes.2) fun _ => walk.elementary (.pure _)

theorem optional {n : Option Node}
    (hnode : ∀ c ∈ n.toList, walk.Holds scope.frame fun i => run i (.node scope c)) :
    walk.Holds scope.frame fun i => optional (run i) scope n := by
  cases n with
  | none => exact walk.elementary (.pure none)
  | some n => exact walk.bind (hnode n (by simp)) fun _ => walk.elementary (.pure _)

theorem assignItem (rounds : ι → Nat) {p : Position} {array index value : Node} (hplace : walk.Places p)
    (hchild : ∀ c ∈ [array, index, value], walk.Holds scope.frame fun i => run i (.node scope c))
    (hwrite : ∀ target i v, walk.Holds scope.frame fun _ => onHeap (Operation.writeItem target i v)) :
    walk.Holds scope.frame fun i => Eval.node (rounds i) (run i) scope (.assignItem p array index value) :=
  walk.located p hplace (walk.bind (hchild array (by simp)) fun target =>
    walk.bind (hchild index (by simp)) fun i => walk.bind (hchild value (by simp)) fun v =>
    walk.bind (hwrite target i v) fun _ => walk.elementary (.pure v))

/-- A walk goes through a node if it goes through the nodes inside it and through calls, through loops over arrays if it
goes through their bodies, and through the node in case that writes an item or is a loop with a test. -/
theorem node (rounds : ι → Nat) {n : Node} (hn : code.node n) (hplace : n.isLocated = true → walk.Places n.position)
    (hchild : ∀ c ∈ n.children, ∀ scope, walk.Holds scope.frame fun i => run i (.node scope c))
    (hcall : ∀ home f args, walk.Holds home fun i => run i (.call f args))
    (hitems : ∀ id {body : ι → Value → Eval Value}, (∀ v, walk.Holds scope.frame fun i => body i v) →
      walk.Holds scope.frame fun i => forItems id (body i) (rounds i) 0)
    (hwrite : ∀ p array index value, n = .assignItem p array index value →
      walk.Holds scope.frame fun i => node (rounds i) (run i) scope n)
    (hloop : ∀ p test body, n = .loop p test body → walk.Holds scope.frame fun i => node (rounds i) (run i) scope n) :
    walk.Holds scope.frame fun i => node (rounds i) (run i) scope n := by
  cases n with
  | literal p value => exact walk.elementary (.pure _)
  | var p name => exact walk.located p (hplace rfl) (walk.elementary (.readVariable hn scope))
  | assign p name value =>
      exact walk.located p (hplace rfl) (walk.bind (hchild value (by simp [Node.children]) scope) fun v =>
        walk.bind (walk.elementary (.writeVariable scope name v)) fun _ => walk.elementary (.pure v))
  | binary p op left right =>
      exact walk.located p (hplace rfl) (walk.bind (hchild left (by simp [Node.children]) scope) fun x =>
        walk.bind (hchild right (by simp [Node.children]) scope) fun y => walk.elementary (.onHeap (.binary op x y)))
  | unary p op operand =>
      exact walk.located p (hplace rfl) (walk.bind (hchild operand (by simp [Node.children]) scope) fun x =>
        walk.elementary (.onHeap (.unary op x)))
  | logical p op left right =>
      refine walk.located p (hplace rfl) (walk.bind (hchild left (by simp [Node.children]) scope) fun x =>
        walk.bind (walk.elementary (.logicalOperand op x)) fun b => ?_)
      by_cases hsettled : b = settles op
      · simp only [if_pos hsettled]
        exact walk.elementary (.pure _)
      · simp only [if_neg hsettled]
        exact walk.bind (hchild right (by simp [Node.children]) scope) fun y =>
          walk.bind (walk.elementary (.logicalOperand op y)) fun _ => walk.elementary (.pure _)
  | member p receiver name =>
      exact walk.located p (hplace rfl) (walk.bind (hchild receiver (by simp [Node.children]) scope) fun v =>
        walk.elementary (.onHeap (.readMember hn v)))
  | assignMember p receiver name value =>
      exact walk.located p (hplace rfl) (walk.bind (hchild receiver (by simp [Node.children]) scope) fun target =>
        walk.bind (hchild value (by simp [Node.children]) scope) fun v =>
        walk.bind (walk.elementary (.onHeap (.writeMember hn target v))) fun _ => walk.elementary (.pure v))
  | call p callee args =>
      exact walk.located p (hplace rfl) (walk.bind (hchild callee (by simp [Node.children]) scope) fun f =>
        walk.bind (walk.values fun c hc => hchild c (by simp [Node.children, hc]) scope) fun vs =>
        hcall scope.frame f vs)
  | list p items =>
      exact walk.located p (hplace rfl) (walk.bind (walk.values fun c hc => hchild c hc scope) fun vs =>
        walk.elementary (.onHeap (.makeArray vs.toArray)))
  | range p first last step =>
      exact walk.located p (hplace rfl) (walk.bind (hchild first (by simp [Node.children]) scope) fun x =>
        walk.bind (hchild last (by simp [Node.children]) scope) fun y =>
        walk.bind (walk.optional fun c hc => hchild c (by simp_all [Node.children]) scope) fun z =>
        walk.elementary (.onHeap (.range x y z)))
  | item p array index =>
      exact walk.located p (hplace rfl) (walk.bind (hchild array (by simp [Node.children]) scope) fun v =>
        walk.bind (hchild index (by simp [Node.children]) scope) fun i =>
        walk.elementary (.onHeap (.readItem v i)))
  | assignItem p array index value => exact hwrite p array index value rfl
  | branch p test body otherwise =>
      refine walk.located p (hplace rfl) (walk.bind (hchild test (by simp [Node.children]) scope) fun v =>
        walk.bind (walk.elementary (.condition v)) fun holds => ?_)
      cases holds with
      | true => exact walk.block fun inner c hc => hchild c (by simp [Node.children, hc]) inner
      | false =>
          cases otherwise with
          | none => exact walk.elementary (.pure _)
          | some other => exact hchild other (by simp [Node.children]) scope
  | loop p test body => exact hloop p test body rfl
  | forEach p name items body =>
      refine walk.located p (hplace rfl) (walk.bind (hchild items (by simp [Node.children]) scope) fun list => ?_)
      cases list with
      | array id =>
          exact hitems id fun v => walk.bind (walk.elementary (.writeVariable scope name v)) fun _ =>
            walk.block fun inner c hc => hchild c (by simp [Node.children, hc]) inner
      | _ => exact walk.elementary (.cannotIterate _)
  | block p body => exact walk.block fun inner c hc => hchild c hc inner
  | function p name params body =>
      exact walk.located p (hplace rfl) (walk.elementary (.makeFunction hn scope))

theorem native {operation : Native} {args : List Value} (hoperation : code.native args.length operation)
    (hcall : ∀ home f args, walk.Holds home fun i => run i (.call f args)) :
    walk.Holds home fun i => native (run i) operation args := by
  have hhonours := code.honours hoperation
  cases operation with
  | writeLine cell write =>
      exact walk.bind (walk.elementary (.onHeap (.argument (code.arity_le hoperation)))) fun v =>
        walk.bind (walk.borrowing cell (hhonours v) (walk.host (hhonours v) fun _ => hcall home)) fun _ =>
          walk.elementary (.pure _)
  | asks cell answer => exact walk.borrowing cell hhonours (walk.host hhonours fun _ => hcall home)
  | convertTo target => exact walk.elementary (.onHeap (.convert target (code.arity_le hoperation)))
  | host body => exact walk.host (hhonours args rfl) fun _ => hcall home

theorem invoke {f : Function} {args : List Value} (hf : code.function f) (hargs : args.length = f.params.length)
    (hnode : ∀ n, code.node n → ∀ scope : Scope, walk.Holds scope.frame fun i => run i (.node scope n))
    (hcall : ∀ home f args, walk.Holds home fun i => run i (.call f args)) :
    walk.Holds home fun i => invoke (run i) f args := by
  obtain ⟨name, params, body⟩ := f
  cases body with
  | script body scope =>
      exact walk.inside scope _ fun inner => walk.statements (fun n hn => hnode n (hf n hn) inner) .none
  | native operation => exact walk.native (show code.native args.length operation from hargs ▸ hf) hcall

end Walk

/-- The rounds of a loop read the array anew, so that its body may change what is left to go through. -/
theorem forItems_succ (id : ArrayId) (body : Value → Eval Value) (fuel place : Nat) :
    forItems id body (fuel + 1) place = fun m =>
      ((m.heap.items id)[place]?.elim (pure .none) fun v => do
        let _ ← body v
        forItems id body fuel (place + 1) : Eval Value) m := by
  funext m
  rw [forItems, Action.bind_of_ok (show (get : Eval Machine) m = .ok m m from rfl)]
  cases (m.heap.items id)[place]? with
  | none => rfl
  | some v => rfl

/-! ### Walks through whole evaluations

A walk that also goes through the end of the fuel and through calls goes through one step of an evaluation, unless that
writes an item. If it goes through these writes as well, it goes through all that an evaluation does, by induction on
its fuel.
-/

structure CallWalk (code : Code) (heaps : Heap → Prop) (ι : Type) extends Walk code heaps ι where
  exhausted : ∀ {α : Type} {home : FrameId}, Holds home fun _ => (throw .outOfFuel : Eval α)
  nested : ∀ {α : Type} {home : FrameId} {action : ι → Eval α}, Holds home action →
    Holds home fun i => nested (action i)

namespace CallWalk

variable {ι : Type} (walk : CallWalk code heaps ι) {run : ι → Work → Eval Value}

theorem whileHolds {test : ι → Eval Bool} {body : ι → Eval Value} (htest : walk.Holds home test)
    (hbody : walk.Holds home body) (fuel : Nat) : walk.Holds home fun i => whileHolds (test i) (body i) fuel := by
  induction fuel with
  | zero => exact walk.exhausted
  | succ fuel ih =>
      refine walk.bind htest fun holds => ?_
      cases holds with
      | true => exact walk.bind hbody fun _ => ih
      | false => exact walk.elementary (.pure _)

theorem forItems (id : ArrayId) {body : ι → Value → Eval Value} (hbody : ∀ v, walk.Holds home fun i => body i v)
    (fuel place : Nat) : walk.Holds home fun i => forItems id (body i) fuel place := by
  induction fuel generalizing place with
  | zero => exact walk.exhausted
  | succ fuel ih =>
      simp only [forItems_succ]
      refine walk.reading (fun h _ i => (h.items id)[place]?.elim (Pure.pure .none) fun v => do
        let _ ← body i v
        Eval.forItems id (body i) fuel (place + 1)) fun h _ _ _ _ => ?_
      cases (h.items id)[place]? with
      | none => exact walk.elementary (.pure _)
      | some v => exact walk.bind (hbody v) fun _ => ih (place + 1)

theorem call (hrun : ∀ home w, code.work home w → walk.Holds home fun i => run i w) (f : Value) (args : List Value) :
    walk.Holds home fun i => call (run i) f args := by
  cases f with
  | function id =>
      refine walk.reading (fun h _ i => if args.length = (h.function id).params.length then
          Eval.nested (Eval.invoke (run i) (h.function id) args)
        else raise (.arity (h.function id).name (h.function id).params.length args.length)) fun h _ hcode hh _ => ?_
      split
      · rename_i hargs
        exact walk.nested (walk.invoke (code.function_of_heap hcode id) hargs
          (fun n hn scope => hrun scope.frame (.node scope n) ⟨rfl, hn⟩)
          (fun home f args => hrun home (.call f args) trivial))
      · exact walk.elementary (.arity hh id args.length)
  | _ => exact walk.elementary (.cannotCall _)

theorem step (hrun : ∀ home w, code.work home w → walk.Holds home fun i => run i w) (fuel : Nat) {w : Work}
    (hw : code.work home w)
    (hwrite : ∀ scope p array index value, w = .node scope (.assignItem p array index value) →
      walk.Holds home fun i => step fuel (run i) w)
    (hplace : w.LocatedIn walk.Places := by exact Work.locatedIn_of_forall (fun _ => trivial) _) :
    walk.Holds home fun i => step fuel (run i) w := by
  cases w with
  | node scope n =>
      obtain ⟨rfl, hn⟩ := hw
      have hchild (c : Node) (hc : c ∈ n.children) (scope : Scope) :
          walk.Holds scope.frame fun i => run i (.node scope c) :=
        hrun scope.frame (.node scope c) ⟨rfl, code.child hn hc⟩
      replace hplace := hplace scope n rfl
      refine walk.node (fun _ => fuel) hn hplace hchild (fun home f args => hrun home (.call f args) trivial)
        (fun id _ hbody => walk.forItems id hbody fuel 0) ?_ ?_
      · rintro p array index value rfl
        exact hwrite scope p array index value rfl
      · rintro p test body rfl
        refine walk.located p (hplace rfl) (walk.whileHolds (walk.bind (hchild test (by simp [Node.children]) scope)
          fun v => walk.elementary (.condition v)) ?_ fuel)
        exact walk.block fun inner c hc => hchild c (by simp [Node.children, hc]) inner
  | call f args => exact walk.call hrun f args

end CallWalk

structure StepWalk (code : Code) (heaps : Heap → Prop) (ι : Type) extends CallWalk code heaps ι where
  writeItem : ∀ {home : FrameId} (target index v : Value),
    Holds home fun _ => onHeap (Operation.writeItem target index v)

namespace StepWalk

variable {ι : Type} (walk : StepWalk code heaps ι) {run : ι → Work → Eval Value}

theorem step (hrun : ∀ home w, code.work home w → walk.Holds home fun i => run i w) (fuel : Nat) {w : Work}
    (hw : code.work home w)
    (hplace : w.LocatedIn walk.Places := by exact Work.locatedIn_of_forall (fun _ => trivial) _) :
    walk.Holds home fun i => step fuel (run i) w := by
  refine walk.toCallWalk.step hrun fuel hw ?_ hplace
  rintro scope p array index value rfl
  obtain ⟨rfl, hn⟩ := hw
  exact walk.assignItem (fun _ => fuel) (hplace scope _ rfl rfl)
    (fun c hc => hrun scope.frame (.node scope c) ⟨rfl, code.child hn hc⟩) walk.writeItem

theorem execute (fuel : Nat) (home : FrameId) (w : Work) (hw : code.work home w)
    (hplaces : ∀ home w, code.work home w → w.LocatedIn walk.Places := by
      exact fun _ w _ => w.locatedIn_of_forall fun _ => trivial) :
    walk.Holds home fun _ => execute fuel w := by
  induction fuel generalizing home w with
  | zero => exact walk.exhausted
  | succ fuel ih => exact walk.step ih fuel hw (hplaces home w hw)

theorem block (fuel : Nat) (home : FrameId) (scope : Scope) {body : List Node} (hbody : ∀ n ∈ body, code.node n)
    (hplaces : ∀ home w, code.work home w → w.LocatedIn walk.Places := by
      exact fun _ w _ => w.locatedIn_of_forall fun _ => trivial) :
    walk.Holds home fun _ => block (Eval.execute fuel) scope body :=
  walk.toWalk.block fun inner n hn => walk.execute fuel inner.frame (.node inner n) ⟨rfl, hbody n hn⟩ hplaces

theorem statements (fuel : Nat) (scope : Scope) {body : List Node} (hbody : ∀ n ∈ body, code.node n) (last : Value)
    (hplaces : ∀ home w, code.work home w → w.LocatedIn walk.Places := by
      exact fun _ w _ => w.locatedIn_of_forall fun _ => trivial) :
    walk.Holds scope.frame fun _ => statements (Eval.execute fuel) scope last body :=
  walk.toWalk.statements (fun n hn => walk.execute fuel scope.frame (.node scope n) ⟨rfl, hbody n hn⟩ hplaces) last

end StepWalk

end Eval

end LineScript
