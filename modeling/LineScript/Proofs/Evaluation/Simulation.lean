import Mathlib.Data.List.Forall2
import LineScript.Proofs.Evaluation.Evolution
/-!
# Evaluations that go alike

Two evaluations of the same code go alike if their values, scopes and machines do: whatever one of them does, the other
does too, and they end in like results or in the same interruption. That is shown once, for all ways of being alike in
which variables, functions and operations are. One evaluation is then compared with another on a larger machine, or with
one that looks at every value on the way.
-/

namespace LineScript

/-- The code that two evaluations share, and how the one resembles the other. -/
structure Likeness where
  node : Node → Prop
  value : Value → Value → Prop
  scope : Scope → Scope → Prop
  machine : Machine → Machine → Prop

namespace Likeness

variable (like : Likeness) {α β α' β' : Type}

/-- Results that are related on machines that are alike, or the same interruption. -/
inductive Results (related : α → β → Prop) :
    EStateM.Result Interrupt Machine α → EStateM.Result Interrupt Machine β → Prop
  | ok {a : α} {b : β} {m m' : Machine} (hrelated : related a b) (hm : like.machine m m') :
      Results related (.ok a m) (.ok b m')
  | error (e : Interrupt) {m m' : Machine} (hm : like.machine m m') : Results related (.error e m) (.error e m')

/-- On machines that are alike, the actions have such results. -/
def Actions (related : α → β → Prop) (action : Eval α) (action' : Eval β) : Prop :=
  ∀ m m', like.machine m m' → like.Results related (action m) (action' m')

def Bindings (bindings bindings' : Bindings) : Prop :=
  List.Forall₂ (fun x y => x.1 = y.1 ∧ like.value x.2 y.2) bindings bindings'

/-- The same function of a script in two scopes, or the function that a handle of no function means. -/
inductive Functions : Function → Function → Prop
  | script {name : String} {params : List String} {body : List Node} {scope scope' : Scope}
      (hbody : ∀ n ∈ body, like.node n) (hscope : like.scope scope scope') :
      Functions ⟨name, params, .script body scope⟩ ⟨name, params, .script body scope'⟩
  | idle (name : String) : Functions ⟨name, [], .native .idle⟩ ⟨name, [], .native .idle⟩

inductive Works : Work → Work → Prop
  | node {scope scope' : Scope} {n : Node} (hscope : like.scope scope scope') (hn : like.node n) :
      Works (.node scope n) (.node scope' n)
  | call {f f' : Value} {args args' : List Value} (hf : like.value f f') (hargs : List.Forall₂ like.value args args') :
      Works (.call f args) (.call f' args')

/-- Everything that code can do with values that are alike keeps them and the machines alike. -/
structure Lawful : Prop where
  child : ∀ {n c : Node}, like.node n → c ∈ n.children → like.node c
  none : like.value .none .none
  bool : ∀ b, like.value (.bool b) (.bool b)
  literal : ∀ {p : Position} {value : Literal}, like.node (.literal p value) → like.value value.value value.value
  tag_eq : ∀ {x y : Value}, like.value x y → x.tag = y.tag
  eq_bool : ∀ {b : Bool} {y : Value}, like.value (.bool b) y → y = .bool b
  array : ∀ {id : ArrayId} {y : Value}, like.value (.array id) y → ∃ id', y = .array id' ∧
    ∀ m m', like.machine m m' → ∀ place : Nat,
      Option.Rel like.value (m.heap.items id)[place]? (m'.heap.items id')[place]?
  function : ∀ {id : FunctionId} {y : Value}, like.value (.function id) y → ∃ id', y = .function id' ∧
    ∀ m m', like.machine m m' → like.Functions (m.heap.function id) (m'.heap.function id')
  calls : ∀ {m m' : Machine}, like.machine m m' → m.depth = m'.depth ∧ m.limit = m'.limit ∧
    ∀ depth, like.machine { m with depth } { m' with depth }
  bound : ∀ {scope scope' : Scope} {m m' : Machine} (name : String), like.scope scope scope' → like.machine m m' →
    Option.Rel like.value (m.scopes.get? scope name) (m'.scopes.get? scope' name)
  writeVariable : ∀ {scope scope' : Scope} (name : String) {v v' : Value}, like.scope scope scope' → like.value v v' →
    like.Actions Eq (Eval.writeVariable scope name v) (Eval.writeVariable scope' name v')
  newChild : ∀ {scope scope' : Scope} {bindings bindings' : LineScript.Bindings}, like.scope scope scope' →
    like.Bindings bindings bindings' →
    like.Actions like.scope (Eval.newChild scope bindings) (Eval.newChild scope' bindings')
  capture : ∀ {scope scope' : Scope}, like.scope scope scope' →
    like.Actions Eq (Eval.onScopes fun s => ((), s.capture scope)) (Eval.onScopes fun s => ((), s.capture scope'))
  newFunction : ∀ {scope scope' : Scope} (name : String) (params : List String) {body : List Node},
    (∀ n ∈ body, like.node n) → like.scope scope scope' →
    like.Actions like.value (Eval.onHeap (modifyGet (·.newFunction ⟨name, params, .script body scope⟩)))
      (Eval.onHeap (modifyGet (·.newFunction ⟨name, params, .script body scope'⟩)))
  binary : ∀ (op : BinaryOp) {x x' y y' : Value}, like.value x x' → like.value y y' →
    like.Actions like.value (Eval.applyBinary op x y) (Eval.applyBinary op x' y')
  unary : ∀ (op : UnaryOp) {x x' : Value}, like.value x x' →
    like.Actions like.value (Eval.applyUnary op x) (Eval.applyUnary op x')
  readMember : ∀ (name : String) {x x' : Value}, like.value x x' →
    like.Actions like.value (Eval.onHeap (Operation.readMember x name)) (Eval.onHeap (Operation.readMember x' name))
  writeMember : ∀ (name : String) {x x' v v' : Value}, like.value x x' → like.value v v' →
    like.Actions Eq (Eval.onHeap (Operation.writeMember x name v)) (Eval.onHeap (Operation.writeMember x' name v'))
  list : ∀ {p : Position} {items : List Node} {vs vs' : List Value}, like.node (.list p items) →
    vs.length = items.length → List.Forall₂ like.value vs vs' →
    like.Actions like.value (Eval.onHeap (Operation.makeArray vs.toArray))
      (Eval.onHeap (Operation.makeArray vs'.toArray))
  range : ∀ {x x' y y' : Value} {z z' : Option Value}, like.value x x' → like.value y y' →
    Option.Rel like.value z z' →
    like.Actions like.value (Eval.onHeap (Operation.range x y z)) (Eval.onHeap (Operation.range x' y' z'))
  readItem : ∀ {x x' i i' : Value}, like.value x x' → like.value i i' →
    like.Actions like.value (Eval.onHeap (Operation.readItem x i)) (Eval.onHeap (Operation.readItem x' i'))
  writeItem : ∀ {x x' i i' v v' : Value}, like.value x x' → like.value i i' → like.value v v' →
    like.Actions Eq (Eval.onHeap (Operation.writeItem x i v)) (Eval.onHeap (Operation.writeItem x' i' v'))

variable {like} {related : α → β → Prop}

/-! ### Putting actions together -/

namespace Actions

theorem pure {a : α} {b : β} (hrelated : related a b) : like.Actions related (Pure.pure a) (Pure.pure b) :=
  fun _ _ hm => .ok hrelated hm

theorem throw (e : Interrupt) :
    like.Actions related (MonadExcept.throw e : Eval α) (MonadExcept.throw e : Eval β) :=
  fun _ _ hm => .error e hm

theorem raise {cause cause' : RuntimeCause} (hcause : cause = cause') :
    like.Actions related (raise cause : Eval α) (LineScript.raise cause' : Eval β) := by
  subst hcause
  exact throw _

theorem mono {related' : α → β → Prop} {action : Eval α} {action' : Eval β}
    (haction : like.Actions related action action') (hrelated : ∀ a b, related a b → related' a b) :
    like.Actions related' action action' := by
  intro m m' hm
  have hresults := haction m m' hm
  generalize action m = result, action' m' = result' at hresults
  cases hresults with
  | ok h hm₁ => exact .ok (hrelated _ _ h) hm₁
  | error e hm₁ => exact .error e hm₁

theorem bind {related' : α' → β' → Prop} {action : Eval α} {action' : Eval β} {next : α → Eval α'} {next' : β → Eval β'}
    (haction : like.Actions related action action')
    (hnext : ∀ a b, related a b → like.Actions related' (next a) (next' b)) :
    like.Actions related' (action >>= next) (action' >>= next') := by
  intro m m' hm
  have hresults := haction m m' hm
  generalize hrun : action m = result at hresults
  generalize hrun' : action' m' = result' at hresults
  cases hresults with
  | ok hrelated hm₁ =>
      rw [Action.bind_of_ok hrun, Action.bind_of_ok hrun']
      exact hnext _ _ hrelated _ _ hm₁
  | error e hm₁ =>
      rw [Action.bind_of_error hrun, Action.bind_of_error hrun']
      exact .error e hm₁

theorem located (p : Position) {action : Eval α} {action' : Eval β} (haction : like.Actions related action action') :
    like.Actions related (Eval.located p action) (Eval.located p action') := by
  intro m m' hm
  have hresults := haction m m' hm
  unfold Eval.located
  generalize action m = result, action' m' = result' at hresults
  cases hresults with
  | ok hrelated hm₁ => exact .ok hrelated hm₁
  | error e hm₁ => cases e <;> exact .error _ hm₁

theorem nested (hlawful : like.Lawful) {action : Eval α} {action' : Eval β}
    (haction : like.Actions related action action') :
    like.Actions related (Eval.nested action) (Eval.nested action') := by
  rintro ⟨heap, scopes, console, updates, depth, limit⟩ ⟨heap', scopes', console', updates', depth', limit'⟩ hm
  obtain ⟨rfl, rfl, hcalls⟩ := hlawful.calls hm
  unfold Eval.nested
  dsimp only at hcalls ⊢
  -- Both are in the same number of calls under the same limit, so the call is refused on both sides or on none.
  split
  · exact raise rfl _ _ hm
  · have hresults := haction _ _ (hcalls (depth + 1))
    generalize action ⟨heap, scopes, console, updates, depth + 1, limit⟩ = result,
      action' ⟨heap', scopes', console', updates', depth + 1, limit⟩ = result' at hresults
    cases hresults with
    | ok hrelated hm₁ =>
        obtain ⟨hdepth₁, -, hcalls₁⟩ := hlawful.calls hm₁
        dsimp only
        rw [← hdepth₁]
        exact .ok hrelated (hcalls₁ _)
    | error e hm₁ =>
        obtain ⟨hdepth₁, -, hcalls₁⟩ := hlawful.calls hm₁
        dsimp only
        rw [← hdepth₁]
        exact .error e (hcalls₁ _)

section

variable {run run' : Work → Eval Value} {scope scope' : Scope}
  (hrun : ∀ {w w'}, like.Works w w' → like.Actions like.value (run w) (run' w')) (hscope : like.scope scope scope')
include hrun hscope

theorem statements {body : List Node} (hbody : ∀ n ∈ body, like.node n) {last last' : Value}
    (hlast : like.value last last') :
    like.Actions like.value (Eval.statements run scope last body) (Eval.statements run' scope' last' body) := by
  induction body generalizing last last' with
  | nil => exact .pure hlast
  | cons n rest ih =>
      rw [List.forall_mem_cons] at hbody
      exact .bind (hrun (.node hscope hbody.1)) fun _ _ hv => ih hbody.2 hv

theorem values {nodes : List Node} (hnodes : ∀ n ∈ nodes, like.node n) :
    like.Actions (fun vs vs' => vs.length = nodes.length ∧ List.Forall₂ like.value vs vs')
      (Eval.values run scope nodes) (Eval.values run' scope' nodes) := by
  induction nodes with
  | nil => exact .pure ⟨rfl, .nil⟩
  | cons n rest ih =>
      rw [List.forall_mem_cons] at hnodes
      exact .bind (hrun (.node hscope hnodes.1)) fun v v' hv => .bind (ih hnodes.2) fun vs vs' hvs =>
        .pure ⟨congrArg (· + 1) hvs.1, .cons hv hvs.2⟩

theorem optional {n : Option Node} (hn : ∀ c ∈ n.toList, like.node c) :
    like.Actions (Option.Rel like.value) (Eval.optional run scope n) (Eval.optional run' scope' n) := by
  cases n with
  | none => exact .pure .none
  | some n => exact .bind (hrun (.node hscope (hn n (by simp)))) fun _ _ hv => .pure (.some hv)

end

end Actions

/-! ### Bindings -/

theorem Bindings.insert {bindings bindings' : LineScript.Bindings} (hbindings : like.Bindings bindings bindings')
    (name : String) {v v' : Value} (hv : like.value v v') :
    like.Bindings (.insert name v bindings) (.insert name v' bindings') := by
  induction hbindings with
  | nil => exact .cons ⟨rfl, hv⟩ .nil
  | @cons x y _ _ hhead htail ih =>
      obtain ⟨bound, old⟩ := x
      obtain ⟨bound', old'⟩ := y
      obtain ⟨rfl, hold⟩ := hhead
      unfold LineScript.Bindings.insert
      split
      · exact .cons ⟨rfl, hv⟩ htail
      · exact .cons ⟨rfl, hold⟩ ih

theorem Bindings.ofPairs {pairs pairs' : LineScript.Bindings} (hpairs : like.Bindings pairs pairs') :
    like.Bindings (.ofPairs pairs) (.ofPairs pairs') := by
  have hfold {bindings bindings' : LineScript.Bindings} (hbindings : like.Bindings bindings bindings') :
      like.Bindings (pairs.foldl (fun bindings pair => .insert pair.1 pair.2 bindings) bindings)
        (pairs'.foldl (fun bindings pair => .insert pair.1 pair.2 bindings) bindings') := by
    induction hpairs generalizing bindings bindings' with
    | nil => exact hbindings
    | @cons x y _ _ hhead _ ih =>
        obtain ⟨name, v⟩ := x
        obtain ⟨name', v'⟩ := y
        obtain ⟨rfl, hv⟩ := hhead
        exact ih (hbindings.insert name hv)
  exact hfold .nil

theorem Bindings.zip (names : List String) {vs vs' : List Value} (hvs : List.Forall₂ like.value vs vs') :
    like.Bindings (names.zip vs) (names.zip vs') := by
  induction hvs generalizing names with
  | nil => cases names <;> exact .nil
  | cons hhead _ ih =>
      cases names with
      | nil => exact .nil
      | cons name names => exact .cons ⟨rfl, hhead⟩ (ih names)

/-! ### One step -/

namespace Lawful

variable (hlawful : like.Lawful) {run run' : Work → Eval Value} {scope scope' : Scope}
include hlawful

theorem readVariable (name : String) (hscope : like.scope scope scope') :
    like.Actions like.value (Eval.readVariable scope name) (Eval.readVariable scope' name) := by
  intro m m' hm
  have hbound := hlawful.bound name hscope hm
  unfold Eval.readVariable
  generalize m.scopes.get? scope name = found, m'.scopes.get? scope' name = found' at hbound ⊢
  cases hbound with
  | none => exact .error _ hm
  | some hv => exact .ok hv hm

theorem makeFunction (name : Option String) (params : List String) {body : List Node} (hbody : ∀ n ∈ body, like.node n)
    (hscope : like.scope scope scope') :
    like.Actions like.value (Eval.makeFunction scope name params body) (Eval.makeFunction scope' name params body) := by
  refine .bind (hlawful.capture hscope) fun _ _ _ => .bind (hlawful.newFunction _ params hbody hscope) fun f f' hf => ?_
  cases name with
  | none => exact .pure hf
  | some name => exact .bind (hlawful.writeVariable name hscope hf) fun _ _ _ => .pure hf

theorem condition {x y : Value} (hvalue : like.value x y) :
    like.Actions Eq (Eval.condition x) (Eval.condition y) := by
  have htag := hlawful.tag_eq hvalue
  cases x with
  | bool b =>
      obtain rfl := hlawful.eq_bool hvalue
      exact .pure rfl
  | _ =>
      cases y <;> cases htag
      exact .raise rfl

theorem logicalOperand (op : LogicalOp) {x y : Value} (hvalue : like.value x y) :
    like.Actions Eq (Eval.logicalOperand op x) (Eval.logicalOperand op y) := by
  have htag := hlawful.tag_eq hvalue
  cases x with
  | bool b =>
      obtain rfl := hlawful.eq_bool hvalue
      exact .pure rfl
  | _ =>
      cases y <;> cases htag
      exact .raise rfl

variable (hrun : ∀ {w w'}, like.Works w w' → like.Actions like.value (run w) (run' w'))
include hrun

theorem block (hscope : like.scope scope scope') {body : List Node} (hbody : ∀ n ∈ body, like.node n) :
    like.Actions like.value (Eval.block run scope body) (Eval.block run' scope' body) :=
  .bind (hlawful.newChild hscope .nil) fun _ _ hinner => .statements hrun hinner hbody hlawful.none

omit hrun in
theorem whileHolds {test test' : Eval Bool} {body body' : Eval Value} (htest : like.Actions Eq test test')
    (hbody : like.Actions like.value body body') (fuel : Nat) :
    like.Actions like.value (Eval.whileHolds test body fuel) (Eval.whileHolds test' body' fuel) := by
  induction fuel with
  | zero => exact .throw _
  | succ fuel ih =>
      refine .bind htest fun holds holds' heq => ?_
      subst heq
      cases holds with
      | true => exact .bind hbody fun _ _ _ => ih
      | false => exact .pure hlawful.none

omit hrun in
theorem forItems {id id' : ArrayId} {body body' : Value → Eval Value}
    (hitems : ∀ m m', like.machine m m' → ∀ place : Nat,
      Option.Rel like.value (m.heap.items id)[place]? (m'.heap.items id')[place]?)
    (hbody : ∀ v v', like.value v v' → like.Actions like.value (body v) (body' v')) (fuel place : Nat) :
    like.Actions like.value (Eval.forItems id body fuel place) (Eval.forItems id' body' fuel place) := by
  induction fuel generalizing place with
  | zero => exact .throw _
  | succ fuel ih =>
      intro m m' hm
      rw [Eval.forItems_succ, Eval.forItems_succ]
      dsimp only
      have hitem := hitems m m' hm place
      generalize (m.heap.items id)[place]? = item, (m'.heap.items id')[place]? = item' at hitem ⊢
      cases hitem with
      | none => exact .ok hlawful.none hm
      | some hv => exact Actions.bind (hbody _ _ hv) (fun _ _ _ => ih (place + 1)) m m' hm

/-- The cases are those of the evaluation, each put together in the same way from the nodes inside. -/
theorem nodes (hscope : like.scope scope scope') (fuel : Nat) {n : Node} (hn : like.node n) :
    like.Actions like.value (Eval.node fuel run scope n) (Eval.node fuel run' scope' n) := by
  have hchild {c : Node} (hc : c ∈ n.children) {inner inner' : Scope} (hinner : like.scope inner inner') :
      like.Actions like.value (run (.node inner c)) (run' (.node inner' c)) :=
    hrun (.node hinner (hlawful.child hn hc))
  cases n with
  | literal p value => exact .pure (hlawful.literal hn)
  | var p name => exact .located p (hlawful.readVariable name hscope)
  | assign p name value =>
      exact .located p (.bind (hchild (by simp [Node.children]) hscope) fun v v' hv =>
        .bind (hlawful.writeVariable name hscope hv) fun _ _ _ => .pure hv)
  | binary p op left right =>
      exact .located p (.bind (hchild (by simp [Node.children]) hscope) fun x x' hx =>
        .bind (hchild (by simp [Node.children]) hscope) fun y y' hy => hlawful.binary op hx hy)
  | unary p op operand =>
      exact .located p (.bind (hchild (by simp [Node.children]) hscope) fun x x' hx => hlawful.unary op hx)
  | logical p op left right =>
      refine .located p (.bind (hchild (by simp [Node.children]) hscope) fun x x' hx =>
        .bind (hlawful.logicalOperand op hx) fun b b' heq => ?_)
      subst heq
      by_cases hsettled : b = Eval.settles op
      · rw [if_pos hsettled, if_pos hsettled]
        exact .pure (hlawful.bool b)
      · rw [if_neg hsettled, if_neg hsettled]
        refine .bind (hchild (by simp [Node.children]) hscope) fun y y' hy =>
          .bind (hlawful.logicalOperand op hy) fun b b' heq => ?_
        subst heq
        exact .pure (hlawful.bool b)
  | member p receiver name =>
      exact .located p (.bind (hchild (by simp [Node.children]) hscope) fun x x' hx => hlawful.readMember name hx)
  | assignMember p receiver name value =>
      exact .located p (.bind (hchild (by simp [Node.children]) hscope) fun x x' hx =>
        .bind (hchild (by simp [Node.children]) hscope) fun v v' hv =>
        .bind (hlawful.writeMember name hx hv) fun _ _ _ => .pure hv)
  | call p callee args =>
      exact .located p (.bind (hchild (by simp [Node.children]) hscope) fun f f' hf =>
        .bind (.values hrun hscope fun c hc => hlawful.child hn (by simp [Node.children, hc])) fun vs vs' hvs =>
        hrun (.call hf hvs.2))
  | list p items =>
      exact .located p (.bind (.values hrun hscope fun c hc => hlawful.child hn hc) fun vs vs' hvs =>
        hlawful.list hn hvs.1 hvs.2)
  | range p first last step =>
      exact .located p (.bind (hchild (by simp [Node.children]) hscope) fun x x' hx =>
        .bind (hchild (by simp [Node.children]) hscope) fun y y' hy =>
        .bind (.optional hrun hscope fun c hc => hlawful.child hn (by simp_all [Node.children])) fun z z' hz =>
        hlawful.range hx hy hz)
  | item p array index =>
      exact .located p (.bind (hchild (by simp [Node.children]) hscope) fun x x' hx =>
        .bind (hchild (by simp [Node.children]) hscope) fun i i' hi => hlawful.readItem hx hi)
  | assignItem p array index value =>
      exact .located p (.bind (hchild (by simp [Node.children]) hscope) fun x x' hx =>
        .bind (hchild (by simp [Node.children]) hscope) fun i i' hi =>
        .bind (hchild (by simp [Node.children]) hscope) fun v v' hv =>
        .bind (hlawful.writeItem hx hi hv) fun _ _ _ => .pure hv)
  | branch p test body otherwise =>
      refine .located p (.bind (hchild (by simp [Node.children]) hscope) fun x x' hx =>
        .bind (hlawful.condition hx) fun holds holds' heq => ?_)
      subst heq
      cases holds with
      | true => exact hlawful.block hrun hscope fun c hc => hlawful.child hn (by simp [Node.children, hc])
      | false =>
          cases otherwise with
          | none => exact .pure hlawful.none
          | some other => exact hchild (by simp [Node.children]) hscope
  | loop p test body =>
      exact .located p (hlawful.whileHolds
        (.bind (hchild (by simp [Node.children]) hscope) fun x x' hx => hlawful.condition hx)
        (hlawful.block hrun hscope fun c hc => hlawful.child hn (by simp [Node.children, hc])) fuel)
  | forEach p name items body =>
      refine .located p (.bind (hchild (by simp [Node.children]) hscope) fun x x' hx => ?_)
      have htag := hlawful.tag_eq hx
      cases x with
      | array id =>
          obtain ⟨id', rfl, hitems⟩ := hlawful.array hx
          refine hlawful.forItems hitems (fun v v' hv => ?_) fuel 0
          exact .bind (hlawful.writeVariable name hscope hv) fun _ _ _ =>
            hlawful.block hrun hscope fun c hc => hlawful.child hn (by simp [Node.children, hc])
      | _ =>
          cases x' <;> cases htag
          exact .raise rfl
  | block p body => exact hlawful.block hrun hscope fun c hc => hlawful.child hn hc
  | function p name params body =>
      exact .located p (hlawful.makeFunction name params (fun c hc => hlawful.child hn hc) hscope)

theorem invoke {f f' : Function} (hf : like.Functions f f') {args args' : List Value}
    (hargs : List.Forall₂ like.value args args') :
    like.Actions like.value (Eval.invoke run f args) (Eval.invoke run' f' args') := by
  cases hf with
  | script hbody hscope =>
      exact .bind (hlawful.newChild hscope (.ofPairs (.zip _ hargs))) fun _ _ hinner =>
        .statements hrun hinner hbody hlawful.none
  | idle name => exact .pure hlawful.none

theorem call {f f' : Value} (hf : like.value f f') {args args' : List Value}
    (hargs : List.Forall₂ like.value args args') :
    like.Actions like.value (Eval.call run f args) (Eval.call run' f' args') := by
  have htag := hlawful.tag_eq hf
  cases f with
  | function id =>
      obtain ⟨id', rfl, hfunctions⟩ := hlawful.function hf
      intro m m' hm
      have hfunction := hfunctions m m' hm
      show like.Results like.value
        ((if args.length = (m.heap.function id).params.length then
          Eval.nested (Eval.invoke run (m.heap.function id) args) else LineScript.raise _ : Eval Value) m)
        ((if args'.length = (m'.heap.function id').params.length then
          Eval.nested (Eval.invoke run' (m'.heap.function id') args') else LineScript.raise _ : Eval Value) m')
      generalize m.heap.function id = g, m'.heap.function id' = g' at hfunction ⊢
      have hparams : g.name = g'.name ∧ g.params = g'.params := by
        cases hfunction <;> constructor <;> rfl
      rw [← hparams.1, ← hparams.2, ← hargs.length_eq]
      split
      · exact Actions.nested hlawful (hlawful.invoke hrun hfunction hargs) m m' hm
      · exact Actions.raise rfl m m' hm
  | _ =>
      cases f' <;> cases htag
      exact .raise rfl

theorem step (fuel : Nat) {w w' : Work} (hw : like.Works w w') :
    like.Actions like.value (Eval.step fuel run w) (Eval.step fuel run' w') := by
  cases hw with
  | node hscope hn => exact hlawful.nodes hrun hscope fuel hn
  | call hf hargs => exact hlawful.call hrun hf hargs

omit hrun in
theorem execute (fuel : Nat) {w w' : Work} (hw : like.Works w w') :
    like.Actions like.value (Eval.execute fuel w) (Eval.execute fuel w') := by
  induction fuel generalizing w w' with
  | zero => exact .throw _
  | succ fuel ih => exact hlawful.step ih fuel hw

end Lawful

end Likeness

end LineScript
