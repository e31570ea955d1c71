import LineScript.Proofs.Evaluation.Evolution
import LineScript.Proofs.Heap.Position
import LineScript.Proofs.Program.Layout
import LineScript.Session
/-!
# Positions and evaluations

The positions of a program say where its failures are located, and nothing else. If those of the code are moved, in the
nodes to be evaluated and in the functions on the heap alike, an evaluation does what it did before: it ends in the same
value or for the same reason, and leaves the same machine, up to the positions, which are the moved ones. That needs a
host whose code does not look at the positions of the failures that it is told.
-/

namespace LineScript

section

variable (f : Position → Position)

def Machine.mapPosition (m : Machine) : Machine :=
  { m with heap := m.heap.mapPosition f, toHostState := m.toHostState.mapPosition f }

def Work.mapPosition : Work → Work
  | node scope n => node scope (n.mapPosition f)
  | call g args => call g args

def Program.mapPosition (p : Program) : Program :=
  ⟨p.source, Node.mapPositions f p.body⟩

end

variable {f : Position → Position}

namespace Eval

/-- The second evaluation does with positions moved, in the machine as well, what the first one does without. It is on
machines whose functions of the host do not look at positions, and leaves such a machine. -/
abbrev Carries {α : Type} (f : Position → Position) (action action' : Eval α) : Prop :=
  Relocates f (fun m : Machine => m.heap.Blind f) (Machine.mapPosition f) action action'

end Eval

namespace Relocates

variable {α : Type} {action action' : Eval α}

theorem onHeap {action action' : Action Heap α} (h : Relocates f (Heap.Blind f) (Heap.mapPosition f) action action') :
    Eval.Carries f (Eval.onHeap action) (Eval.onHeap action') := by
  intro m hm
  obtain ⟨hend, hkept⟩ := h m.heap hm
  rw [Eval.onHeap_eq, Eval.onHeap_eq, show (m.mapPosition f).heap = m.heap.mapPosition f from rfl, hend]
  cases hrun : action m.heap with
  | ok a h | error e h =>
      rw [hrun] at hkept
      exact ⟨rfl, hkept⟩

theorem blind {action : Action Heap α} (h : Blind f action) :
    Eval.Carries f (Eval.onHeap action) (Eval.onHeap action) :=
  onHeap h

theorem onScopes (step : Scopes → α × Scopes) : Eval.Carries f (Eval.onScopes step) (Eval.onScopes step) :=
  fun _ hm => ⟨rfl, hm⟩

theorem readVariable (scope : Scope) (name : String) :
    Eval.Carries f (Eval.readVariable scope name) (Eval.readVariable scope name) := by
  intro m hm
  have hread : Eval.Carries f (LineScript.orRaise (.undefinedVariable name) (m.scopes.get? scope name)) _ :=
    orRaise _ _
  exact hread m hm

/-- A failure gets the position that the node has been moved to. -/
theorem located (p : Position) (h : Eval.Carries f action action') :
    Eval.Carries f (Eval.located p action) (Eval.located (f p) action') := by
  intro m hm
  obtain ⟨hend, hkept⟩ := h m hm
  unfold Eval.located
  rw [hend]
  cases hrun : action m with
  | ok a m₁ =>
      rw [hrun] at hkept
      exact ⟨rfl, hkept⟩
  | error e m₁ =>
      rw [hrun] at hkept
      cases e with
      | failure e =>
          refine ⟨?_, hkept⟩
          simp only [mapEnd, Interrupt.mapPosition, Failure.mapPosition_orPosition]
      | fault | outOfFuel => exact ⟨rfl, hkept⟩

theorem nested (h : Eval.Carries f action action') : Eval.Carries f (Eval.nested action) (Eval.nested action') := by
  intro m hm
  obtain ⟨hend, hkept⟩ := h { m with depth := m.depth + 1 } hm
  simp only [Machine.mapPosition] at hend
  simp only [Eval.nested, Machine.mapPosition, hend]
  split
  · exact ⟨rfl, hm⟩
  · cases hrun : action { m with depth := m.depth + 1 } with
    | ok a m₁ | error e m₁ =>
        rw [hrun] at hkept
        exact ⟨rfl, hkept⟩

theorem newFunction {g : Function} (hg : g.Blind f) :
    Eval.Carries f (Eval.onHeap (modifyGet (·.newFunction g)))
      (Eval.onHeap (modifyGet (·.newFunction (g.mapPosition f)))) := by
  refine onHeap fun h hh => ⟨?_, Heap.blind_newFunction hh hg⟩
  exact congrArg (fun made => EStateM.Result.ok made.1 made.2) (h.newFunction_mapPosition g)

theorem makeFunction (scope : Scope) (name : Option String) (params : List String) (body : List Node) :
    Eval.Carries f (Eval.makeFunction scope name params body)
      (Eval.makeFunction scope name params (Node.mapPositions f body)) := by
  have hnew : Eval.Carries f (Eval.onHeap (modifyGet (·.newFunction ⟨name.getD "", params, .script body scope⟩)))
      (Eval.onHeap (modifyGet (·.newFunction ⟨name.getD "", params, .script (Node.mapPositions f body) scope⟩))) := by
    exact newFunction (g := ⟨name.getD "", params, .script body scope⟩) trivial
  refine .bind (onScopes _) fun _ => .bind hnew fun g => ?_
  cases name with
  | none => exact .pure g
  | some name => exact .bind (onScopes _) fun _ => .pure g

theorem condition (v : Value) : Eval.Carries f (Eval.condition v) (Eval.condition v) := by
  cases v with
  | bool b => exact .pure b
  | _ => exact .raise _

theorem logicalOperand (op : LogicalOp) (v : Value) :
    Eval.Carries f (Eval.logicalOperand op v) (Eval.logicalOperand op v) := by
  cases v with
  | bool b => exact .pure b
  | _ => exact .raise _

/-! ### Code of the host -/

theorem applied (operation : Primitive) (args : List Value) :
    Eval.Carries f (Eval.applied operation args) (Eval.applied operation args) := by
  intro m hm
  obtain ⟨hend, hkept⟩ := Operation.blind_apply (f := f) operation args m.heap hm
  rw [Eval.applied_eq, Eval.applied_eq, show (m.mapPosition f).heap = m.heap.mapPosition f from rfl, hend]
  cases hrun : Operation.apply operation args m.heap with
  | ok v h =>
      rw [hrun] at hkept
      exact ⟨rfl, hkept⟩
  | error e h =>
      rw [hrun] at hkept
      cases e <;> exact ⟨rfl, hkept⟩

/-- What is replied has its positions moved, and the code goes on with that. -/
theorem caught {action action' : Eval Value} {next next' : Reply → Eval α} (haction : Eval.Carries f action action')
    (hnext : ∀ reply, Eval.Carries f (next reply) (next' (reply.mapError (·.mapPosition f)))) :
    Eval.Carries f (Eval.attempt action >>= next) (Eval.attempt action' >>= next') := by
  intro m hm
  obtain ⟨hend, hkept⟩ := haction m hm
  rw [Eval.attempt_bind, Eval.attempt_bind, hend]
  cases hrun : action m with
  | ok v m₁ =>
      rw [hrun] at hkept
      exact hnext (.ok v) m₁ hkept
  | error e m₁ =>
      rw [hrun] at hkept
      cases e with
      | failure e => exact hnext (.error e) m₁ hkept
      | fault | outOfFuel => exact ⟨rfl, hkept⟩

theorem borrowing (cell : Cell) (h : Eval.Carries f action action') :
    Eval.Carries f (Eval.borrowing cell action) (Eval.borrowing cell action') := by
  intro m hm
  obtain ⟨hend, hkept⟩ := h { m with borrowed := cell :: m.borrowed } hm
  simp only [Machine.mapPosition] at hend
  simp only [Eval.borrowing, Machine.mapPosition, hend]
  split
  · exact ⟨rfl, hm⟩
  · cases hrun : action { m with borrowed := cell :: m.borrowed } with
    | ok a m₁ | error e m₁ =>
        rw [hrun] at hkept
        exact ⟨rfl, hkept⟩

/-- Code that does not look at positions does the same when it calls functions that do. -/
theorem host {run run' : Work → Eval Value}
    (hcall : ∀ g args, Eval.Carries f (run (.call g args)) (run' (.call g args)))
    {c : HostCode} (hc : c.Blind f) : Eval.Carries f (Eval.host run c) (Eval.host run' (c.mapPosition f)) := by
  induction c with
  | returns v => exact .pure v
  | raises e => exact .throw (.failure e)
  | panics e => exact .throw (.fault (.ofHost e))
  | diverges => exact .throw .outOfFuel
  | applies operation args next ih =>
      refine .caught (applied operation args) fun reply => ?_
      dsimp only
      rw [(hc reply).2]
      exact ih reply (hc reply).1
  | calls g args next ih =>
      refine .caught (hcall g args) fun reply => ?_
      dsimp only
      rw [(hc reply).2]
      exact ih reply (hc reply).1
  | makesFunction name params body next _ ih =>
      exact .bind (newFunction (g := ⟨name, params, .native (.host body)⟩) hc.1) fun v => ih v (hc.2 v)
  | makesObject name members next ih =>
      exact .bind (.bind (.onHeap fun h hh => ⟨rfl, hh⟩) fun id => .pure _) fun v => ih v (hc v)
  | exchanges step next ih =>
      intro m hm
      obtain ⟨hnext, hhost, hreply⟩ := hc m.toHostState
      have hrest := ih (step m.toHostState).1 hnext { m with toHostState := (step m.toHostState).2 } hm
      rw [← hreply] at hrest
      simp only [Machine.mapPosition, ← hhost] at hrest
      exact hrest

/-! ### Statements and loops -/

section

variable {run run' : Work → Eval Value} (hrun : ∀ w, Eval.Carries f (run w) (run' (w.mapPosition f)))
include hrun

theorem node (scope : Scope) (n : Node) : Eval.Carries f (run (.node scope n)) (run' (.node scope (n.mapPosition f))) :=
  hrun (.node scope n)

theorem statements (scope : Scope) (last : Value) (body : List Node) :
    Eval.Carries f (Eval.statements run scope last body)
      (Eval.statements run' scope last (Node.mapPositions f body)) := by
  induction body generalizing last with
  | nil => exact .pure last
  | cons n rest ih => exact .bind (hrun (.node scope n)) fun v => ih v

theorem block (scope : Scope) (body : List Node) :
    Eval.Carries f (Eval.block run scope body) (Eval.block run' scope (Node.mapPositions f body)) :=
  .bind (onScopes _) fun inner => statements hrun inner .none body

theorem values (scope : Scope) (nodes : List Node) :
    Eval.Carries f (Eval.values run scope nodes) (Eval.values run' scope (Node.mapPositions f nodes)) := by
  induction nodes with
  | nil => exact .pure []
  | cons n rest ih => exact .bind (hrun (.node scope n)) fun _ => .bind ih fun _ => .pure _

theorem optional (scope : Scope) (n : Option Node) :
    Eval.Carries f (Eval.optional run scope n) (Eval.optional run' scope (Node.mapPosition? f n)) := by
  cases n with
  | none => exact .pure none
  | some n => exact .bind (hrun (.node scope n)) fun _ => .pure _

end

theorem whileHolds {test test' : Eval Bool} {body body' : Eval Value} (htest : Eval.Carries f test test')
    (hbody : Eval.Carries f body body') (fuel : Nat) :
    Eval.Carries f (Eval.whileHolds test body fuel) (Eval.whileHolds test' body' fuel) := by
  induction fuel with
  | zero => exact .throw .outOfFuel
  | succ fuel ih =>
      refine .bind htest fun holds => ?_
      cases holds with
      | true => exact .bind hbody fun _ => ih
      | false => exact .pure _

theorem forItems (id : ArrayId) {body body' : Value → Eval Value} (hbody : ∀ v, Eval.Carries f (body v) (body' v))
    (fuel place : Nat) : Eval.Carries f (Eval.forItems id body fuel place) (Eval.forItems id body' fuel place) := by
  induction fuel generalizing place with
  | zero => exact .throw .outOfFuel
  | succ fuel ih =>
      intro m hm
      rw [Eval.forItems_succ, Eval.forItems_succ]
      have hround : Eval.Carries f
          ((m.heap.items id)[place]?.elim (Pure.pure .none) fun v => do
            let _ ← body v
            Eval.forItems id body fuel (place + 1))
          ((m.heap.items id)[place]?.elim (Pure.pure .none) fun v => do
            let _ ← body' v
            Eval.forItems id body' fuel (place + 1)) := by
        cases (m.heap.items id)[place]? with
        | none => exact .pure _
        | some v => exact .bind (hbody v) fun _ => ih (place + 1)
      exact hround m hm

end Relocates

namespace Eval

/-! ### Steps and runs -/

section

variable {run run' : Work → Eval Value} (hrun : ∀ w, Carries f (run w) (run' (w.mapPosition f)))
include hrun

/-- The cases are those of the evaluation. In each, the nodes inside are evaluated in turn, and what is done with their
values does not depend on positions. -/
theorem carries_node (fuel : Nat) (scope : Scope) (n : Node) :
    Carries f (node fuel run scope n) (node fuel run' scope (n.mapPosition f)) := by
  have hnode (scope : Scope) (n : Node) := hrun (.node scope n)
  cases n with
  | literal p value => exact .pure _
  | var p name => exact .located p (.readVariable scope name)
  | assign p name value =>
      exact .located p (.bind (hnode scope value) fun v => .bind (.onScopes _) fun _ => .pure v)
  | binary p op left right =>
      exact .located p (.bind (hnode scope left) fun x => .bind (hnode scope right) fun y =>
        .blind (Operation.blind_binary op x y))
  | unary p op operand =>
      exact .located p (.bind (hnode scope operand) fun x => .blind (Operation.blind_unary op x))
  | logical p op left right =>
      refine .located p (.bind (hnode scope left) fun x => .bind (.logicalOperand op x) fun b => ?_)
      split
      · exact .pure _
      · exact .bind (hnode scope right) fun y => .bind (.logicalOperand op y) fun _ => .pure _
  | member p receiver name =>
      exact .located p (.bind (hnode scope receiver) fun v => .blind (Operation.blind_readMember v name))
  | assignMember p receiver name value =>
      exact .located p (.bind (hnode scope receiver) fun target => .bind (hnode scope value) fun v =>
        .bind (.blind (Operation.blind_writeMember target name v)) fun _ => .pure v)
  | call p callee args =>
      exact .located p (.bind (hnode scope callee) fun g => .bind (.values hrun scope args) fun vs =>
        hrun (.call g vs))
  | list p items =>
      exact .located p (.bind (.values hrun scope items) fun vs => .blind (Operation.blind_makeArray _))
  | range p first last step =>
      exact .located p (.bind (hnode scope first) fun x => .bind (hnode scope last) fun y =>
        .bind (.optional hrun scope step) fun z => .blind (Operation.blind_range x y z))
  | item p array index =>
      exact .located p (.bind (hnode scope array) fun v => .bind (hnode scope index) fun i =>
        .blind (Operation.blind_readItem v i))
  | assignItem p array index value =>
      exact .located p (.bind (hnode scope array) fun target => .bind (hnode scope index) fun i =>
        .bind (hnode scope value) fun v => .bind (.blind (Operation.blind_writeItem target i v)) fun _ => .pure v)
  | branch p test body otherwise =>
      refine .located p (.bind (hnode scope test) fun v => .bind (.condition v) fun holds => ?_)
      cases holds with
      | true => exact .block hrun scope body
      | false =>
          cases otherwise with
          | none => exact .pure _
          | some other => exact hnode scope other
  | loop p test body =>
      exact .located p (.whileHolds (.bind (hnode scope test) fun v => .condition v) (.block hrun scope body) fuel)
  | forEach p name items body =>
      refine .located p (.bind (hnode scope items) fun list => ?_)
      cases list with
      | array id =>
          exact .forItems id (fun v => .bind (.onScopes _) fun _ => .block hrun scope body) fuel 0
      | _ => exact .raise _
  | block p body => exact .block hrun scope body
  | function p name params body => exact .located p (.makeFunction scope name params body)

theorem carries_native {operation : Native} (hoperation : operation.Blind f) (args : List Value) :
    Carries f (native run operation args) (native run' (operation.mapPosition f) args) := by
  have hargument : Blind f (Operation.argument args 0) := Operation.blind_argument
  have hcall (g : Value) (args : List Value) := hrun (.call g args)
  cases operation with
  | writeLine cell write =>
      exact .bind (.blind hargument) fun v => .bind (.borrowing cell (.host hcall (hoperation v))) fun _ => .pure _
  | asks cell answer => exact .borrowing cell (.host hcall hoperation)
  | convertTo target => exact .blind (.bind hargument fun v => Operation.blind_convert v target)
  | host body => exact .host hcall (hoperation args)

theorem carries_invoke {g : Function} (hg : g.Blind f) (args : List Value) :
    Carries f (invoke run g args) (invoke run' (g.mapPosition f) args) := by
  obtain ⟨name, params, body⟩ := g
  cases body with
  | script body scope => exact .bind (.onScopes _) fun inner => .statements hrun inner .none body
  | native operation => exact carries_native hrun hg args

theorem carries_call (g : Value) (args : List Value) : Carries f (call run g args) (call run' g args) := by
  cases g with
  | function id =>
      -- The function is read from the heap, whose positions have been moved as well.
      have hcall {g : Function} (hg : g.Blind f) : Carries f
          (if args.length = g.params.length then nested (invoke run g args)
            else raise (.arity g.name g.params.length args.length))
          (if args.length = (g.mapPosition f).params.length then nested (invoke run' (g.mapPosition f) args)
            else raise (.arity (g.mapPosition f).name (g.mapPosition f).params.length args.length)) := by
        show Carries f _ (if args.length = g.params.length then _ else raise (.arity g.name g.params.length _))
        split
        · exact .nested (carries_invoke hrun hg args)
        · exact .raise _
      intro m hm
      have hend := hcall (Heap.blind_function hm id) m hm
      rw [← Heap.function_mapPosition] at hend
      exact hend
  | _ => exact .raise _

theorem carries_step (fuel : Nat) (w : Work) : Carries f (step fuel run w) (step fuel run' (w.mapPosition f)) := by
  cases w with
  | node scope n => exact carries_node hrun fuel scope n
  | call g args => exact carries_call hrun g args

end

/-- **Positions only locate failures.** An evaluation of code whose positions have been moved ends as that of the code
itself, with the positions moved. -/
theorem carries_execute (f : Position → Position) (fuel : Nat) (w : Work) :
    Carries f (execute fuel w) (execute fuel (w.mapPosition f)) := by
  induction fuel generalizing w with
  | zero => exact .throw .outOfFuel
  | succ fuel ih => exact carries_step ih fuel w

end Eval

namespace Session

theorem blind_finish (arena : ArenaId) (limit : Nat) {result : EStateM.Result Interrupt Machine Value}
    (hblind : result.state.heap.Blind f) : (finish arena limit result).state.heap.Blind f := by
  cases result with
  | ok v m => exact hblind
  | error e m => cases e <;> exact hblind

theorem finish_mapPosition (arena : ArenaId) (limit : Nat) (result : EStateM.Result Interrupt Machine Value) :
    finish arena limit (mapEnd f (Machine.mapPosition f) result) =
      mapEnd f (Machine.mapPosition f) (finish arena limit result) := by
  cases result with
  | ok v m => rfl
  | error e m => cases e <;> rfl

/-- A program whose positions have been moved runs as the program itself. -/
theorem carries_runWith (f : Position → Position) (fuel : Nat) (s : Session) (p : Program) :
    Eval.Carries f (runWith fuel s p) (runWith fuel s (p.mapPosition f)) := by
  intro m hm
  obtain ⟨hbody, hkept⟩ :=
    Relocates.statements (Eval.carries_execute f fuel) (s.start m).root .none p.body (s.start m).machine hm
  refine ⟨?_, blind_finish _ _ hkept⟩
  show finish (s.start m).arena m.limit (Eval.statements (Eval.execute fuel) (s.start m).root .none
    (Node.mapPositions f p.body) ((s.start m).machine.mapPosition f)) = _
  rw [hbody]
  exact finish_mapPosition _ _ _

end Session

/-! ### Alike up to positions -/

/-- To forget positions changes nothing of what the host's functions do. -/
def Machine.Sightless (m : Machine) : Prop :=
  m.heap.Blind fun _ => .nowhere

/-- The machine without its positions. -/
def Machine.unplaced (m : Machine) : Machine :=
  m.mapPosition fun _ => .nowhere

namespace Eval

variable {α : Type}

/-- The end of an evaluation without its positions. -/
def unplacedEnd : EStateM.Result Interrupt Machine α → EStateM.Result Interrupt Machine α :=
  mapEnd (fun _ => .nowhere) Machine.unplaced

/-- On machines that are the same but for positions, and whose functions of the host do not look at them, the
evaluations end in the same value or for the same reason, and leave machines that are the same but for positions. -/
def Alike (action action' : Eval α) : Prop :=
  ∀ m m', m.Sightless → m'.Sightless → m.unplaced = m'.unplaced → unplacedEnd (action m) = unplacedEnd (action' m')

/-- Evaluations are alike if without positions they are the same. -/
theorem alike_of_carries {action action' common : Eval α} (h : Carries (fun _ => .nowhere) action common)
    (h' : Carries (fun _ => .nowhere) action' common) : Alike action action' := by
  intro m m' hsightless hsightless' hm
  calc unplacedEnd (action m)
    _ = common m.unplaced := (h m hsightless).1.symm
    _ = common m'.unplaced := by rw [hm]
    _ = unplacedEnd (action' m') := (h' m' hsightless').1

theorem alike_execute (fuel : Nat) (scope : Scope) {n n' : Node} (h : n.Alike n') :
    Alike (execute fuel (.node scope n)) (execute fuel (.node scope n')) := by
  have hcarries := carries_execute (fun _ => .nowhere) fuel (.node scope n)
  have hsame :
      (Work.node scope n).mapPosition (fun _ => .nowhere) = (Work.node scope n').mapPosition fun _ => .nowhere :=
    congrArg (Work.node scope) h
  rw [hsame] at hcarries
  exact alike_of_carries hcarries (carries_execute _ fuel (.node scope n'))

end Eval

theorem Session.alike_runWith (fuel : Nat) (s : Session) {p p' : Program} (h : p.unplaced = p'.unplaced) :
    Eval.Alike (runWith fuel s p) (runWith fuel s p') := by
  have hunplaced (p : Program) : p.mapPosition (fun _ => .nowhere) = p.unplaced :=
    congrArg (Program.mk p.source) (Node.mapPositions_eq_map _ p.body)
  have hcarries := carries_runWith (fun _ => .nowhere) fuel s p
  rw [hunplaced, h, ← hunplaced] at hcarries
  exact Eval.alike_of_carries hcarries (carries_runWith _ fuel s p')

end LineScript
