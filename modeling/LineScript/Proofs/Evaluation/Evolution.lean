import LineScript.Library
import LineScript.Proofs.Evaluation.Walk
/-!
# What an evaluation does to the machine

An evaluation changes the machine in few ways: by operations on the heap, by writing variables, by making scopes and
functions, by what code of the host does besides, by the cells that it holds, and by calls, which count while they last.
`Evolves` lists them, and every evaluation is a series of them, however it ends. What a program keeps is then shown once
for each.
-/

namespace LineScript

namespace Code

variable (code : Code)

/-- The failures that code ends in by itself, before anything is added to them. -/
inductive Raises : Failure → Prop
  | cause (cause : RuntimeCause) : Raises (.ofCause cause)
  | host {f : Failure} (hraises : code.terms.raises f) : Raises f

/-- The faults that code ends in by itself: those of a host that panics. -/
def Faults (f : Fault) : Prop :=
  code.terms.panics ∧ ∃ g, f = .ofHost g

/-- The machines that an evaluation can reach in a scope whose own frame is `home`. Only blocks and calls work in other
frames, each in one that it makes. -/
inductive Evolves : FrameId → Machine → Machine → Prop
  | refl {home : FrameId} (m : Machine) : Evolves home m m
  | trans {home : FrameId} {m₁ m₂ m₃ : Machine} (hfirst : Evolves home m₁ m₂) (hsecond : Evolves home m₂ m₃) :
      Evolves home m₁ m₃
  | heap {home : FrameId} (m : Machine) {h : Heap} (hheap : m.heap.Evolves code.terms.applies h) :
      Evolves home m { m with heap := h }
  | host {home : FrameId} (m : Machine) {host : HostState} (hhost : code.terms.states host) :
      Evolves home m { m with toHostState := host }
  | assign (m : Machine) (scope : Scope) (name : String) (value : Value) :
      Evolves scope.frame m { m with scopes := m.scopes.assign scope name value }
  | function (m : Machine) (scope : Scope) (name : String) (params : List String) {body : List Node}
      (hbody : ∀ n ∈ body, code.node n) :
      Evolves scope.frame m { m with
        heap := (m.heap.newFunction ⟨name, params, .script body scope⟩).2, scopes := m.scopes.capture scope }
  | hostFunction {home : FrameId} (m : Machine) (name : String) (params : List String) {body : List Value → HostCode}
      (hbody : code.native params.length (.host body)) :
      Evolves home m { m with heap := (m.heap.newFunction ⟨name, params, .native (.host body)⟩).2 }
  | hostObject {home : FrameId} (m : Machine) (object : Object) :
      Evolves home m { m with heap := (m.heap.newObject object).2 }
  | inside {home : FrameId} (m : Machine) (scope : Scope) (bindings : Bindings) {m' : Machine}
      (hinner : Evolves ⟨m.scopes.frames.size⟩ { m with scopes := (m.scopes.newChild scope bindings).2 } m') :
      Evolves home m m'
  | nested {home : FrameId} {m m' : Machine} (hcall : Evolves home { m with depth := m.depth + 1 } m') :
      Evolves home m { m' with depth := m'.depth - 1 }
  | borrowing {home : FrameId} {m m' : Machine} (cell : Cell)
      (hheld : Evolves home { m with borrowed := cell :: m.borrowed } m') :
      Evolves home m { m' with borrowed := m'.borrowed.erase cell }

end Code

/-- The functions of the standard library have the parameters that they take for granted, and run the callbacks of the
host. -/
theorem Library.standardOf_code {code : Code} {c : Callbacks} (hc : c.Honour code.terms)
    (hcode : ∀ count operation, operation.Honours code.terms count → operation.arity ≤ count →
      code.native count operation) {h : Heap} (hheap : code.heap h) :
    ∃ library h', Library.standardOf c h = .ok library h' ∧ code.heap h' := by
  refine ⟨_, _, rfl, ?_⟩
  intro f hf
  simp only [Array.mem_push, or_assoc] at hf
  rcases hf with hf | rfl | rfl | rfl | rfl | rfl | rfl
  · exact hheap f hf
  · exact hcode _ _ hc.writeLine (Nat.le_refl 1)
  · exact hcode _ _ hc.readLine (Nat.le_refl 0)
  · exact hcode _ _ trivial (Nat.le_refl 1)
  · exact hcode _ _ trivial (Nat.le_refl 1)
  · exact hcode _ _ trivial (Nat.le_refl 1)
  · exact hcode _ _ hc.update (Nat.le_refl 0)

/-- The same machine in another number of calls and under another limit of them. -/
def Machine.withCalls (m : Machine) (depth limit : Nat) : Machine :=
  { m with depth, limit }

namespace Code.Evolves

variable {code : Code} {home : FrameId} {m m' : Machine}

theorem machine_code (hevolves : code.Evolves home m m') (hm : code.machine m) : code.machine m' := by
  induction hevolves with
  | trans _ _ hfirst hsecond => exact hsecond (hfirst hm)
  | heap m hheap => exact ⟨fun f hf => hm.1 f (hheap.functions_eq ▸ hf), hm.2⟩
  | host m hhost => exact ⟨hm.1, hhost⟩
  | function m scope name params hbody =>
      refine ⟨fun f hf => ?_, hm.2⟩
      rcases Array.mem_push.1 hf with hf | rfl
      · exact hm.1 f hf
      · exact hbody
  | hostFunction m name params hbody =>
      refine ⟨fun f hf => ?_, hm.2⟩
      rcases Array.mem_push.1 hf with hf | rfl
      · exact hm.1 f hf
      · exact hbody
  | inside _ _ _ _ hinner => exact hinner hm
  | nested _ hcall => exact hcall hm
  | borrowing _ _ hheld => exact hheld hm
  | _ => exact hm

end Code.Evolves

namespace Eval

variable {code : Code} {home : FrameId} {α β : Type}

theorem onHeap_eq (action : Action Heap α) (m : Machine) :
    onHeap action m =
      match action m.heap with
      | .ok a h => .ok a { m with heap := h }
      | .error e h => .error e { m with heap := h } :=
  rfl

theorem onHeap_of_ok {action : Action Heap α} {m : Machine} {a : α} {h : Heap} (hrun : action m.heap = .ok a h) :
    onHeap action m = .ok a { m with heap := h } := by
  rw [onHeap_eq, hrun]

/-- An operation that a host applies takes its arguments for granted. If they are not what it takes, then that is the
host's fault. -/
theorem applied_eq (operation : Primitive) (args : List Value) (m : Machine) :
    applied operation args m =
      match Operation.apply operation args m.heap with
      | .ok v h => .ok v { m with heap := h }
      | .error (.fault f) h => .error (.fault (.ofHost f)) { m with heap := h }
      | .error e h => .error e { m with heap := h } := by
  unfold applied blaming
  rw [onHeap_eq]
  cases Operation.apply operation args m.heap with
  | ok v h => rfl
  | error e h => cases e <;> rfl

theorem attempt_bind (action : Eval Value) (next : Reply → Eval α) (m : Machine) :
    (attempt action >>= next) m =
      match action m with
      | .ok v m => next (.ok v) m
      | .error (.failure f) m => next (.error f) m
      | .error e m => .error e m := by
  show EStateM.bind (attempt action) next m = _
  unfold EStateM.bind attempt
  cases action m with
  | ok v m₁ => rfl
  | error e m₁ => cases e <;> rfl

/-- What holds where an action goes on after a result, after a failure that is caught, and where it is interrupted, holds
of it. A failure that is handed on interrupts it. -/
theorem attempt_bind_cases {P : EStateM.Result Interrupt Machine α → Prop} {catches : Failure → Prop}
    {action : Eval Value} {next : Reply → Eval α} {m : Machine}
    (herror : ∀ f, next (.error f) = throw (.failure f) ∨ catches f)
    (hok : ∀ v m₁, action m = .ok v m₁ → P (next (.ok v) m₁))
    (hcaught : ∀ f m₁, catches f → action m = .error (.failure f) m₁ → P (next (.error f) m₁))
    (hpassed : ∀ e m₁, action m = .error e m₁ → P (.error e m₁)) : P ((attempt action >>= next) m) := by
  rw [attempt_bind]
  cases hrun : action m with
  | ok v m₁ => exact hok v m₁ hrun
  | error e m₁ =>
      cases e with
      | failure f =>
          rcases herror f with hhanded | hcatches
          · dsimp only
            rw [hhanded]
            exact hpassed _ m₁ hrun
          · exact hcaught f m₁ hcatches hrun
      | _ => exact hpassed _ m₁ hrun

/-- Where every failure is handed on as it is, nothing is caught. -/
theorem attempt_bind_of_handed {action : Eval Value} {next : Reply → Eval α}
    (hhanded : ∀ f, next (.error f) = throw (.failure f)) :
    (attempt action >>= next) = action >>= fun v => next (.ok v) := by
  funext m
  refine attempt_bind_cases (P := (· = _)) (fun f => .inl (hhanded f)) (fun v m₁ hrun => ?_)
    (fun f m₁ (hcaught : False) _ => hcaught.elim) fun e m₁ hrun => ?_
  · rw [Action.bind_of_ok hrun]
  · rw [Action.bind_of_error hrun]

theorem state_located (p : Position) (action : Eval α) (m : Machine) :
    (located p action m).state = (action m).state := by
  unfold located
  cases action m with
  | ok a m₁ => rfl
  | error e m₁ => cases e <;> rfl

theorem settled_located (p : Position) (action : Eval α) (m : Machine) :
    (located p action m).Settled ↔ (action m).Settled := by
  unfold located
  cases action m with
  | ok a m₁ => rfl
  | error e m₁ =>
      cases e with
      | failure f => exact iff_of_true Interrupt.noConfusion Interrupt.noConfusion
      | _ => rfl

theorem failsAs_located {way : Failure → Prop} (p : Position) (action : Eval α) (m : Machine) :
    (located p action m).FailsAs way ↔ (action m).FailsAs fun f => way (f.orPosition p) := by
  unfold located
  cases action m with
  | ok a m₁ => rfl
  | error e m₁ => cases e <;> rfl

theorem faultsAs_located {way : Fault → Prop} (p : Position) (action : Eval α) (m : Machine) :
    (located p action m).FaultsAs way ↔ (action m).FaultsAs way := by
  unfold located
  cases action m with
  | ok a m₁ => rfl
  | error e m₁ => cases e <;> rfl

section

variable {m : Machine}

theorem nested_of_le (action : Eval α) (hlimit : m.limit ≤ m.depth) :
    nested action m = raise (.callDepth m.limit) m :=
  if_pos hlimit

theorem nested_of_lt (action : Eval α) (hlimit : m.depth < m.limit) :
    nested action m =
      (action { m with depth := m.depth + 1 }).mapState fun m' => { m' with depth := m'.depth - 1 } := by
  unfold nested
  rw [if_neg (Nat.not_le.2 hlimit)]
  cases action { m with depth := m.depth + 1 } <;> rfl

theorem borrowing_of_mem {cell : Cell} (action : Eval α) (hcell : cell ∈ m.borrowed) :
    borrowing cell action m = .error (.fault .alreadyBorrowed) m :=
  if_pos hcell

theorem borrowing_of_not_mem {cell : Cell} (action : Eval α) (hcell : cell ∉ m.borrowed) :
    borrowing cell action m =
      (action { m with borrowed := cell :: m.borrowed }).mapState fun m' =>
        { m' with borrowed := m'.borrowed.erase cell } := by
  unfold borrowing
  rw [if_neg hcell]
  cases action { m with borrowed := cell :: m.borrowed } <;> rfl

end

/-- The action is a series of steps that the code allows. -/
def Keeps (code : Code) (home : FrameId) (action : Eval α) : Prop :=
  ∀ m, code.machine m → code.Evolves home m (action m).state

/-- The end of such a series that asked for no fuel, unless code of the host goes on for ever. It is no fault and no
failure but those that the code ends in by itself. -/
structure Steps (code : Code) (home : FrameId) (m : Machine) (result : EStateM.Result Interrupt Machine α) : Prop where
  evolves : code.Evolves home m result.state
  settled : code.terms.diverges ∨ result.Settled
  faults : code.trusts ∨ result.FaultsAs code.Faults
  fails : result.FailsAs code.Raises

/-- The action ends so, and the calls that it is made in are nothing to it. -/
structure Steady (code : Code) (home : FrameId) (action : Eval α) : Prop where
  steps : ∀ m, code.machine m → Steps code home m (action m)
  calls : ∀ m depth limit, action (m.withCalls depth limit) = (action m).mapState (·.withCalls depth limit)

theorem Steps.of_ok {a : α} {m m' : Machine} (hevolves : code.Evolves home m m') :
    Steps code home m (.ok a m' : EStateM.Result Interrupt Machine α) :=
  ⟨hevolves, .inr trivial, .inr trivial, trivial⟩

/-! ### Steps without fuel -/

namespace Steady

theorem pure (a : α) : Steady code home (pure a) :=
  ⟨fun m _ => .of_ok (.refl m), fun _ _ _ => rfl⟩

theorem failure {f : Failure} (hraises : code.Raises f) : Steady code home (throw (.failure f) : Eval α) :=
  ⟨fun m _ => ⟨.refl m, .inr Interrupt.noConfusion, .inr trivial, hraises⟩, fun _ _ _ => rfl⟩

theorem raise (cause : RuntimeCause) : Steady code home (raise cause : Eval α) :=
  failure (.cause cause)

theorem fault {f : Fault} (hfaults : code.Faults f) : Steady code home (throw (.fault f) : Eval α) :=
  ⟨fun m _ => ⟨.refl m, .inr Interrupt.noConfusion, .inr hfaults, trivial⟩, fun _ _ _ => rfl⟩

theorem outOfFuel (hdiverges : code.terms.diverges) : Steady code home (throw .outOfFuel : Eval α) :=
  ⟨fun m _ => ⟨.refl m, .inl hdiverges, .inr trivial, trivial⟩, fun _ _ _ => rfl⟩

theorem onHeap {action : Action Heap α} (haction : Regular code.trusts (Heap.Evolves code.terms.applies) action) :
    Steady code home (onHeap action) := by
  refine ⟨fun m _ => ?_, fun m depth limit => ?_⟩
  · obtain ⟨hevolves, hsettled, hfaultless, hfails⟩ := haction m.heap
    rw [onHeap_eq]
    cases hrun : action m.heap with
    | ok a h =>
        rw [hrun] at hevolves
        exact .of_ok (.heap m hevolves)
    | error e h =>
        rw [hrun] at hevolves hsettled hfaultless hfails
        refine ⟨.heap m hevolves, .inr hsettled, hfaultless.imp_right fun hfaultless => ?_, ?_⟩
        · cases e with
          | fault f => exact hfaultless.elim
          | _ => trivial
        · cases e with
          | failure f =>
              obtain ⟨cause, rfl⟩ := hfails
              exact .cause cause
          | _ => trivial
  · rw [onHeap_eq, onHeap_eq]
    show (match action m.heap with | .ok a h => _ | .error e h => _) = _
    cases action m.heap <;> rfl

theorem applied {operation : Primitive} {args : List Value} (happlies : code.terms.applies operation)
    (hfaultless : code.terms.panics ∨ ∀ h, (Operation.apply operation args h).Faultless) :
    Steady code home (applied operation args) := by
  refine ⟨fun m _ => ?_, fun m depth limit => ?_⟩
  · have hregular : Regular True (Heap.Evolves code.terms.applies) (Operation.apply operation args) :=
      Operation.regular_apply happlies trivial args
    obtain ⟨hevolves, hsettled, -, hfails⟩ := hregular m.heap
    replace hfaultless := hfaultless.imp_right fun hfaultless => hfaultless m.heap
    rw [applied_eq]
    cases hrun : Operation.apply operation args m.heap with
    | ok v h =>
        rw [hrun] at hevolves
        exact .of_ok (.heap m hevolves)
    | error e h =>
        rw [hrun] at hevolves hsettled hfaultless hfails
        cases e with
        | failure f =>
            obtain ⟨cause, rfl⟩ := hfails
            exact ⟨.heap m hevolves, .inr Interrupt.noConfusion, .inr trivial, .cause cause⟩
        | fault f =>
            have hpanics : code.terms.panics := hfaultless.resolve_right id
            exact ⟨.heap m hevolves, .inr Interrupt.noConfusion, .inr ⟨hpanics, f, rfl⟩, trivial⟩
        | outOfFuel => exact absurd rfl hsettled
  · rw [applied_eq, applied_eq]
    show (match Operation.apply operation args m.heap with
      | .ok v h => _ | .error (.fault f) h => _ | .error e h => _) = _
    cases Operation.apply operation args m.heap with
    | ok v h => rfl
    | error e h => cases e <;> rfl

theorem hostFunction (name : String) (params : List String) {body : List Value → HostCode}
    (hbody : code.native params.length (.host body)) : Steady code home (hostFunction name params body) :=
  ⟨fun m _ => .of_ok (.hostFunction m name params hbody), fun _ _ _ => rfl⟩

theorem hostObject (name : String) (members : Bindings) : Steady code home (hostObject name members) :=
  ⟨fun m _ => .of_ok (.hostObject m ⟨name, members⟩), fun _ _ _ => rfl⟩

theorem become {host : HostState} (hhost : code.terms.states host) : Steady code home (become host) :=
  ⟨fun m _ => .of_ok (.host m hhost), fun _ _ _ => rfl⟩

theorem orRaise (cause : RuntimeCause) (a : Option α) : Steady code home (orRaise cause a) := by
  cases a with
  | none => exact raise cause
  | some a => exact pure a

theorem readVariable (scope : Scope) (name : String) : Steady code home (readVariable scope name) := by
  have hread (m : Machine) :
      Steady code home (LineScript.orRaise (.undefinedVariable name) (m.scopes.get? scope name)) :=
    orRaise _ _
  exact ⟨fun m => (hread m).steps m, fun m => (hread m).calls m⟩

theorem writeVariable (scope : Scope) (name : String) (value : Value) :
    Steady code scope.frame (writeVariable scope name value) :=
  ⟨fun m _ => .of_ok (.assign m scope name value), fun _ _ _ => rfl⟩

theorem condition (v : Value) : Steady code home (condition v) := by
  unfold Eval.condition
  split
  · exact pure _
  · exact raise _

theorem logicalOperand (op : LogicalOp) (v : Value) : Steady code home (logicalOperand op v) := by
  unfold Eval.logicalOperand
  split
  · exact pure _
  · exact raise _

theorem applyBinary (op : BinaryOp) (x y : Value) : Steady code home (applyBinary op x y) :=
  onHeap (Operation.regular_binary op x y)

theorem applyUnary (op : UnaryOp) (x : Value) : Steady code home (applyUnary op x) :=
  onHeap (Operation.regular_unary op x)

/-- The scope is captured for the function that is made in it: the two are one step of the machine. -/
theorem makeFunction (scope : Scope) (name : Option String) (params : List String) {body : List Node}
    (hbody : ∀ n ∈ body, code.node n) : Steady code scope.frame (makeFunction scope name params body) := by
  have hmade (m : Machine) := Code.Evolves.function m scope (name.getD "") params hbody
  cases name with
  | none => exact ⟨fun m _ => .of_ok (hmade m), fun _ _ _ => rfl⟩
  | some name => exact ⟨fun m _ => .of_ok ((hmade m).trans (.assign _ scope name _)), fun _ _ _ => rfl⟩

theorem keeps {action : Eval α} (haction : Steady code home action) : Keeps code home action := fun m hm =>
  (haction.steps m hm).evolves

end Steady

/-! ### Laws

Several things are shown of all that a program does, by the same walk through it: here, that it is a series of steps,
elsewhere, when it ends, how it ends, where it fails, and what the limit of calls does to it. A law is a walk that goes
through everything steady, and what is elementary is.
-/

theorem Steady.of_elementary {heaps : Heap → Prop} {action : Eval α} (h : code.Elementary heaps home action) :
    Steady code home action := by
  cases h with
  | pure a => exact .pure a
  | onHeap h => exact .onHeap h.regular
  | readVariable hn scope => exact .readVariable scope _
  | writeVariable scope name v => exact .writeVariable scope name v
  | makeFunction hn scope => exact .makeFunction scope _ _ fun c hc => code.child hn hc
  | condition v => exact .condition v
  | logicalOperand op v => exact .logicalOperand op v
  | cannotIterate | cannotCall | arity => exact .raise _
  | raises hraises => exact .failure (.host hraises)
  | panics hpanics f => exact .fault ⟨hpanics, f, rfl⟩
  | diverges hdiverges => exact .outOfFuel hdiverges
  | applied happlies hfaultless => exact .applied happlies hfaultless
  | hostFunction hmakes name params hbody => exact .hostFunction name params (code.made hmakes hbody)
  | hostObject hmakes name members => exact .hostObject name members
  | become hhost => exact .become hhost

structure Law (code : Code) (ι : Type) extends Walk code (fun _ => True) ι where
  steady : ∀ {α : Type} {home : FrameId} {action : Eval α}, Steady code home action → Holds home fun _ => action
  elementary := fun h => steady (.of_elementary h)

structure StepLaw (code : Code) (ι : Type) extends Law code ι, StepWalk code (fun _ => True) ι where
  writeItem := fun target index v => steady (.onHeap (Operation.regular_writeItem target index v))

/-! ### Every evaluation is a series of steps -/

namespace Keeps

theorem bind {action : Eval α} {next : α → Eval β} (haction : Keeps code home action)
    (hnext : ∀ a, Keeps code home (next a)) : Keeps code home (action >>= next) := by
  intro m hm
  have hevolves := haction m hm
  cases hrun : action m with
  | ok a m₁ =>
      rw [hrun] at hevolves
      rw [Action.bind_of_ok hrun]
      exact hevolves.trans (hnext a m₁ (hevolves.machine_code hm))
  | error e m₁ =>
      rw [hrun] at hevolves
      rw [Action.bind_of_error hrun]
      exact hevolves

theorem located (p : Position) {action : Eval α} (haction : Keeps code home action) :
    Keeps code home (located p action) := by
  intro m hm
  rw [state_located]
  exact haction m hm

theorem nested {action : Eval α} (haction : Keeps code home action) : Keeps code home (nested action) := by
  intro m hm
  rcases Nat.lt_or_ge m.depth m.limit with hlimit | hlimit
  · rw [nested_of_lt action hlimit, state_mapState]
    exact .nested (haction { m with depth := m.depth + 1 } hm)
  · rw [nested_of_le action hlimit]
    exact .refl m

theorem attempt {action : Eval Value} (haction : Keeps code home action) : Keeps code home (attempt action) := by
  intro m hm
  have hevolves := haction m hm
  unfold Eval.attempt
  cases hrun : action m with
  | ok v m₁ =>
      rw [hrun] at hevolves
      exact hevolves
  | error e m₁ =>
      rw [hrun] at hevolves
      cases e <;> exact hevolves

/-- What is replied is followed by code that was asked for, unless it is a failure that is handed on as it is. -/
theorem caught {action : Eval Value} {next : Reply → Eval α} (haction : Keeps code home action)
    (hok : ∀ v, Keeps code home (next (.ok v)))
    (herror : ∀ f, next (.error f) = throw (.failure f) ∨ Keeps code home (next (.error f))) :
    Keeps code home (Eval.attempt action >>= next) := by
  refine haction.attempt.bind fun reply => ?_
  cases reply with
  | ok v => exact hok v
  | error f => exact (herror f).elim (fun hhanded m _ => hhanded ▸ .refl m) id

theorem borrowing (cell : Cell) {action : Eval α} (haction : Keeps code home action) :
    Keeps code home (borrowing cell action) := by
  intro m hm
  by_cases hcell : cell ∈ m.borrowed
  · rw [borrowing_of_mem action hcell]
    exact .refl m
  · rw [borrowing_of_not_mem action hcell, state_mapState]
    exact .borrowing cell (haction { m with borrowed := cell :: m.borrowed } hm)

end Keeps

def keepsLaw (code : Code) (ι : Type) : StepLaw code ι where
  Holds home action := ∀ i, Keeps code home (action i)
  steady haction _ := haction.keeps
  bind haction hnext i := (haction i).bind fun a => hnext a i
  inside scope bindings hnext i m hm :=
    .inside m scope bindings (hnext ⟨⟨m.scopes.frames.size⟩, scope.chain⟩ i _ hm)
  located p _ haction i := (haction i).located p
  reading _ hnext i m hm := hnext m.heap m.toHostState hm.1 trivial hm.2 i m hm
  caught haction hok herror i :=
    (haction i).caught (fun v => hok v i) fun f => (herror f).imp (· i) fun hcaught => hcaught.2 i
  borrowing cell _ haction i := (haction i).borrowing cell
  exhausted _ m _ := .refl m
  nested haction i := (haction i).nested

theorem keeps_execute (code : Code) (fuel : Nat) (home : FrameId) (w : Work) (hw : code.work home w) :
    Keeps code home (execute fuel w) := by
  have hkeeps := (keepsLaw code Unit).execute fuel home w hw
  exact hkeeps ()

theorem keeps_statements (code : Code) (fuel : Nat) (scope : Scope) {body : List Node} (hbody : ∀ n ∈ body, code.node n)
    (last : Value) : Keeps code scope.frame (statements (execute fuel) scope last body) := by
  have hkeeps := (keepsLaw code Unit).statements fuel scope hbody last
  exact hkeeps ()

end Eval

end LineScript
