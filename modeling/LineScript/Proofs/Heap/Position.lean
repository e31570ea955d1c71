import LineScript.Evaluation
import LineScript.Library
import LineScript.Proofs.Heap.Evolution
import LineScript.Proofs.Program.Conformity
/-!
# Positions on the heap

A heap has positions in its functions only: in the bodies of those of a script, and in the failures that those of the
host raise. No operation looks at them. So an operation does the same on a heap whose positions have been moved, and
leaves the heap that it would have left, with its positions moved. Code of the host is told failures with their
positions, and may look at these or not.
-/

namespace LineScript

/-! ### Moving positions -/

section

variable (f : Position → Position)

def Failure.mapPosition : Failure → Failure
  | diagnostic d => diagnostic { d with position := d.position.map f }
  | io text => io text

def Interrupt.mapPosition : Interrupt → Interrupt
  | failure e => failure (e.mapPosition f)
  | fault e => fault e
  | outOfFuel => outOfFuel

def Console.mapPosition (c : Console) : Console :=
  { c with closed := c.closed.mapPosition f }

def HostState.mapPosition (host : HostState) : HostState :=
  { host with console := host.console.mapPosition f }

/-- The code with the positions moved that it brings in, whatever it is told. -/
def HostCode.mapPosition : HostCode → HostCode
  | returns v => returns v
  | raises e => raises (e.mapPosition f)
  | panics e => panics e
  | diverges => diverges
  | applies operation args next => applies operation args fun reply => (next reply).mapPosition
  | calls g args next => calls g args fun reply => (next reply).mapPosition
  | makesFunction name params body next =>
      makesFunction name params (fun args => (body args).mapPosition) fun v => (next v).mapPosition
  | makesObject name members next => makesObject name members fun v => (next v).mapPosition
  | exchanges step next =>
      exchanges (fun host => ((step host).1, (step host).2.mapPosition f)) fun reply => (next reply).mapPosition

def Native.mapPosition : Native → Native
  | writeLine cell write => writeLine cell fun v => (write v).mapPosition f
  | asks cell answer => asks cell (answer.mapPosition f)
  | convertTo target => convertTo target
  | host body => host fun args => (body args).mapPosition f

def FunctionBody.mapPosition : FunctionBody → FunctionBody
  | script body scope => script (Node.mapPositions f body) scope
  | native operation => native (operation.mapPosition f)

def Function.mapPosition (g : Function) : Function :=
  { g with body := g.body.mapPosition f }

def Heap.mapPosition (h : Heap) : Heap :=
  { h with functions := h.functions.map (·.mapPosition f) }

/-- The same end with its positions moved, in a state that is changed likewise. -/
def mapEnd {σ α : Type} (change : σ → σ) : EStateM.Result Interrupt σ α → EStateM.Result Interrupt σ α
  | .ok a s => .ok a (change s)
  | .error e s => .error (e.mapPosition f) (change s)

end

variable {f : Position → Position}

/-- A failure that has no position yet gets the moved one. -/
theorem Failure.mapPosition_orPosition (e : Failure) (p : Position) :
    (e.orPosition p).mapPosition f = (e.mapPosition f).orPosition (f p) := by
  cases e with
  | io text => rfl
  | diagnostic d =>
      obtain ⟨cause, position, notes⟩ := d
      cases position <;> rfl

namespace Function

@[simp] theorem display_mapPosition (g : Function) : (g.mapPosition f).display = g.display := by
  simp only [display, mapPosition]

theorem isNative_mapPosition (g : Function) : (g.mapPosition f).isNative = g.isNative := by
  obtain ⟨name, params, body⟩ := g
  cases body <;> rfl

theorem debug_congr {g g' : Function} (hname : g'.name = g.name) (hparams : g'.params = g.params)
    (hnative : g'.isNative = g.isNative) : g'.debug = g.debug := by
  unfold debug
  rw [hname, hparams, hnative]

@[simp] theorem debug_mapPosition (g : Function) : (g.mapPosition f).debug = g.debug :=
  debug_congr rfl rfl g.isNative_mapPosition

end Function

/-! ### Code that does not look at positions -/

/-- Whether the positions of a failure that the code is told, and those of the host's state, have been moved is all the
same to the code, but for the positions that it brings in itself. -/
def HostCode.Blind (f : Position → Position) : HostCode → Prop
  | applies _ _ next =>
      ∀ reply, (next reply).Blind f ∧
        (next (reply.mapError (·.mapPosition f))).mapPosition f = (next reply).mapPosition f
  | calls _ _ next =>
      ∀ reply, (next reply).Blind f ∧
        (next (reply.mapError (·.mapPosition f))).mapPosition f = (next reply).mapPosition f
  | makesFunction _ _ body next => (∀ args, (body args).Blind f) ∧ ∀ v, (next v).Blind f
  | makesObject _ _ next => ∀ v, (next v).Blind f
  | exchanges step next =>
      ∀ host, (next (step host).1).Blind f ∧
        (step (host.mapPosition f)).2.mapPosition f = (step host).2.mapPosition f ∧
        (next (step (host.mapPosition f)).1).mapPosition f = (next (step host).1).mapPosition f
  | _ => True

def Native.Blind (f : Position → Position) : Native → Prop
  | writeLine _ write => ∀ v, (write v).Blind f
  | asks _ answer => answer.Blind f
  | convertTo _ => True
  | host body => ∀ args, (body args).Blind f

def Function.Blind (f : Position → Position) (g : Function) : Prop :=
  match g.body with
  | .script .. => True
  | .native operation => operation.Blind f

/-- No function of the host on the heap looks at positions. -/
def Heap.Blind (f : Position → Position) (h : Heap) : Prop :=
  ∀ g ∈ h.functions, g.Blind f

theorem Heap.blind_newFunction {h : Heap} (hh : h.Blind f) {g : Function} (hg : g.Blind f) :
    (h.newFunction g).2.Blind f := by
  intro g' hmem
  rcases Array.mem_push.1 hmem with hold | rfl
  · exact hh g' hold
  · exact hg

theorem Heap.blind_function {h : Heap} (hh : h.Blind f) (id : FunctionId) : (h.function id).Blind f := by
  unfold function
  cases hfound : h.functions[id.index]? with
  | none => exact fun _ => trivial
  | some g => exact hh g (Array.mem_of_getElem? hfound)

/-! Plain callbacks do not look at positions. To say so once, positions are moved to where they stay if they are moved
again. -/

section Plain

variable (hstay : ∀ p, f (f p) = f p)
include hstay

theorem Failure.mapPosition_mapPosition (e : Failure) : (e.mapPosition f).mapPosition f = e.mapPosition f := by
  cases e with
  | io text => rfl
  | diagnostic d =>
      obtain ⟨cause, position, notes⟩ := d
      cases position with
      | none => rfl
      | some p => exact congrArg (fun p => diagnostic ⟨cause, some p, notes⟩) (hstay p)

theorem HostCode.mapPosition_handsOn (reply : Reply) :
    (handsOn (reply.mapError (·.mapPosition f))).mapPosition f = (handsOn reply).mapPosition f := by
  cases reply with
  | ok v => rfl
  | error e => exact congrArg raises (e.mapPosition_mapPosition hstay)

omit hstay in
theorem HostCode.blind_handsOn (reply : Reply) : (handsOn reply).Blind f := by
  cases reply <;> trivial

/-- A step that answers the same on a state whose positions have been moved, but for its own positions. -/
theorem HostCode.blind_exchanges {step : HostState → Reply × HostState}
    (hstep : ∀ host, (step (host.mapPosition f)).2 = (step host).2.mapPosition f ∧
      (step (host.mapPosition f)).1.mapError (·.mapPosition f) = (step host).1.mapError (·.mapPosition f)) :
    (exchanges step handsOn).Blind f := by
  intro host
  obtain ⟨hstate, hreply⟩ := hstep host
  refine ⟨blind_handsOn _, ?_, ?_⟩
  · rw [hstate]
    exact congrArg (fun e => ({ (step host).2 with console := { (step host).2.console with closed := e } } : HostState))
      (Failure.mapPosition_mapPosition hstay _)
  · rw [← mapPosition_handsOn hstay, hreply, mapPosition_handsOn hstay]

theorem Callbacks.blind_plain :
    (∀ v, (plain.writeLine v).Blind f) ∧ plain.readLine.Blind f ∧ plain.update.Blind f := by
  refine ⟨fun v reply => ?_, HostCode.blind_exchanges hstay ?_, HostCode.blind_exchanges hstay ?_⟩
  · cases reply with
    | error e => exact ⟨trivial, HostCode.mapPosition_handsOn hstay (.error e)⟩
    | ok v =>
        refine ⟨?_, rfl⟩
        cases v with
        | string line =>
            refine HostCode.blind_exchanges hstay ?_
            rintro ⟨⟨input, output, writesLeft, closed⟩, updates⟩
            rcases writesLeft with _ | _ | n
            · exact ⟨rfl, rfl⟩
            · exact ⟨rfl, congrArg Except.error (closed.mapPosition_mapPosition hstay)⟩
            · exact ⟨rfl, rfl⟩
        | _ => trivial
  · rintro ⟨⟨input, output, writesLeft, closed⟩, updates⟩
    rcases input with _ | ⟨_ | _, rest⟩ <;> exact ⟨rfl, rfl⟩
  · rintro ⟨console, updates⟩
    cases updates <;> exact ⟨rfl, rfl⟩

/-- Neither do the functions of the standard library with such callbacks. -/
theorem Library.blind_standard {h : Heap} (hh : h.Blind f) :
    ∃ library h', Library.standard h = .ok library h' ∧ h'.Blind f := by
  obtain ⟨hwrite, hread, hupdate⟩ := Callbacks.blind_plain hstay
  refine ⟨_, _, rfl, fun g hg => ?_⟩
  simp only [Array.mem_push, or_assoc] at hg
  rcases hg with hg | rfl | rfl | rfl | rfl | rfl | rfl
  · exact hh g hg
  · exact hwrite
  · exact hread
  · trivial
  · trivial
  · trivial
  · exact hupdate

end Plain

/-! ### What is read from the heap -/

namespace Heap

@[simp] theorem items_mapPosition (h : Heap) (id : ArrayId) : (h.mapPosition f).items id = h.items id := rfl

@[simp] theorem object_mapPosition (h : Heap) (id : ObjectId) : (h.mapPosition f).object id = h.object id := rfl

@[simp] theorem function_mapPosition (h : Heap) (id : FunctionId) :
    (h.mapPosition f).function id = (h.function id).mapPosition f := by
  simp only [function, mapPosition, Array.getElem?_map]
  cases h.functions[id.index]? <;> rfl

theorem newFunction_mapPosition (h : Heap) (g : Function) :
    (h.mapPosition f).newFunction (g.mapPosition f) = ((h.newFunction g).1, (h.newFunction g).2.mapPosition f) := by
  simp only [newFunction, mapPosition, Array.size_map, Array.map_push]

theorem displayWithin_mapPosition (h : Heap) (fuel : Nat) (path : List ArrayId) :
    (h.mapPosition f).displayWithin fuel path = h.displayWithin fuel path := by
  induction fuel generalizing path with
  | zero =>
      funext v
      cases v <;> simp [displayWithin]
  | succ fuel ih =>
      funext v
      cases v <;> simp [displayWithin, ih]

@[simp] theorem display_mapPosition (h : Heap) (v : Value) : (h.mapPosition f).display v = h.display v :=
  congrFun (displayWithin_mapPosition h _ _) v

theorem debugWithin_mapPosition (h : Heap) (fuel : Nat) (path : List Container) :
    (h.mapPosition f).debugWithin fuel path = h.debugWithin fuel path := by
  induction fuel generalizing path with
  | zero =>
      funext v
      cases v <;> simp [debugWithin]
  | succ fuel ih =>
      funext v
      cases v <;> simp [debugWithin, ih]

@[simp] theorem debug_mapPosition (h : Heap) (v : Value) : (h.mapPosition f).debug v = h.debug v :=
  congrFun (debugWithin_mapPosition h _ _) v

theorem comparison_mapPosition (h : Heap) (fuel : Nat) : (h.mapPosition f).comparison fuel = h.comparison fuel := by
  induction fuel with
  | zero =>
      funext x y
      cases x <;> cases y <;> simp [comparison]
  | succ fuel ih =>
      funext x y
      cases x <;> cases y <;> simp [comparison, ih]

@[simp] theorem equal_mapPosition (h : Heap) (x y : Value) : (h.mapPosition f).equal x y = h.equal x y := by
  have hfuel : (h.mapPosition f).comparisonFuel = h.comparisonFuel := rfl
  rw [equal, equal, comparison_mapPosition, hfuel]

end Heap

/-! ### Actions that carry positions along -/

/-- Where positions have been moved, the second action does what the first one does where they have not. It is in states
of a kind that this is so, and the first one leaves such a state. -/
def Relocates {σ α : Type} (f : Position → Position) (kept : σ → Prop) (change : σ → σ)
    (action action' : Action σ α) : Prop :=
  ∀ s, kept s → action' (change s) = mapEnd f change (action s) ∧ kept (action s).state

namespace Relocates

variable {σ α β : Type} {kept : σ → Prop} {change : σ → σ}

theorem pure (a : α) : Relocates f kept change (Pure.pure a) (Pure.pure a) :=
  fun _ hs => ⟨rfl, hs⟩

theorem throw (e : Interrupt) :
    Relocates f kept change (MonadExcept.throw e : Action σ α) (MonadExcept.throw (e.mapPosition f)) :=
  fun _ hs => ⟨rfl, hs⟩

theorem raise (cause : RuntimeCause) :
    Relocates f kept change (raise cause : Action σ α) (LineScript.raise cause) :=
  fun _ hs => ⟨rfl, hs⟩

theorem orRaise (cause : RuntimeCause) (a : Option α) :
    Relocates f kept change (orRaise cause a) (LineScript.orRaise cause a) := by
  cases a with
  | none => exact raise cause
  | some a => exact pure a

theorem bind {action action' : Action σ α} {next next' : α → Action σ β}
    (haction : Relocates f kept change action action') (hnext : ∀ a, Relocates f kept change (next a) (next' a)) :
    Relocates f kept change (action >>= next) (action' >>= next') := by
  intro s hs
  obtain ⟨hend, hkept⟩ := haction s hs
  cases hrun : action s with
  | ok a s₁ =>
      rw [hrun] at hend hkept
      rw [Action.bind_of_ok hrun, Action.bind_of_ok hend]
      exact hnext a s₁ hkept
  | error e s₁ =>
      rw [hrun] at hend hkept
      rw [Action.bind_of_error hrun, Action.bind_of_error hend]
      exact ⟨rfl, hkept⟩

end Relocates

/-- An operation that does not look at positions, and adds no function that does. -/
def Blind (f : Position → Position) {α : Type} (action : Action Heap α) : Prop :=
  Relocates f (Heap.Blind f) (Heap.mapPosition f) action action

namespace Blind

variable {α β : Type}

theorem pure (a : α) : Blind f (Pure.pure a) :=
  Relocates.pure a

theorem raise (cause : RuntimeCause) : Blind f (raise cause : Action Heap α) :=
  Relocates.raise cause

theorem orRaise (cause : RuntimeCause) (a : Option α) : Blind f (orRaise cause a) :=
  Relocates.orRaise cause a

theorem fault (e : Fault) : Blind f (throw (.fault e) : Action Heap α) :=
  Relocates.throw (.fault e)

theorem modify {change : Heap → Heap} (hfunctions : ∀ h : Heap, (change h).functions = h.functions)
    (hchange : ∀ h : Heap, change (h.mapPosition f) = (change h).mapPosition f) : Blind f (modify change) :=
  fun h hh => ⟨congrArg (EStateM.Result.ok ()) (hchange h), fun g hg => hh g (hfunctions h ▸ hg)⟩

theorem bind {action : Action Heap α} {next : α → Action Heap β} (haction : Blind f action)
    (hnext : ∀ a, Blind f (next a)) : Blind f (action >>= next) :=
  Relocates.bind haction hnext

/-- An operation that reads the heap and goes on in the same way wherever the positions are. -/
theorem reading {next : Heap → Action Heap α} (hsame : ∀ h, next (h.mapPosition f) = next h)
    (hnext : ∀ h, Blind f (next h)) : Blind f (get >>= next) := by
  intro h hh
  show next (h.mapPosition f) (h.mapPosition f) = mapEnd f (Heap.mapPosition f) (next h h) ∧ _
  rw [hsame]
  exact hnext h h hh

end Blind

/-! ### Operators -/

namespace Operation

variable {α : Type}

theorem blind_makeArray (items : Array Value) : Blind f (makeArray items) :=
  fun _ hh => ⟨rfl, hh⟩

theorem blind_ofSequence (s : Sequence) : Blind f (ofSequence s) := by
  cases s with
  | text s => exact .pure _
  | items xs => exact blind_makeArray xs

theorem blind_checkLength (length : Nat) : Blind f (checkLength length) := by
  unfold checkLength
  split
  · exact .pure _
  · exact .raise _

theorem blind_checkedLength (length : Option Nat) : Blind f (checkedLength length) :=
  .bind (.orRaise _ _) fun _ => .bind (blind_checkLength _) fun _ => .pure _

theorem sequence?_mapPosition (h : Heap) (v : Value) : (h.mapPosition f).sequence? v = h.sequence? v := by
  cases v <;> rfl

theorem blind_sequence (v : Value) : Blind f (sequence v) :=
  .reading (fun h => by rw [sequence?_mapPosition]) fun _ => .orRaise _ _

theorem blind_number (role : NumberRole) (v : Value) : Blind f (number role v) := by
  unfold number
  split
  · exact .pure _
  · exact .raise _

theorem blind_content (v : Value) : Blind f (content v) := by
  refine .reading (fun h => by rw [sequence?_mapPosition]) fun h => ?_
  split
  · exact .pure _
  · exact .fault _

theorem blind_unfailing (a : Option α) : Blind f (unfailing a) := by
  cases a with
  | none => exact .fault _
  | some a => exact .pure a

theorem blind_negate (v : Value) : Blind f (negate v) := by
  unfold negate
  split
  · exact .pure _
  · exact .raise _

theorem blind_not (v : Value) : Blind f (Operation.not v) := by
  unfold Operation.not
  split
  · exact .pure _
  · exact .raise _

theorem blind_add (x y : Value) : Blind f (add x y) := by
  have htext : Blind f (do
      let h ← get
      let text := h.display x ++ h.display y
      checkLength text.length
      return Value.string text) :=
    .reading (fun h => by simp) fun _ => .bind (blind_checkLength _) fun _ => .pure _
  unfold add
  split
  · exact htext
  · exact htext
  · exact .bind (.orRaise _ _) fun _ => .pure _
  · exact .reading (fun _ => rfl) fun _ => .bind (blind_checkedLength _) fun _ => blind_makeArray _
  · exact .raise _

theorem blind_subtract (x y : Value) : Blind f (subtract x y) := by
  unfold subtract
  split
  · exact .bind (.orRaise _ _) fun _ => .pure _
  · exact .raise _

theorem blind_repeatedUpwards (s : Sequence) (count : Decimal) : Blind f (repeatedUpwards s count) := by
  unfold repeatedUpwards
  split
  · exact blind_ofSequence _
  · refine .bind ?_ fun _ => .bind (blind_checkedLength _) fun _ => blind_ofSequence _
    exact .bind (blind_unfailing _) fun _ => .bind (blind_unfailing _) fun _ => .pure _

theorem blind_repeated (s : Sequence) (count : Decimal) : Blind f (repeated s count) := by
  unfold repeated
  split
  · exact blind_repeatedUpwards _ _
  · exact blind_repeatedUpwards _ _

theorem blind_repetition (v count : Value) : Blind f (repetition v count) := by
  refine .reading (fun h => by rw [sequence?_mapPosition]) fun h => ?_
  split
  · exact .raise _
  · exact .bind (blind_number _ _) fun _ => .bind (blind_content _) fun _ => blind_repeated _ _

theorem blind_multiply (x y : Value) : Blind f (multiply x y) := by
  unfold multiply
  split
  · exact .bind (.orRaise _ _) fun _ => .pure _
  · exact blind_repetition _ _
  · exact blind_repetition _ _
  · exact .raise _

theorem blind_divide (x y : Value) : Blind f (divide x y) := by
  unfold divide
  split
  · split
    · exact .bind (.raise _) fun _ => .bind (.orRaise _ _) fun _ => .pure _
    · exact .bind (.orRaise _ _) fun _ => .pure _
  · exact .raise _

theorem blind_length (v : Value) : Blind f (length v) :=
  .bind (blind_sequence v) fun _ => .pure _

theorem blind_reverse (v : Value) : Blind f (reverse v) := by
  refine .reading (fun h => by rw [sequence?_mapPosition]) fun h => ?_
  split
  · exact blind_ofSequence _
  · exact .raise _

theorem blind_slice (v start stop : Value) : Blind f (slice v start stop) :=
  .bind (blind_sequence _) fun _ => .bind (blind_number _ _) fun _ => .bind (blind_number _ _) fun _ =>
    .bind (blind_content _) fun _ => blind_ofSequence _

theorem blind_rangeBy (first last step : Decimal) : Blind f (rangeBy first last step) := by
  have hcount (distance : Decimal) : Blind f (stepCount distance step) :=
    .bind (blind_checkedLength _) fun _ => .pure _
  unfold rangeBy
  split
  · exact blind_makeArray _
  · split
    · exact .raise _
    · refine .bind (.orRaise _ _) fun distance => ?_
      split
      · exact blind_makeArray _
      · exact .bind (hcount distance) fun _ => .bind (.orRaise _ _) fun _ => blind_makeArray _

theorem blind_range (first last : Value) (step : Option Value) : Blind f (range first last step) := by
  refine .bind (blind_number _ _) fun first => .bind (blind_number _ _) fun last => ?_
  cases step with
  | none => exact blind_rangeBy _ _ _
  | some step => exact .bind (blind_number _ _) fun _ => blind_rangeBy _ _ _

theorem blind_convert (v : Value) (target : Tag) : Blind f (convert v target) := by
  unfold convert
  split
  · exact .pure _
  · exact .reading (fun h => by simp) fun _ => .orRaise _ _

theorem blind_payload (result : Except Fault α) : Blind f (payload result) := by
  cases result with
  | error e => exact .fault e
  | ok a => exact .pure a

theorem blind_equals (x y : Value) : Blind f (equals x y) :=
  .reading (fun h => by simp) fun _ => .pure _

theorem blind_notEquals (x y : Value) : Blind f (notEquals x y) :=
  .reading (fun h => by simp) fun _ => .pure _

theorem blind_orEquals (answer x y : Value) : Blind f (orEquals answer x y) :=
  .bind (blind_payload _) fun _ => .reading (fun h => by simp) fun _ => .pure _

theorem blind_binary (op : BinaryOp) (x y : Value) : Blind f (op.operation x y) := by
  cases op with
  | add => exact blind_add x y
  | subtract => exact blind_subtract x y
  | multiply => exact blind_multiply x y
  | divide => exact blind_divide x y
  | equals => exact blind_equals x y
  | notEquals => exact blind_notEquals x y
  | less | greater => exact .pure _
  | lessEquals | greaterEquals => exact .bind (.pure _) fun answer => blind_orEquals answer x y

theorem blind_unary (op : UnaryOp) (x : Value) : Blind f (op.operation x) := by
  cases op with
  | not => exact blind_not x
  | negate => exact blind_negate x

/-! ### Items and members -/

theorem blind_getItem (id : ArrayId) (index : Int) : Blind f (getItem id index) := by
  refine .reading (fun _ => rfl) fun h => ?_
  split
  · exact .raise _
  · exact .orRaise _ _

theorem blind_setLength (id : ArrayId) (length : Int) : Blind f (setLength id length) := by
  unfold setLength
  split
  · exact .raise _
  · exact .bind (blind_checkLength _) fun _ => .modify (fun _ => rfl) fun _ => rfl

theorem blind_putItem (id : ArrayId) (place : Nat) (value : Value) : Blind f (putItem id place value) := by
  refine .reading (fun _ => rfl) fun h => ?_
  split
  · exact .reading (fun _ => rfl) fun _ => .fault _
  · exact .modify (fun _ => rfl) fun _ => rfl

theorem blind_setItem (id : ArrayId) (index : Int) (value : Value) : Blind f (setItem id index value) := by
  unfold setItem
  split
  · exact .raise _
  · refine .reading (fun _ => rfl) fun h => ?_
    split
    · exact .bind (blind_setLength _ _) fun _ => blind_putItem _ _ _
    · exact blind_putItem _ _ _

theorem blind_pushItem (id : ArrayId) (value : Value) : Blind f (pushItem id value) :=
  .modify (fun _ => rfl) fun _ => rfl

theorem blind_arrayAndIndex (v index : Value) : Blind f (arrayAndIndex v index) := by
  have htext (index : Value) :
      Blind f (do raise (.indexNotInteger ((← get).display index)) : Action Heap (ArrayId × Int)) :=
    .reading (fun h => by simp) fun _ => .raise _
  unfold arrayAndIndex
  split
  · split
    · split
      · split
        · exact .pure _
        · exact .raise _
      · exact htext _
    · exact htext _
  · exact .raise _

theorem blind_readItem (v index : Value) : Blind f (readItem v index) :=
  .bind (blind_arrayAndIndex _ _) fun _ => blind_getItem _ _

theorem blind_writeItem (v index value : Value) : Blind f (writeItem v index value) :=
  .bind (blind_arrayAndIndex _ _) fun _ => blind_setItem _ _ _

theorem blind_getMember (id : ObjectId) (name : String) : Blind f (getMember id name) :=
  .reading (fun _ => rfl) fun _ => .orRaise _ _

theorem blind_readMember (v : Value) (name : String) : Blind f (readMember v name) := by
  unfold readMember
  split
  · exact blind_getMember _ _
  · exact .raise _

theorem blind_writeMember (v : Value) (name : String) (value : Value) : Blind f (writeMember v name value) := by
  unfold writeMember
  split
  · exact .modify (fun _ => rfl) fun _ => rfl
  · exact .raise _

/-! ### Arguments -/

section

variable {args : List Value} {i : Nat}

theorem blind_argument : Blind f (argument args i) := by
  unfold argument
  split
  · exact .pure _
  · exact .fault _

theorem blind_nameArgument : Blind f (nameArgument args i) :=
  .bind blind_argument fun _ => blind_payload _

theorem blind_integerArgument : Blind f (integerArgument args i) :=
  .bind blind_argument fun _ => .bind (blind_payload _) fun _ => .pure _

theorem blind_arrayArgument : Blind f (arrayArgument args i) :=
  .bind blind_argument fun _ => blind_payload _

theorem blind_objectArgument : Blind f (objectArgument args i) :=
  .bind blind_argument fun _ => blind_payload _

/-- What is made of a function that the host passes does not depend on the positions in it. -/
theorem blind_functionArgument_bind {next : Function → Action Heap α} (hsame : ∀ g, next (g.mapPosition f) = next g)
    (hnext : ∀ g, Blind f (next g)) : Blind f (functionArgument args i >>= next) := by
  simp only [functionArgument, bind_assoc, pure_bind]
  refine .reading (fun h => by simp only [Heap.function_mapPosition, hsame]) fun h => ?_
  exact .bind blind_argument fun _ => .bind (blind_payload _) fun _ => hnext _

theorem blind_tagArgument : Blind f (tagArgument args i) := by
  refine .bind blind_nameArgument fun name => ?_
  split
  · exact .pure _
  · exact .fault _

theorem blind_unaryOn {operation : Value → Action Heap Value} (hoperation : ∀ x, Blind f (operation x)) :
    Blind f (unaryOn args operation) :=
  .bind blind_argument hoperation

theorem blind_binaryOn {operation : Value → Value → Action Heap Value}
    (hoperation : ∀ x y, Blind f (operation x y)) : Blind f (binaryOn args operation) :=
  .bind blind_argument fun x => .bind blind_argument fun y => hoperation x y

end

theorem blind_nothing {action : Action Heap Unit} (haction : Blind f action) : Blind f (nothing action) :=
  .bind haction fun _ => .pure _

/-- **No operation looks at positions**, whatever the host passes to it. -/
theorem blind_apply (primitive : Primitive) (args : List Value) : Blind f (apply primitive args) := by
  cases primitive with
  | add => exact blind_binaryOn blind_add
  | subtract => exact blind_binaryOn blind_subtract
  | multiply => exact blind_binaryOn blind_multiply
  | divide => exact blind_binaryOn blind_divide
  | equals => exact blind_binaryOn blind_equals
  | notEquals => exact blind_binaryOn blind_notEquals
  | less => exact blind_binaryOn (blind_binary .less)
  | lessEquals => exact blind_binaryOn (blind_binary .lessEquals)
  | greater => exact blind_binaryOn (blind_binary .greater)
  | greaterEquals => exact blind_binaryOn (blind_binary .greaterEquals)
  | not => exact blind_unaryOn blind_not
  | negate => exact blind_unaryOn blind_negate
  | length => exact blind_unaryOn blind_length
  | reverse => exact blind_unaryOn blind_reverse
  | slice =>
      exact .bind blind_argument fun _ => .bind blind_argument fun _ => .bind blind_argument fun _ => blind_slice _ _ _
  | repetition => exact blind_binaryOn blind_repetition
  | readMember => exact .bind blind_argument fun _ => .bind blind_nameArgument fun _ => blind_readMember _ _
  | writeMember =>
      exact blind_nothing (.bind blind_argument fun _ => .bind blind_nameArgument fun _ =>
        .bind blind_argument fun _ => blind_writeMember _ _ _)
  | call => exact .fault _
  | makeArray => exact blind_makeArray _
  | makeRange => exact .bind blind_argument fun _ => .bind blind_argument fun _ => blind_range _ _ _
  | readItem => exact blind_binaryOn blind_readItem
  | writeItem =>
      exact blind_nothing (.bind blind_argument fun _ => .bind blind_argument fun _ =>
        .bind blind_argument fun _ => blind_writeItem _ _ _)
  | same => exact blind_argument
  | convert => exact .bind blind_argument fun _ => .bind blind_tagArgument fun _ => blind_convert _ _
  | display | debug => exact .reading (fun h => by simp) fun _ => .bind blind_argument fun _ => .pure _
  | typeName | isNone | isInteger => exact .bind blind_argument fun _ => .pure _
  | asBool | asNumber | asString | asArray | asObject | asFunction =>
      exact .bind blind_argument fun _ => .bind (blind_payload _) fun _ => .pure _
  | emptyArray => exact blind_makeArray _
  | arrayLength | arrayIsEmpty => exact .reading (fun _ => rfl) fun _ => .bind blind_arrayArgument fun _ => .pure _
  | arrayGet => exact .bind blind_arrayArgument fun _ => .bind blind_integerArgument fun _ => blind_getItem _ _
  | arraySet =>
      exact blind_nothing (.bind blind_arrayArgument fun _ => .bind blind_integerArgument fun _ =>
        .bind blind_argument fun _ => blind_setItem _ _ _)
  | arrayResize =>
      exact blind_nothing (.bind blind_arrayArgument fun _ => .bind blind_integerArgument fun _ => blind_setLength _ _)
  | arrayPush =>
      exact blind_nothing (.bind blind_arrayArgument fun _ => .bind blind_argument fun _ => blind_pushItem _ _)
  | arrayConcat => exact .bind blind_arrayArgument fun _ => .bind blind_arrayArgument fun _ => blind_add _ _
  | arraySpan =>
      exact .reading (fun _ => rfl) fun _ => .bind blind_arrayArgument fun _ => .bind blind_integerArgument fun _ =>
        .bind blind_integerArgument fun _ => blind_makeArray _
  | arrayReversed => exact .bind blind_arrayArgument fun _ => blind_reverse _
  | arrayCopy => exact .reading (fun _ => rfl) fun _ => .bind blind_arrayArgument fun _ => blind_makeArray _
  | objectName => exact .reading (fun _ => rfl) fun _ => .bind blind_objectArgument fun _ => .pure _
  | objectSet =>
      exact blind_nothing (.bind blind_objectArgument fun _ => .bind blind_nameArgument fun _ =>
        .bind blind_argument fun _ => blind_writeMember _ _ _)
  | objectGet => exact .bind blind_objectArgument fun _ => .bind blind_nameArgument fun _ => blind_getMember _ _
  | objectContains =>
      exact .reading (fun _ => rfl) fun _ => .bind blind_objectArgument fun _ =>
        .bind blind_nameArgument fun _ => .pure _
  | objectNames => exact .reading (fun _ => rfl) fun _ => .bind blind_objectArgument fun _ => blind_makeArray _
  | functionParams => exact blind_functionArgument_bind (fun _ => rfl) fun _ => blind_makeArray _
  | functionName | functionArity => exact blind_functionArgument_bind (fun _ => rfl) fun _ => .pure _
  | functionDebug => exact blind_functionArgument_bind (fun g => by simp) fun _ => .pure _

end Operation

end LineScript
