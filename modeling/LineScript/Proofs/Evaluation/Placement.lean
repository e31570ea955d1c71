import LineScript.Proofs.Evaluation.Simulation
import LineScript.Proofs.Heap.Placement
import LineScript.Proofs.Scope
/-!
# Machines behind other machines

A program that is run where another machine has stopped does what it would do on a machine of its own, behind everything
that is old: it gets at the old frames as little as at the old heap. Of the scopes only the variables of their frames
count. The arenas are left out, since no evaluation looks at them.
-/

namespace LineScript

variable {old : Machine}

/-! ### Variables -/

namespace Scopes

/-- The variables of each frame. -/
def contents (s : Scopes) : Array Bindings :=
  s.frames.map (·.bindings)

theorem size_contents (s : Scopes) : s.contents.size = s.frames.size :=
  Array.size_map

theorem bindings_eq (s : Scopes) (id : FrameId) : s.bindings id = s.contents[id.index]?.getD [] := by
  rw [contents, Array.getElem?_map]
  rfl

theorem contents_define (s : Scopes) (id : FrameId) (name : String) (v : Value) :
    (s.define id name v).contents = s.contents.modify id.index (Bindings.insert name v) := by
  apply Array.ext_getElem?
  intro i
  simp only [contents, define, Array.getElem?_map, Array.getElem?_modify]
  split
  · rw [Option.map_map, Option.map_map]
    rfl
  · rfl

theorem contents_addFrame (s : Scopes) (bindings : Bindings) (arena : Option ArenaId) :
    (s.addFrame bindings arena).2.contents = s.contents.push bindings :=
  Array.map_push

theorem contents_capture (s : Scopes) (scope : Scope) : (s.capture scope).contents = s.contents := by
  rw [contents, frames_capture, contents]

/-- The frames of `s'` are old ones and behind them those of `s`. -/
def Behind (old : Machine) (s s' : Scopes) : Prop :=
  s'.contents = old.scopes.contents ++ s.contents.map (·.behind old)

namespace Behind

variable {s s' : Scopes} (hs : Behind old s s')
include hs

theorem bindings (id : FrameId) : s'.bindings (id.behind old) = (s.bindings id).behind old := by
  rw [bindings_eq, bindings_eq, hs, FrameId.behind, ← size_contents, getElem?_behind]
  cases s.contents[id.index]? <;> rfl

theorem get? (scope : Scope) (name : String) :
    s'.get? (scope.behind old) name = (s.get? scope name).map (·.behind old) := by
  have hchain : (scope.behind old).chain = scope.chain.map (·.behind old) := rfl
  rw [Scopes.get?, Scopes.get?, hchain]
  induction scope.chain with
  | nil => rfl
  | cons id rest ih =>
      rw [List.map_cons, List.findSome?_cons, List.findSome?_cons, hs.bindings, Bindings.get?_behind]
      cases (s.bindings id).get? name with
      | none => exact ih
      | some v => rfl

theorem binder? (scope : Scope) (name : String) :
    s'.binder? (scope.behind old) name = (s.binder? scope name).map (·.behind old) := by
  have hcontains (id : FrameId) : (s'.bindings (id.behind old)).contains name = (s.bindings id).contains name := by
    rw [hs.bindings]
    unfold Bindings.contains
    rw [Bindings.get?_behind, Option.isSome_map]
  have hchain : (scope.behind old).chain = scope.chain.map (·.behind old) := rfl
  rw [Scopes.binder?, Scopes.binder?, hchain, List.find?_map]
  exact congrArg (fun holds => (scope.chain.find? holds).map _) (funext hcontains)

theorem assign (scope : Scope) (name : String) (v : Value) :
    Behind old (s.assign scope name v) (s'.assign (scope.behind old) name (v.behind old)) := by
  have hframe : (s'.binder? (scope.behind old) name).getD (scope.behind old).frame =
      ((s.binder? scope name).getD scope.frame).behind old := by
    rw [hs.binder?]
    cases s.binder? scope name <;> rfl
  rw [Behind, Scopes.assign, Scopes.assign, hframe, contents_define, contents_define, hs, FrameId.behind,
    ← size_contents]
  exact modify_behind (Bindings.insert_behind name v) _

theorem addFrame (bindings : LineScript.Bindings) (arena arena' : Option ArenaId) :
    (s'.addFrame (bindings.behind old) arena').1 = (s.addFrame bindings arena).1.behind old ∧
      Behind old (s.addFrame bindings arena).2 (s'.addFrame (bindings.behind old) arena').2 := by
  constructor
  · refine congrArg FrameId.mk ?_
    rw [← size_contents, hs, Array.size_append, Array.size_map, size_contents, size_contents]
    rfl
  · rw [Behind, contents_addFrame, contents_addFrame, hs]
    exact push_behind bindings

theorem capture (scope : Scope) : Behind old (s.capture scope) (s'.capture (scope.behind old)) := by
  rw [Behind, contents_capture, contents_capture]
  exact hs

end Behind

end Scopes

/-! ### Machines -/

/-- The heap and the frames of `m'` are old ones and behind them those of `m`, on which are scripts only. The two are in
the same number of calls. -/
structure Machine.Behind (old m m' : Machine) : Prop where
  heap : m'.heap = m.heap.behind old
  scopes : Scopes.Behind old m.scopes m'.scopes
  depth : m.depth = m'.depth
  limit : m.limit = m'.limit
  scripts : Code.scripts.heap m.heap

namespace Eval

variable {α β : Type}

def behind (old : Machine) : Likeness where
  node _ := True
  value x y := y = x.behind old
  scope x y := y = x.behind old
  machine := Machine.Behind old

theorem behind_onHeap {move : α → β} {action : Action Heap α} {action' : Action Heap β}
    (hsteady : ∀ home, Steady Code.scripts home (onHeap action)) (hmoved : Moved old move action action') :
    (behind old).Actions (fun a b => b = move a) (onHeap action) (onHeap action') := by
  intro m m' hm
  have hscripts := (((hsteady ⟨0⟩).steps m ⟨hm.scripts, trivial⟩).evolves.machine_code ⟨hm.scripts, trivial⟩).1
  have haction := hmoved m.heap
  rw [onHeap_eq] at hscripts
  rw [onHeap_eq, onHeap_eq, hm.heap, haction]
  cases hrun : action m.heap with
  | ok a h =>
      rw [hrun] at hscripts
      exact .ok rfl ⟨rfl, hm.scopes, hm.depth, hm.limit, hscripts⟩
  | error e h =>
      rw [hrun] at hscripts
      exact .error e ⟨rfl, hm.scopes, hm.depth, hm.limit, hscripts⟩

theorem behind_onHeap_unit {action action' : Action Heap Unit}
    (hsteady : ∀ home, Steady Code.scripts home (onHeap action)) (hmoved : Moved old (fun _ => ()) action action') :
    (behind old).Actions Eq (onHeap action) (onHeap action') :=
  (behind_onHeap hsteady hmoved).mono fun _ _ _ => rfl

theorem behind_onScopes {related : α → β → Prop} {step : Scopes → α × Scopes} {step' : Scopes → β × Scopes}
    (hstep : ∀ s s', Scopes.Behind old s s' →
      related (step s).1 (step' s').1 ∧ Scopes.Behind old (step s).2 (step' s').2) :
    (behind old).Actions related (onScopes step) (onScopes step') := by
  intro m m' hm
  obtain ⟨hrelated, hscopes⟩ := hstep m.scopes m'.scopes hm.scopes
  exact .ok hrelated ⟨hm.heap, hscopes, hm.depth, hm.limit, hm.scripts⟩

theorem eq_of_bindings {bindings bindings' : Bindings} (h : (behind old).Bindings bindings bindings') :
    bindings' = bindings.behind old := by
  induction h with
  | nil => rfl
  | @cons x y _ _ hhead _ ih =>
      obtain ⟨name, v⟩ := x
      obtain ⟨name', v'⟩ := y
      obtain ⟨rfl, rfl⟩ := hhead
      exact congrArg _ ih

theorem eq_of_values {vs vs' : List Value} (h : List.Forall₂ (behind old).value vs vs') :
    vs' = vs.map (·.behind old) := by
  induction h with
  | nil => rfl
  | cons hhead _ ih =>
      subst hhead
      exact congrArg _ ih

/-- A piece of work done behind what is old is the work done by itself. -/
theorem behind_lawful : (behind old).Lawful where
  child _ _ := trivial
  none := rfl
  bool _ := rfl
  literal {p value} _ := by cases value <;> rfl
  tag_eq {x y} hvalue := by
    subst hvalue
    exact x.tag_behind.symm
  eq_bool hvalue := hvalue
  array {id y} hvalue := by
    refine ⟨id.behind old, hvalue, fun m m' hm place => ?_⟩
    rw [hm.heap, Heap.items_behind, Array.getElem?_map]
    cases (m.heap.items id)[place]? with
    | none => exact .none
    | some v => exact .some rfl
  function {id y} hvalue := by
    refine ⟨id.behind old, hvalue, fun m m' hm => ?_⟩
    have hcode := Code.function_of_heap hm.scripts id
    rw [hm.heap, Heap.function_behind]
    generalize m.heap.function id = f at hcode ⊢
    obtain ⟨name, params, body⟩ := f
    cases body with
    | script body scope => exact .script (fun _ _ => trivial) rfl
    | native operation =>
        obtain ⟨hparams, rfl⟩ := hcode
        obtain rfl := List.eq_nil_of_length_eq_zero hparams
        exact .idle name
  calls hm := ⟨hm.depth, hm.limit, fun _ => ⟨hm.heap, hm.scopes, rfl, hm.limit, hm.scripts⟩⟩
  bound {scope scope' m m'} name hscope hm := by
    subst hscope
    rw [hm.scopes.get?]
    cases m.scopes.get? scope name with
    | none => exact .none
    | some v => exact .some rfl
  writeVariable name v v' hscope hv := by
    subst hscope hv
    exact behind_onScopes fun _ _ hs => ⟨rfl, hs.assign _ name v⟩
  newChild {scope scope' bindings bindings'} hscope hbindings := by
    subst hscope
    obtain rfl := eq_of_bindings hbindings
    refine behind_onScopes fun s s' hs => ?_
    obtain ⟨hframe, hadded⟩ := hs.addFrame bindings (s.arena? scope.frame) (s'.arena? (scope.behind old).frame)
    exact ⟨congrArg (Scope.mk · _) hframe, hadded⟩
  capture hscope := by
    subst hscope
    exact behind_onScopes fun _ _ hs => ⟨rfl, hs.capture _⟩
  newFunction {scope scope'} name params body _ hscope := by
    subst hscope
    intro m m' hm
    have hmade : m'.heap.newFunction ⟨name, params, .script body (scope.behind old)⟩ = _ :=
      hm.heap ▸ m.heap.newFunction_behind ⟨name, params, .script body scope⟩
    refine .ok (congrArg Prod.fst hmade) ⟨congrArg Prod.snd hmade, hm.scopes, hm.depth, hm.limit, fun f hf => ?_⟩
    rcases Array.mem_push.1 hf with hf | rfl
    · exact hm.scripts f hf
    · exact fun _ _ => trivial
  binary op x x' y y' hx hy := by
    subst hx hy
    exact behind_onHeap (fun _ => .applyBinary op x y) (Operation.moved_binary op x y)
  unary op x x' hx := by
    subst hx
    exact behind_onHeap (fun _ => .applyUnary op x) (Operation.moved_unary op x)
  readMember name x x' hx := by
    subst hx
    exact behind_onHeap (fun _ => .onHeap (Operation.regular_readMember x name)) (Operation.moved_readMember x name)
  writeMember name x x' v v' hx hv := by
    subst hx hv
    exact behind_onHeap_unit (fun _ => .onHeap (Operation.regular_writeMember x name v))
      (Operation.moved_writeMember x name v)
  list {p items vs vs'} _ _ hvs := by
    obtain rfl := eq_of_values hvs
    exact behind_onHeap (fun _ => .onHeap (Operation.regular_makeArray _))
      (Operation.moved_makeArray List.map_toArray.symm)
  range {x x' y y' z z'} hx hy hz := by
    subst hx hy
    obtain rfl : z' = z.map (·.behind old) := by
      cases hz with
      | none => rfl
      | some hz => exact congrArg some hz
    exact behind_onHeap (fun _ => .onHeap (Operation.regular_range x y z)) (Operation.moved_range x y z)
  readItem {x x' i i'} hx hi := by
    subst hx hi
    exact behind_onHeap (fun _ => .onHeap (Operation.regular_readItem x i)) (Operation.moved_readItem x i)
  writeItem {x x' i i' v v'} hx hi hv := by
    subst hx hi hv
    exact behind_onHeap_unit (fun _ => .onHeap (Operation.regular_writeItem x i v)) (Operation.moved_writeItem x i v)

end Eval

end LineScript
