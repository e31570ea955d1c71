import LineScript.Program.Equality
import LineScript.Proofs.Evaluation.Simulation
import LineScript.Proofs.Heap.Lengths
import LineScript.Proofs.Program.Lengths
import LineScript.Session
/-!
# Programs keep to the limit of lengths

No string and no array that a program can get hold of is longer than the limit, at no time: what a literal or a list is
written for is bounded by the source, what an operation makes has been looked at, and everything else is handed on. An
evaluation that looks at everything before and after each piece of work, and stops at the first thing that is too long,
is therefore the evaluation itself.
-/

namespace LineScript

/-! ### Machines on which nothing is too long -/

def Scopes.Fits (s : Scopes) : Prop :=
  ∀ frame ∈ s.frames, frame.bindings.Fits

instance (s : Scopes) : Decidable s.Fits :=
  inferInstanceAs (Decidable (∀ frame ∈ s.frames, frame.bindings.Fits))

/-- No array of the heap is longer than the limit, and no string that is an item, a member or a variable. -/
def Machine.Fits (m : Machine) : Prop :=
  m.heap.Fits ∧ m.scopes.Fits

instance (m : Machine) : Decidable m.Fits :=
  inferInstanceAs (Decidable (_ ∧ _))

/-- The function is a script's, and no literal and no list in it is longer than the limit. -/
def Function.Fits (f : Function) : Prop :=
  match f.body with
  | .script body _ => ∀ n ∈ body, n.Fits maxLength
  | .native _ => False

/-- Nothing on the machine is too long, and nothing that its functions are written for. -/
structure Machine.Bounded (m : Machine) : Prop where
  fits : m.Fits
  functions : ∀ f ∈ m.heap.functions, f.Fits

theorem Machine.bounded_ofConsole (console : Console) : (Machine.ofConsole console).Bounded :=
  ⟨⟨Heap.fits_empty, fun f hf => (Array.not_mem_empty f hf).elim⟩, fun f hf => (Array.not_mem_empty f hf).elim⟩

namespace Scopes

variable {s : Scopes}

theorem Fits.bindings (hs : s.Fits) (id : FrameId) : (s.bindings id).Fits := by
  unfold Scopes.bindings
  cases hfound : s.frames[id.index]? with
  | none => exact Bindings.fits_nil
  | some frame => exact hs frame (Array.mem_of_getElem? hfound)

theorem Fits.get? (hs : s.Fits) {scope : Scope} {name : String} {v : Value} (hv : s.get? scope name = some v) :
    v.Fits := by
  obtain ⟨id, -, hid⟩ := List.exists_of_findSome?_eq_some hv
  exact (hs.bindings id).get? hid

theorem Fits.assign (hs : s.Fits) (scope : Scope) (name : String) {v : Value} (hv : v.Fits) :
    (s.assign scope name v).Fits := by
  have hinsert (frame : Frame) (hframe : frame.bindings.Fits) :
      ({ frame with bindings := Bindings.insert name v frame.bindings } : Frame).bindings.Fits := hframe.insert name hv
  exact forall_mem_modify hs hinsert _

theorem Fits.addFrame (hs : s.Fits) {bindings : Bindings} (hbindings : bindings.Fits) (arena : Option ArenaId) :
    (s.addFrame bindings arena).2.Fits := by
  intro frame hframe
  rcases Array.mem_push.1 hframe with hframe | rfl
  · exact hs frame hframe
  · exact hbindings

theorem Fits.capture (hs : s.Fits) (scope : Scope) : (s.capture scope).Fits := by
  unfold Scopes.capture
  split <;> exact hs

theorem Fits.release (hs : s.Fits) (arena : ArenaId) : (s.release arena).Fits := by
  have hclear (frame : Frame) (_ : frame.bindings.Fits) : ({ frame with bindings := [] } : Frame).bindings.Fits :=
    Bindings.fits_nil
  have hfold (ids : List FrameId) {s : Scopes} (hs : s.Fits) : (ids.foldl Scopes.clear s).Fits := by
    induction ids generalizing s with
    | nil => exact hs
    | cons id ids ih => exact ih (forall_mem_modify hs hclear id.index)
  exact hfold (s.tracked arena) hs

end Scopes

namespace Eval

variable {α : Type}

/-- The same values and machines, with nothing too long among them. -/
def fitting : Likeness where
  node := Node.Fits maxLength
  value x y := x = y ∧ x.Fits
  scope := Eq
  machine m m' := m = m' ∧ m.Bounded

/-! ### Steps without fuel -/

theorem fitting_onHeap {property : α → Prop} {action : Action Heap α} (haction : Fitting property action) :
    fitting.Actions (fun a b => a = b ∧ property a) (onHeap action) (onHeap action) := by
  rintro m _ ⟨rfl, hm⟩
  obtain ⟨hfits, hfunctions, hproperty⟩ := haction m.heap hm.fits.1
  rw [onHeap_eq]
  cases hrun : action m.heap with
  | ok a h =>
      rw [hrun] at hfits hfunctions
      exact .ok ⟨rfl, hproperty a h hrun⟩ ⟨rfl, ⟨hfits, hm.fits.2⟩, hfunctions ▸ hm.functions⟩
  | error e h =>
      rw [hrun] at hfits hfunctions
      exact .error e ⟨rfl, ⟨hfits, hm.fits.2⟩, hfunctions ▸ hm.functions⟩

theorem fitting_onHeap_unit {action : Action Heap Unit} (haction : Fitting (fun _ => True) action) :
    fitting.Actions Eq (onHeap action) (onHeap action) :=
  (fitting_onHeap haction).mono fun _ _ hrelated => hrelated.1

theorem fitting_onScopes {related : α → α → Prop} {step : Scopes → α × Scopes}
    (hstep : ∀ s, s.Fits → related (step s).1 (step s).1 ∧ (step s).2.Fits) :
    fitting.Actions related (onScopes step) (onScopes step) := by
  rintro m _ ⟨rfl, hm⟩
  obtain ⟨hrelated, hfits⟩ := hstep m.scopes hm.fits.2
  exact .ok hrelated ⟨rfl, ⟨hm.fits.1, hfits⟩, hm.functions⟩

theorem fits_of_bindings {bindings bindings' : Bindings} (h : fitting.Bindings bindings bindings') :
    bindings = bindings' ∧ bindings.Fits := by
  induction h with
  | nil => exact ⟨rfl, nofun⟩
  | @cons x y _ _ hhead _ ih =>
      obtain ⟨name, v⟩ := x
      obtain ⟨name', v'⟩ := y
      obtain ⟨rfl, rfl, hv⟩ := hhead
      exact ⟨congrArg _ ih.1, List.forall_mem_cons.2 ⟨hv, ih.2⟩⟩

theorem fits_of_values {vs vs' : List Value} (h : List.Forall₂ fitting.value vs vs') :
    vs = vs' ∧ ∀ v ∈ vs, v.Fits := by
  induction h with
  | nil => exact ⟨rfl, nofun⟩
  | cons hhead _ ih =>
      obtain ⟨rfl, hv⟩ := hhead
      exact ⟨congrArg _ ih.1, List.forall_mem_cons.2 ⟨hv, ih.2⟩⟩

theorem fitting_lawful : fitting.Lawful where
  child hn hc := hn.child hc
  none := ⟨rfl, Value.fits_of_length rfl⟩
  bool _ := ⟨rfl, Value.fits_of_length rfl⟩
  literal {p value} hn := by
    refine ⟨rfl, ?_⟩
    cases value with
    | string s => exact hn.here
    | _ => exact Value.fits_of_length rfl
  tag_eq hvalue := congrArg Value.tag hvalue.1
  eq_bool hvalue := hvalue.1.symm
  array {id y} hvalue := by
    obtain ⟨rfl, -⟩ := hvalue
    refine ⟨id, rfl, ?_⟩
    rintro m _ ⟨rfl, hm⟩ place
    cases hitem : (m.heap.items id)[place]? with
    | none => exact .none
    | some v => exact .some ⟨rfl, (hm.fits.1.items id).2 v (Array.mem_of_getElem? hitem)⟩
  function {id y} hvalue := by
    obtain ⟨rfl, -⟩ := hvalue
    refine ⟨id, rfl, ?_⟩
    rintro m _ ⟨rfl, hm⟩
    unfold Heap.function
    cases hfound : m.heap.functions[id.index]? with
    | none => exact .idle ""
    | some f =>
        have hf := hm.functions f (Array.mem_of_getElem? hfound)
        obtain ⟨name, params, body⟩ := f
        cases body with
        | script body scope => exact .script hf rfl
        | native operation => exact hf.elim
  calls hm := by
    obtain ⟨rfl, hm⟩ := hm
    exact ⟨rfl, rfl, fun _ => ⟨rfl, hm.fits, hm.functions⟩⟩
  bound {scope scope' m m'} name hscope hm := by
    subst hscope
    obtain ⟨rfl, hm⟩ := hm
    cases hv : m.scopes.get? scope name with
    | none => exact .none
    | some v => exact .some ⟨rfl, hm.fits.2.get? hv⟩
  writeVariable name _ _ hscope hv := by
    obtain ⟨rfl, hv⟩ := hv
    subst hscope
    exact fitting_onScopes fun _ hs => ⟨rfl, hs.assign _ name hv⟩
  newChild hscope hbindings := by
    obtain ⟨rfl, hfits⟩ := fits_of_bindings hbindings
    subst hscope
    exact fitting_onScopes fun _ hs => ⟨rfl, hs.addFrame hfits _⟩
  capture hscope := by
    subst hscope
    exact fitting_onScopes fun _ hs => ⟨rfl, hs.capture _⟩
  newFunction name params body hbody hscope := by
    subst hscope
    rintro m _ ⟨rfl, hm⟩
    refine .ok ⟨rfl, Value.fits_of_length rfl⟩ ⟨rfl, hm.fits, fun f hf => ?_⟩
    rcases Array.mem_push.1 hf with hf | rfl
    · exact hm.functions f hf
    · exact hbody
  binary op _ _ _ _ hx hy := by
    obtain ⟨rfl, hx⟩ := hx
    obtain ⟨rfl, -⟩ := hy
    exact fitting_onHeap (Operation.fitting_binary op hx _)
  unary op _ _ hx := by
    obtain ⟨rfl, -⟩ := hx
    exact fitting_onHeap (Operation.fitting_unary op _)
  readMember name _ _ hx := by
    obtain ⟨rfl, -⟩ := hx
    exact fitting_onHeap (Operation.fitting_readMember _ name)
  writeMember name _ _ _ _ hx hv := by
    obtain ⟨rfl, -⟩ := hx
    obtain ⟨rfl, hv⟩ := hv
    exact fitting_onHeap_unit (Operation.fitting_writeMember _ name hv)
  list hn hlength hvs := by
    obtain ⟨rfl, hfits⟩ := fits_of_values hvs
    refine fitting_onHeap (Operation.fitting_makeArray ⟨?_, fun v hv => hfits v (List.mem_toArray.1 hv)⟩)
    rw [List.size_toArray, hlength]
    exact hn.here
  range hx hy hz := by
    obtain ⟨rfl, -⟩ := hx
    obtain ⟨rfl, -⟩ := hy
    cases hz with
    | none => exact fitting_onHeap (Operation.fitting_range _ _ _)
    | some hz =>
        obtain ⟨rfl, -⟩ := hz
        exact fitting_onHeap (Operation.fitting_range _ _ _)
  readItem hx hi := by
    obtain ⟨rfl, -⟩ := hx
    obtain ⟨rfl, -⟩ := hi
    exact fitting_onHeap (Operation.fitting_readItem _ _)
  writeItem hx hi hv := by
    obtain ⟨rfl, -⟩ := hx
    obtain ⟨rfl, -⟩ := hi
    obtain ⟨rfl, hv⟩ := hv
    exact fitting_onHeap_unit (Operation.fitting_writeItem _ _ hv)

/-! ### Looking at everything on the way -/

/-- None of the values that the work is given is too long. -/
def WorkFits : Work → Prop
  | .node _ _ => True
  | .call f args => f.Fits ∧ ∀ v ∈ args, v.Fits

instance (w : Work) : Decidable (WorkFits w) :=
  match w with
  | .node _ _ => inferInstanceAs (Decidable True)
  | .call _ _ => inferInstanceAs (Decidable (_ ∧ _))

/-- Nothing on the machine that was reached is too long, and neither is the value, if there is one. -/
def ResultFits : EStateM.Result Interrupt Machine Value → Prop
  | .ok v m => v.Fits ∧ m.Fits
  | .error _ m => m.Fits

instance (result : EStateM.Result Interrupt Machine Value) : Decidable (ResultFits result) :=
  match result with
  | .ok _ _ => inferInstanceAs (Decidable (_ ∧ _))
  | .error _ m => inferInstanceAs (Decidable m.Fits)

/-- The evaluation that looks at everything before and after each piece of work, and stops if something is too long. -/
def checked (e : Interrupt) : (fuel : Nat) → Work → Eval Value
  | 0, _ => throw .outOfFuel
  | fuel + 1, w => fun m =>
      if m.Fits ∧ WorkFits w then
        let result := step fuel (checked e fuel) w m
        if ResultFits result then result else .error e result.state
      else .error e m

theorem resultFits_of_results {result result' : EStateM.Result Interrupt Machine Value}
    (hresults : fitting.Results fitting.value result result') :
    result = result' ∧ ResultFits result ∧ result.state.Bounded := by
  cases hresults with
  | ok hvalue hm =>
      obtain ⟨rfl, hv⟩ := hvalue
      obtain ⟨rfl, hm⟩ := hm
      exact ⟨rfl, ⟨hv, hm.fits⟩, hm⟩
  | error e hm =>
      obtain ⟨rfl, hm⟩ := hm
      exact ⟨rfl, hm.fits, hm⟩

theorem eq_of_works {w w' : Work} (hw : fitting.Works w w') : w = w' ∧ WorkFits w := by
  cases hw with
  | node hscope hn =>
      cases hscope
      exact ⟨rfl, trivial⟩
  | call hf hargs =>
      obtain ⟨rfl, hf⟩ := hf
      obtain ⟨rfl, hfits⟩ := fits_of_values hargs
      exact ⟨rfl, hf, hfits⟩

theorem fitting_checked (e : Interrupt) (fuel : Nat) {w w' : Work} (hw : fitting.Works w w') :
    fitting.Actions fitting.value (execute fuel w) (checked e fuel w') := by
  induction fuel generalizing w w' with
  | zero => exact .throw _
  | succ fuel ih =>
      intro m m' hm
      -- The step is the same with checks inside it, so its result passes the check behind it.
      have hresults := fitting_lawful.step ih fuel hw m m' hm
      obtain ⟨heq, hfits, -⟩ := resultFits_of_results hresults
      obtain ⟨rfl, hworkFits⟩ := eq_of_works hw
      obtain ⟨rfl, hbounded⟩ := hm
      have hchecked : checked e (fuel + 1) w m = step fuel (checked e fuel) w m := by
        unfold checked
        rw [if_pos ⟨hbounded.fits, hworkFits⟩]
        dsimp only
        rw [if_pos (heq ▸ hfits)]
      rw [hchecked]
      exact hresults

end Eval

/-! ### Runs -/

open Eval

namespace Session

theorem bounded_start (limit : Nat) {m : Machine} (hm : m.Bounded) :
    (start ⟨[], limit⟩ m).machine.Bounded := by
  have hroot : (start ⟨[], limit⟩ m).machine.scopes.Fits := hm.fits.2.addFrame Bindings.fits_nil _
  exact ⟨⟨hm.fits.1, hroot⟩, hm.functions⟩

theorem fitting_evaluation (limit fuel : Nat) {p : Program} (hbody : ∀ n ∈ p.body, n.Fits maxLength) {m : Machine}
    (hm : m.Bounded) (e : Interrupt) :
    fitting.Results fitting.value
      (statements (Eval.execute fuel) (start ⟨[], limit⟩ m).root .none p.body (start ⟨[], limit⟩ m).machine)
      (statements (checked e fuel) (start ⟨[], limit⟩ m).root .none p.body (start ⟨[], limit⟩ m).machine) := by
  have hscope : fitting.scope (start ⟨[], limit⟩ m).root (start ⟨[], limit⟩ m).root := rfl
  exact Likeness.Actions.statements (fitting_checked e fuel) hscope hbody fitting_lawful.none _ _
    ⟨rfl, bounded_start limit hm⟩

theorem bounded_finish (arena : ArenaId) (limit : Nat) {result : EStateM.Result Interrupt Machine Value}
    (hfits : ResultFits result) (hbounded : result.state.Bounded) :
    ResultFits (finish arena limit result) ∧ (finish arena limit result).state.Bounded := by
  have hrelease : result.state.scopes.Fits → (result.state.scopes.release arena).Fits := (·.release arena)
  cases result with
  | ok v m => exact ⟨⟨hfits.1, hfits.2.1, hrelease hfits.2.2⟩, ⟨hfits.2.1, hrelease hfits.2.2⟩, hbounded.functions⟩
  | error e m =>
      cases e with
      | failure f => exact ⟨⟨hfits.1, hrelease hfits.2⟩, ⟨hfits.1, hrelease hfits.2⟩, hbounded.functions⟩
      | _ => exact ⟨hfits, hfits, hbounded.functions⟩

end Session

/-- **Programs keep to the limit of lengths.** Let a source be no longer than the limit, and let it be run without a
library. Wherever the run has come, no array and no string is longer than the limit either: an evaluation that looked at
the machine, the arguments and the result of every piece of work, and stopped in whatever way when something was too
long, would be the same evaluation. That holds on a new machine, and after such a run on the machine that it left
behind, whether it ended in a value, which is not too long itself, or in a failure. -/
theorem runs_keep_to_length_limit (source text : String) (htext : text.length ≤ maxLength) (p : Program)
    (hparse : Program.parse source text = .ok p) (limit fuel : Nat) :
    (∀ console, (Machine.ofConsole console).Bounded) ∧
      ∀ m : Machine, m.Bounded →
        (∀ e, statements (checked e fuel) (Session.start ⟨[], limit⟩ m).root .none p.body
            (Session.start ⟨[], limit⟩ m).machine =
          statements (execute fuel) (Session.start ⟨[], limit⟩ m).root .none p.body
            (Session.start ⟨[], limit⟩ m).machine) ∧
        ResultFits (Session.runWith fuel ⟨[], limit⟩ p m) ∧ (Session.runWith fuel ⟨[], limit⟩ p m).state.Bounded := by
  refine ⟨Machine.bounded_ofConsole, fun m hm => ?_⟩
  have hbody (n : Node) (hn : n ∈ p.body) : n.Fits maxLength := (Program.fits_of_parse hparse n hn).mono htext
  have hresults (e : Interrupt) := resultFits_of_results (Session.fitting_evaluation limit fuel hbody hm e)
  obtain ⟨-, hfits, hbounded⟩ := hresults .outOfFuel
  exact ⟨fun e => (hresults e).1.symm, Session.bounded_finish _ _ hfits hbounded⟩

/-- A program that makes an array, and a string of its text behind another. -/
def joining : Program where
  source := "s"
  body := [.binary ⟨"s", 1, 4⟩ .add (.literal ⟨"s", 1, 1⟩ (.string "a")) (.list ⟨"s", 1, 5⟩ [])]

set_option maxRecDepth 20000 in
theorem joining_keeps_to_length_limit :
    "'a'+[]".length ≤ maxLength ∧ Program.parse "s" "'a'+[]" = .ok joining ∧
      (∃ m, Session.runWith 8 ⟨[], 1⟩ joining (.ofConsole (.ofInput [])) = .ok (.string "a[]") m) ∧
      (∀ e, statements (checked e 8) (Session.start ⟨[], 1⟩ (.ofConsole (.ofInput []))).root .none joining.body
          (Session.start ⟨[], 1⟩ (.ofConsole (.ofInput []))).machine =
        statements (execute 8) (Session.start ⟨[], 1⟩ (.ofConsole (.ofInput []))).root .none joining.body
          (Session.start ⟨[], 1⟩ (.ofConsole (.ofInput []))).machine) ∧
      ResultFits (Session.runWith 8 ⟨[], 1⟩ joining (.ofConsole (.ofInput []))) := by
  have htext : "'a'+[]".length ≤ maxLength := by decide
  have hparse : Program.parse "s" "'a'+[]" = .ok joining := by decide +kernel
  obtain ⟨hnew, hruns⟩ := runs_keep_to_length_limit "s" "'a'+[]" htext joining hparse 1 8
  obtain ⟨hchecked, hfits, -⟩ := hruns _ (hnew (.ofInput []))
  exact ⟨htext, hparse, ⟨_, rfl⟩, hchecked, hfits⟩

end LineScript
