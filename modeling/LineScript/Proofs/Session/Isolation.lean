import LineScript.Proofs.Evaluation.CallDepth
import LineScript.Proofs.Evaluation.Placement
/-!
# Runs are isolated from each other

What came before a run is nothing to it, if the session has no library. The heap and the scopes that earlier runs and
calls by the host have left behind are out of its reach, the number of calls is again what it was, and the handles of
its own values, which count from where the others stop, are not to be seen. It ends as on a new machine.
-/

namespace LineScript

/-- What a host can do with a session: read a source, run a program, and call a function with values of any earlier
run. The bounds on the steps are the host's as well, so that a run may have been stopped anywhere. -/
inductive HostStep where
  | compile (source text : String)
  | run (fuel : Nat) (p : Program)
  | call (fuel : Nat) (f : Value) (args : List Value)

/-- What a host sees of the end of a run: the type and the text of the result, or why there is none. -/
inductive Outcome where
  | result (tag : Tag) (text : String)
  | interrupted (e : Interrupt)

namespace Session

/-- The machine that a step leaves behind, however it ends. -/
def after (s : Session) (m : Machine) : HostStep → Machine
  | .compile source text => (compile source text m).state
  | .run fuel p => (runWith fuel s p m).state
  | .call fuel f args => (Eval.execute fuel (.call f args) m).state

def outcome : EStateM.Result Interrupt Machine Value → Outcome
  | .ok v m => .result v.tag (m.heap.display v)
  | .error e _ => .interrupted e

/-! ### Earlier steps -/

theorem depth_after (s : Session) (m : Machine) (step : HostStep) : (s.after m step).depth = m.depth := by
  cases step with
  | compile source text =>
      rw [after, compile]
      cases Program.parse source text <;> rfl
  | run fuel p => exact (calls_runWith fuel s p m).1
  | call fuel f args =>
      exact (Eval.keeps_execute Code.any fuel ⟨0⟩ (.call f args) trivial m (Code.any_machine _)).depth_eq

theorem depth_foldl_after (s : Session) (m : Machine) (steps : List HostStep) :
    (steps.foldl s.after m).depth = m.depth := by
  induction steps generalizing m with
  | nil => rfl
  | cons step rest ih => rw [List.foldl_cons, ih, depth_after]

/-! ### Two runs -/

/-- A run starts behind what is old as on a new machine. -/
theorem behind_start (limit : Nat) (console : Console) {m : Machine} (hdepth : m.depth = 0) :
    (Eval.behind m).machine (start ⟨[], limit⟩ (.ofConsole console)).machine (start ⟨[], limit⟩ m).machine := by
  have hscopes : Scopes.Behind m Scopes.empty m.scopes := by
    simp only [Scopes.Behind, Scopes.contents, Scopes.empty, Array.map_empty, Array.append_empty]
  have hheap : m.heap = Heap.empty.behind m := by
    simp only [Heap.behind, Heap.empty, Array.map_empty, Array.append_empty]
  exact ⟨hheap, (hscopes.addFrame [] _ _).2, hdepth.symm, rfl, Code.scripts.heap_empty⟩

theorem outcome_finish (arena : ArenaId) (limit : Nat) (result : EStateM.Result Interrupt Machine Value) :
    outcome (finish arena limit result) = outcome result := by
  cases result with
  | ok v m => rfl
  | error e m => cases e <;> rfl

theorem outcome_eq_of_results {old : Machine} {result result' : EStateM.Result Interrupt Machine Value}
    (hresults : (Eval.behind old).Results (Eval.behind old).value result result') :
    outcome result' = outcome result := by
  cases hresults with
  | @ok v v' m m' hv hm =>
      subst hv
      rw [outcome, outcome, hm.heap, Heap.display_behind, Value.tag_behind]
  | error e hm => rfl

theorem outcome_runWith (limit fuel : Nat) (p : Program) (console : Console) {m : Machine} (hdepth : m.depth = 0) :
    outcome (runWith fuel ⟨[], limit⟩ p m) = outcome (runWith fuel ⟨[], limit⟩ p (.ofConsole console)) := by
  have hroot : (Eval.behind m).scope (start ⟨[], limit⟩ (.ofConsole console)).root (start ⟨[], limit⟩ m).root := rfl
  have hbody : ∀ n ∈ p.body, (Eval.behind m).node n := fun _ _ => trivial
  -- What is old is the whole machine that the run finds.
  have hresults := Likeness.Actions.statements (Eval.behind_lawful.execute fuel) hroot hbody Eval.behind_lawful.none _ _
    (behind_start limit console hdepth)
  rw [runWith, runWith, outcome_finish, outcome_finish]
  exact outcome_eq_of_results hresults

end Session

/-! What could be left over from earlier steps is all in the machine. The stacks of renderings and of comparisons are
outside it, and no step leaves anything on them, wherever it is stopped: a comparison gives back any stack that it
begins with (`equal_decides_bisimilar`), and so does a rendering, also one that its formatter refuses to go on with
(`rendering_marks_cycles`). So each begins with the empty stack, as in `Heap.equal` and `Heap.display`. -/

/-- **Runs are isolated from each other.** Whatever a host has done with a session without a library, a program that is
run then ends as it does on a new machine: with a result of the same type and the same text, or with the same
interruption. -/
theorem runs_are_isolated (limit : Nat) (steps : List HostStep) (console console' : Console) (fuel : Nat)
    (p : Program) :
    Session.outcome
        (Session.runWith fuel ⟨[], limit⟩ p (steps.foldl (Session.after ⟨[], limit⟩) (.ofConsole console))) =
      Session.outcome (Session.runWith fuel ⟨[], limit⟩ p (.ofConsole console')) := by
  have hdepth := Session.depth_foldl_after ⟨[], limit⟩ (.ofConsole console) steps
  exact Session.outcome_runWith limit fuel p console' hdepth

end LineScript
