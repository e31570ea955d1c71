import LineScript.Proofs.Evaluation.Evolution
import LineScript.Session
/-!
# Running ends in no fault of its own

What an operation takes for granted has been looked at before it: the place of an item that is written, the sequence
that is sliced or repeated, the answer of a comparison, the room for a fraction of a length. And a function of the host
is given as many arguments as it has parameters, so one that has the parameters it reads finds its arguments. So a
program ends in a value, in a failure while it runs or in one of input or output, or it goes on. What is left are the
faults of a host: its code panics, or one of its callbacks calls a function that comes back to the console or the hook
that the callback holds.
-/

namespace LineScript

/-- What a failure was met in, unless that is input or output. -/
def Failure.phase? : Failure → Option Phase
  | diagnostic d => some d.cause.phase
  | io _ => none

theorem Failure.phase?_ofCause_ne (cause : RuntimeCause) : (Failure.ofCause cause).phase? ≠ some .reading := by
  intro hreading
  cases hreading

theorem Failure.phase?_orPosition (f : Failure) (p : Position) : (f.orPosition p).phase? = f.phase? := by
  cases f with
  | io text => rfl
  | diagnostic d =>
      obtain ⟨cause, position, notes⟩ := d
      cases position <;> rfl

/-- A failure to read a source is to be expected only of a host that raises one. -/
def Terms.Fails (t : Terms) (f : Failure) : Prop :=
  f.phase? = some .reading → ∃ raised, t.raises raised ∧ raised.phase? = some .reading

/-- A fault is to be expected only of a host that panics, or that comes back to what one of its callbacks holds. -/
def Terms.Faults (t : Terms) (reenters : Prop) (f : Fault) : Prop :=
  (t.panics ∧ ∃ g, f = .ofHost g) ∨ (reenters ∧ f = .alreadyBorrowed)

/-- The end of an action is a result, or a failure or a fault that is to be expected, or that of the fuel. -/
structure Orderly {σ α : Type} (t : Terms) (reenters : Prop) (result : EStateM.Result Interrupt σ α) : Prop where
  fails : result.FailsAs t.Fails
  faults : result.FaultsAs (t.Faults reenters)

namespace Orderly

variable {σ τ α β : Type} {t : Terms} {reenters : Prop}

theorem ok (a : α) (s : σ) : Orderly t reenters (.ok a s : EStateM.Result Interrupt σ α) :=
  ⟨trivial, trivial⟩

theorem mono {reenters' : Prop} {result : EStateM.Result Interrupt σ α} (horderly : Orderly t reenters result)
    (himp : reenters → reenters') : Orderly t reenters' result :=
  ⟨horderly.fails, faultsAs_mono horderly.faults fun _ => .imp_right (.imp_left himp)⟩

theorem mapState {result : EStateM.Result Interrupt σ α} (horderly : Orderly t reenters result) (f : σ → σ) :
    Orderly t reenters (result.mapState f) :=
  ⟨(failsAs_mapState f result).2 horderly.fails, (faultsAs_mapState f result).2 horderly.faults⟩

/-- An interruption is as orderly in another state and in the place of another result. -/
theorem passed {e : Interrupt} {s : σ} (horderly : Orderly t reenters (.error e s : EStateM.Result Interrupt σ α))
    (s' : τ) : Orderly t reenters (.error e s' : EStateM.Result Interrupt τ β) :=
  ⟨failsAs_error horderly.fails s', faultsAs_error horderly.faults s'⟩

end Orderly

/-- Any program, with functions of the host that honour the terms and have the parameters they take for granted. -/
def Code.careful (t : Terms) : Code :=
  .under (fun _ => True) (fun _ _ => trivial) t False

theorem Code.Evolves.borrowed_eq {code : Code} {home : FrameId} {m m' : Machine} (hevolves : code.Evolves home m m') :
    m'.borrowed = m.borrowed := by
  induction hevolves with
  | trans _ _ hfirst hsecond => exact hsecond.trans hfirst
  | inside _ _ _ _ hinner => exact hinner
  | nested _ hcall => exact hcall
  | borrowing cell _ hheld =>
      show List.erase _ cell = _
      rw [hheld]
      exact List.erase_cons_head cell _
  | _ => rfl

namespace Eval

variable {α β : Type} {home : FrameId} {t : Terms} {reenters : List Cell → Prop}

/-- On every machine with such code the action ends orderly, where it may depend on what callbacks hold whether the host
comes back to it. -/
def EndsOrderly (t : Terms) (reenters : List Cell → Prop) (action : Eval α) : Prop :=
  ∀ m, (Code.careful t).machine m → Orderly t (reenters m.borrowed) (action m)

namespace EndsOrderly

theorem steady {action : Eval α} (haction : Steady (Code.careful t) home action) : EndsOrderly t reenters action := by
  intro m hm
  obtain ⟨-, -, hfaults, hfails⟩ := haction.steps m hm
  replace hfaults := hfaults.resolve_left id
  cases hrun : action m with
  | ok a m₁ => exact .ok a m₁
  | error e m₁ =>
      rw [hrun] at hfaults hfails
      cases e with
      | failure f =>
          refine ⟨?_, trivial⟩
          cases hfails with
          | cause cause => exact fun hreading => (Failure.phase?_ofCause_ne cause hreading).elim
          | host hraises => exact fun hreading => ⟨f, hraises, hreading⟩
      | fault f => exact ⟨trivial, .inl hfaults⟩
      | outOfFuel => exact ⟨trivial, trivial⟩

theorem bind {action : Eval α} {next : α → Eval β} (hkeeps : Keeps (Code.careful t) home action)
    (haction : EndsOrderly t reenters action) (hnext : ∀ a, EndsOrderly t reenters (next a)) :
    EndsOrderly t reenters (action >>= next) := by
  intro m hm
  have hevolves := hkeeps m hm
  have horderly := haction m hm
  cases hrun : action m with
  | ok a m₁ =>
      rw [hrun] at hevolves
      rw [Action.bind_of_ok hrun]
      have hrest := hnext a m₁ (hevolves.machine_code hm)
      rwa [show m₁.borrowed = m.borrowed from hevolves.borrowed_eq] at hrest
  | error e m₁ =>
      rw [hrun] at horderly
      rw [Action.bind_of_error hrun]
      exact horderly.passed m₁

theorem located (p : Position) {action : Eval α} (haction : EndsOrderly t reenters action) :
    EndsOrderly t reenters (located p action) := by
  intro m hm
  obtain ⟨hfails, hfaults⟩ := haction m hm
  refine ⟨(failsAs_located p action m).2 (failsAs_mono hfails fun f hf hreading => ?_),
    (faultsAs_located p action m).2 hfaults⟩
  exact hf ((f.phase?_orPosition p).symm.trans hreading)

theorem nested {action : Eval α} (haction : EndsOrderly t reenters action) :
    EndsOrderly t reenters (nested action) := by
  intro m hm
  rcases Nat.lt_or_ge m.depth m.limit with hlimit | hlimit
  · rw [nested_of_lt action hlimit]
    exact (haction { m with depth := m.depth + 1 } hm).mapState _
  · rw [nested_of_le action hlimit]
    exact ⟨fun hreading => (Failure.phase?_ofCause_ne _ hreading).elim, trivial⟩

/-- A failure that is handed on is as orderly as when it was met. -/
theorem caught {action : Eval Value} {next : Reply → Eval α} (hkeeps : Keeps (Code.careful t) home action)
    (haction : EndsOrderly t reenters action) (hok : ∀ v, EndsOrderly t reenters (next (.ok v)))
    (herror : ∀ f, next (.error f) = throw (.failure f) ∨ EndsOrderly t reenters (next (.error f))) :
    EndsOrderly t reenters (attempt action >>= next) := by
  intro m hm
  have hevolves := hkeeps m hm
  have horderly := haction m hm
  refine attempt_bind_cases herror (fun v m₁ hrun => ?_) (fun f m₁ hcaught hrun => ?_) fun e m₁ hrun => ?_
  · rw [hrun] at hevolves
    have hrest := hok v m₁ (hevolves.machine_code hm)
    rwa [show m₁.borrowed = m.borrowed from hevolves.borrowed_eq] at hrest
  · rw [hrun] at hevolves
    have hrest := hcaught m₁ (hevolves.machine_code hm)
    rwa [show m₁.borrowed = m.borrowed from hevolves.borrowed_eq] at hrest
  · rw [hrun] at horderly
    exact horderly.passed m₁

/-- Inside a callback, the host may come back to what the callback holds. It does not if it calls no functions. -/
theorem borrowing (cell : Cell) {action : Eval α}
    (haction : EndsOrderly t (fun held => t.calls ∨ held ≠ []) action)
    (hcalls : ¬ t.calls → EndsOrderly t (fun _ => False) action) :
    EndsOrderly t (fun held => t.calls ∨ held ≠ []) (borrowing cell action) := by
  intro m hm
  by_cases hcell : cell ∈ m.borrowed
  · rw [borrowing_of_mem action hcell]
    exact ⟨trivial, .inr ⟨.inr (List.ne_nil_of_mem hcell), rfl⟩⟩
  · rw [borrowing_of_not_mem action hcell]
    have hinside : Orderly t t.calls (action { m with borrowed := cell :: m.borrowed }) := by
      by_cases h : t.calls
      · simpa [h] using haction { m with borrowed := cell :: m.borrowed } hm
      · simpa [h] using hcalls h { m with borrowed := cell :: m.borrowed } hm
    exact (hinside.mono .inl).mapState _

end EndsOrderly

end Eval

/-! ### Runs -/

open Eval

namespace Session

/-- The end of a run changes the scopes and the limit of calls. -/
theorem state_finish (arena : ArenaId) (limit : Nat) (result : EStateM.Result Interrupt Machine Value) :
    ∃ scopes, (finish arena limit result).state = { result.state with scopes, limit } := by
  cases result with
  | ok v m => exact ⟨_, rfl⟩
  | error e m => cases e <;> exact ⟨_, rfl⟩

end Session

end LineScript
