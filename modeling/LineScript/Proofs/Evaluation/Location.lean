import LineScript.Proofs.Evaluation.Evolution
import LineScript.Session
/-!
# Where failures are located

A failure that has a position keeps it. One that has none is given that of the innermost node it passes that is not a
literal or a block, so every diagnostic of a run names a place in the code that ran. That failures keep their positions
is shown by an evaluation that turns a failure into something that no node touches, as soon as any work ends in it.
-/

namespace LineScript

namespace Failure

/-- The failure is not given a position any more: it has one, or it is of a kind that has none. -/
def isFixed : Failure → Bool
  | diagnostic d => d.position.isSome
  | io _ => true

/-- A failure as the host may raise it: while running and without a position, or of input and output. -/
def IsHosts : Failure → Prop
  | diagnostic d => d.cause.phase = .running ∧ d.position = none
  | io _ => True

variable {f : Failure} {p : Position}

theorem orPosition_of_isFixed (hf : f.isFixed = true) (p : Position) : f.orPosition p = f := by
  cases f with
  | io text => rfl
  | diagnostic d =>
      obtain ⟨cause, position, notes⟩ := d
      cases position with
      | none => cases hf
      | some q => rfl

theorem isFixed_orPosition (f : Failure) (p : Position) : (f.orPosition p).isFixed = true := by
  cases f with
  | io text => rfl
  | diagnostic d =>
      obtain ⟨cause, position, notes⟩ := d
      cases position <;> rfl

end Failure

theorem Failure.not_isHosts_of_isFixed {d : Diagnostic} (hd : (diagnostic d).isFixed = true) :
    ¬ (diagnostic d).IsHosts := by
  rintro ⟨-, hposition⟩
  rw [isFixed, hposition] at hd
  cases hd

/-! ### Where a failure comes from -/

/-- The failure is one of some known ones, or one of them that had no position and was given one of these. -/
inductive Failure.Originates (known : Failure → Prop) (places : Position → Prop) : Failure → Prop
  | known {f : Failure} (hf : known f) : Originates known places f
  | located {f : Failure} {p : Position} (hf : known f) (hopen : f.isFixed = false) (hp : places p) :
      Originates known places (f.orPosition p)

theorem Failure.Originates.orPosition {known : Failure → Prop} {places : Position → Prop} {f : Failure} {p : Position}
    (hf : f.Originates known places) (hp : places p) : (f.orPosition p).Originates known places := by
  cases hf with
  | known hf =>
      cases hfixed : f.isFixed with
      | true =>
          rw [orPosition_of_isFixed hfixed]
          exact .known hf
      | false => exact .located hf hfixed hp
  | located hf hopen hq =>
      rw [orPosition_of_isFixed (isFixed_orPosition _ _)]
      exact .located hf hopen hq

/-- A diagnostic that was not known is one that was, without the position that it was given. -/
theorem Failure.Originates.exists_position {known : Failure → Prop} {places : Position → Prop} {d : Diagnostic}
    (hd : (diagnostic d).Originates known places) (hnew : ¬ known (.diagnostic d)) :
    ∃ p, places p ∧ d.position = some p ∧ known (.diagnostic { d with position := none }) := by
  generalize hf : diagnostic d = f at hd
  cases hd with
  | known hknown => exact (hnew (hf ▸ hknown)).elim
  | @located g p hknown hopen hp =>
      cases g with
      | io text => cases hopen
      | diagnostic e =>
          obtain ⟨cause, position, notes⟩ := e
          cases position with
          | some q => cases hopen
          | none =>
              cases hf
              exact ⟨p, hp, rfl, hknown⟩

namespace Eval

variable {code : Code} {home : FrameId} {known : Failure → Prop} {places : Position → Prop} {α β : Type}

/-- On every machine with such code, the action fails in a failure that originates there. -/
def FailsFrom (code : Code) (known : Failure → Prop) (places : Position → Prop) (action : Eval α) : Prop :=
  ∀ m, code.machine m → (action m).FailsAs (Failure.Originates known places)

namespace FailsFrom

theorem steady (hknown : ∀ {f}, code.Raises f → known f) {action : Eval α} (haction : Steady code home action) :
    FailsFrom code known places action := fun m hm =>
  failsAs_mono (haction.steps m hm).fails fun _ hraises => .known (hknown hraises)

theorem bind {action : Eval α} {next : α → Eval β} (hkeeps : Keeps code home action)
    (haction : FailsFrom code known places action) (hnext : ∀ a, FailsFrom code known places (next a)) :
    FailsFrom code known places (action >>= next) := by
  intro m hm
  have hevolves := hkeeps m hm
  have hfails := haction m hm
  cases hrun : action m with
  | ok a m₁ =>
      rw [hrun] at hevolves
      rw [Action.bind_of_ok hrun]
      exact hnext a m₁ (hevolves.machine_code hm)
  | error e m₁ =>
      rw [hrun] at hfails
      rw [Action.bind_of_error hrun]
      exact failsAs_error hfails m₁

theorem located {action : Eval α} {p : Position} (hp : places p) (haction : FailsFrom code known places action) :
    FailsFrom code known places (located p action) := by
  intro m hm
  rw [failsAs_located]
  exact failsAs_mono (haction m hm) fun f hf => hf.orPosition hp

theorem nested (hcause : ∀ cause, known (.ofCause cause)) {action : Eval α}
    (haction : FailsFrom code known places action) : FailsFrom code known places (nested action) := by
  intro m hm
  rcases Nat.lt_or_ge m.depth m.limit with hlimit | hlimit
  · rw [nested_of_lt action hlimit, failsAs_mapState]
    exact haction { m with depth := m.depth + 1 } hm
  · rw [nested_of_le action hlimit]
    exact .known (hcause _)

/-- A failure that is handed on comes from where it came from before. -/
theorem caught {action : Eval Value} {next : Reply → Eval α} (hkeeps : Keeps code home action)
    (haction : FailsFrom code known places action) (hok : ∀ v, FailsFrom code known places (next (.ok v)))
    (herror : ∀ f, next (.error f) = throw (.failure f) ∨ FailsFrom code known places (next (.error f))) :
    FailsFrom code known places (attempt action >>= next) := by
  intro m hm
  have hevolves := hkeeps m hm
  have hfails := haction m hm
  refine attempt_bind_cases herror (fun v m₁ hrun => ?_) (fun f m₁ hcaught hrun => ?_) fun e m₁ hrun => ?_
  · rw [hrun] at hevolves
    exact hok v m₁ (hevolves.machine_code hm)
  · rw [hrun] at hevolves
    exact hcaught m₁ (hevolves.machine_code hm)
  · rw [hrun] at hfails
    exact failsAs_error hfails m₁

theorem borrowing (cell : Cell) {action : Eval α} (haction : FailsFrom code known places action) :
    FailsFrom code known places (borrowing cell action) := by
  intro m hm
  by_cases hcell : cell ∈ m.borrowed
  · rw [borrowing_of_mem action hcell]
    trivial
  · rw [borrowing_of_not_mem action hcell, failsAs_mapState]
    exact haction { m with borrowed := cell :: m.borrowed } hm

end FailsFrom

def originLaw (code : Code) (known : Failure → Prop) (places : Position → Prop)
    (hknown : ∀ {f}, code.Raises f → known f) : StepLaw code Unit where
  Holds home action := Keeps code home (action ()) ∧ FailsFrom code known places (action ())
  Places := places
  steady haction := ⟨haction.keeps, .steady hknown haction⟩
  bind haction hnext := ⟨haction.1.bind fun a => (hnext a).1, .bind haction.1 haction.2 fun a => (hnext a).2⟩
  inside scope bindings hnext :=
    ⟨(keepsLaw _ _).inside scope bindings (fun inner _ => (hnext inner).1) (),
      fun m hm => (hnext ⟨⟨m.scopes.frames.size⟩, scope.chain⟩).2
        { m with scopes := (m.scopes.newChild scope bindings).2 } hm⟩
  located p hp haction := ⟨haction.1.located p, haction.2.located hp⟩
  exhausted := ⟨fun m _ => .refl m, fun _ _ => trivial⟩
  nested haction := ⟨haction.1.nested, haction.2.nested fun cause => hknown (.cause cause)⟩
  reading _ hnext :=
    ⟨fun m hm => (hnext m.heap m.toHostState hm.1 trivial hm.2).1 m hm,
      fun m hm => (hnext m.heap m.toHostState hm.1 trivial hm.2).2 m hm⟩
  caught haction hok herror :=
    ⟨haction.1.caught (fun v => (hok v).1) fun f => (herror f).imp (· ()) (·.2.1),
      .caught haction.1 haction.2 (fun v => (hok v).2) fun f => (herror f).imp (· ()) (·.2.2)⟩
  borrowing cell _ haction := ⟨haction.1.borrowing cell, haction.2.borrowing cell⟩

/-! ### Nodes fix the failures they end in -/

/-- An action fails only as the first or the second part of it does. -/
theorem failsAs_bind {way : Failure → Prop} {action : Eval α} {next : α → Eval β}
    (haction : ∀ m, (action m).FailsAs way) (hnext : ∀ a m, (next a m).FailsAs way) (m : Machine) :
    ((action >>= next) m).FailsAs way := by
  have hfails := haction m
  cases hrun : action m with
  | ok a m₁ =>
      rw [Action.bind_of_ok hrun]
      exact hnext a m₁
  | error e m₁ =>
      rw [hrun] at hfails
      rw [Action.bind_of_error hrun]
      exact failsAs_error hfails m₁

theorem failsAs_statements {way : Failure → Prop} {run : Work → Eval Value} {scope : Scope} {body : List Node}
    (hbody : ∀ n ∈ body, ∀ m, (run (.node scope n) m).FailsAs way) (last : Value) (m : Machine) :
    (statements run scope last body m).FailsAs way := by
  induction body generalizing last m with
  | nil => trivial
  | cons n rest ih =>
      rw [List.forall_mem_cons] at hbody
      exact failsAs_bind hbody.1 (fun v => ih hbody.2 v) m

theorem isFixed_located (p : Position) (action : Eval α) (m : Machine) :
    (located p action m).FailsAs (·.isFixed = true) := by
  unfold located
  cases action m with
  | ok a m₁ => trivial
  | error e m₁ =>
      cases e with
      | failure f => exact Failure.isFixed_orPosition f p
      | _ => trivial

/-- What a node fails in has a position: it is located there, or it is a block and its statements are nodes. -/
theorem isFixed_execute_node (fuel : Nat) (scope : Scope) (n : Node) (m : Machine) :
    (execute fuel (.node scope n) m).FailsAs (·.isFixed = true) := by
  induction fuel generalizing scope n m with
  | zero => trivial
  | succ fuel ih =>
      cases n with
      | literal p value => trivial
      | block p body =>
          have hstatements (inner : Scope) (m : Machine) :
              (statements (execute fuel) inner .none body m).FailsAs (·.isFixed = true) :=
            failsAs_statements (fun n _ => ih inner n) .none m
          have hchild (m : Machine) : (newChild scope [] m).FailsAs (·.isFixed = true) := trivial
          exact failsAs_bind hchild hstatements m
      | _ => exact isFixed_located _ _ m

/-! ### An evaluation that a failure stops -/

/-- The result, with a fault in the place of the failure. -/
def halted (f : Failure) (flaw : Fault) : EStateM.Result Interrupt Machine α → EStateM.Result Interrupt Machine α
  | .error (.failure g) m => if g = f then .error (.fault flaw) m else .error (.failure g) m
  | result => result

/-- The evaluation that stops as soon as any work ends in the failure. It stops with a fault, which nothing locates or
catches and which tells that work. -/
def halting (f : Failure) (flaw : Work → Fault) : (fuel : Nat) → Work → Eval Value
  | 0, _ => throw .outOfFuel
  | fuel + 1, w => fun m => halted f (flaw w) (step fuel (halting f flaw fuel) w m)

variable {f : Failure} {flaw : Work → Fault}

theorem failsAs_halted (f : Failure) (flaw : Fault) (result : EStateM.Result Interrupt Machine α) :
    (halted f flaw result).FailsAs (· ≠ f) := by
  unfold halted
  split
  · split
    · trivial
    · assumption
  · rename_i hother
    cases result with
    | ok a m => trivial
    | error e m =>
        cases e with
        | failure g => exact (hother g m rfl).elim
        | _ => trivial

theorem state_halted (f : Failure) (flaw : Fault) (result : EStateM.Result Interrupt Machine α) :
    (halted f flaw result).state = result.state := by
  unfold halted
  split
  · split <;> rfl
  · rfl

theorem halted_of_failsAs {flaw : Fault} {result : EStateM.Result Interrupt Machine α}
    (hfails : result.FailsAs (· ≠ f)) : halted f flaw result = result := by
  unfold halted
  split
  · exact if_neg hfails
  · rfl

theorem exists_failure_of_not_failsAs {result : EStateM.Result Interrupt Machine α}
    (hfails : ¬ result.FailsAs (· ≠ f)) : ∃ m, result = .error (.failure f) m := by
  cases result with
  | ok a m => exact (hfails trivial).elim
  | error e m =>
      cases e with
      | failure g =>
          obtain rfl := Decidable.not_not.1 hfails
          exact ⟨m, rfl⟩
      | _ => exact (hfails trivial).elim

theorem halted_failure (f : Failure) (flaw : Fault) (m : Machine) :
    halted f flaw (.error (.failure f) m : EStateM.Result Interrupt Machine α) = .error (.fault flaw) m :=
  if_pos rfl

theorem failsAs_halting (f : Failure) (flaw : Work → Fault) (fuel : Nat) (w : Work) (m : Machine) :
    (halting f flaw fuel w m).FailsAs (· ≠ f) := by
  cases fuel with
  | zero => trivial
  | succ fuel => exact failsAs_halted f (flaw w) _

theorem keeps_halting (code : Code) (f : Failure) (flaw : Work → Fault) (fuel : Nat) (home : FrameId) (w : Work)
    (hw : code.work home w) : Keeps code home (halting f flaw fuel w) := by
  induction fuel generalizing home w with
  | zero => exact fun m _ => .refl m
  | succ fuel ih =>
      intro m hm
      have hstep := (keepsLaw code Unit).step (fun home w hw _ => ih home w hw) fuel hw
      unfold halting
      rw [state_halted]
      exact hstep () m hm

end Eval

/-! ### Code whose failures have no positions of their own -/

/-- The nodes of the host's choice, and the nodes inside them. -/
inductive Node.Within (roots : Node → Prop) : Node → Prop
  | root {n : Node} (hn : roots n) : Within roots n
  | child {n c : Node} (hn : Within roots n) (hc : c ∈ n.children) : Within roots c

/-- These nodes, with functions of the host that honour the terms. -/
def Code.within (roots : Node → Prop) (t : Terms) : Code :=
  .under (Node.Within roots) .child t True

/-- Of its own accord the host raises failures only while running and without a position, or of input and output. -/
def Terms.Unlocated (t : Terms) : Prop :=
  ∀ f, t.raises f → f.IsHosts

theorem Terms.Unlocated.isHosts {t : Terms} (ht : t.Unlocated) {roots : Node → Prop} {f : Failure}
    (hraises : (Code.within roots t).Raises f) : f.IsHosts := by
  cases hraises with
  | cause cause => exact ⟨rfl, rfl⟩
  | host hraises => exact ht f hraises

/-- The functions of the host honour the terms, and so does its state. -/
structure Machine.Honours (t : Terms) (m : Machine) : Prop where
  natives : ∀ f ∈ m.heap.functions, ∀ operation, f.body = .native operation → operation.Honours t f.params.length
  states : t.states m.toHostState

theorem Machine.Honours.machine_code {t : Terms} {m : Machine} (hm : m.Honours t) {roots : Node → Prop}
    (hroots : ∀ f ∈ m.heap.functions, ∀ body scope, f.body = .script body scope → ∀ n ∈ body, roots n) :
    (Code.within roots t).machine m := by
  refine ⟨fun f hf => ?_, hm.states⟩
  unfold Code.function
  split
  · rename_i body scope hbody
    exact fun n hn => .root (hroots f hf body scope hbody n hn)
  · rename_i operation hbody
    exact ⟨hm.natives f hf operation hbody, .inl trivial⟩

/-- The node stands in the program, or in a function that was there before it. -/
def Program.HasRoot (p : Program) (m : Machine) (n : Node) : Prop :=
  n ∈ p.body ∨ ∃ f ∈ m.heap.functions, ∃ body scope, f.body = .script body scope ∧ n ∈ body

theorem Machine.Honours.machine_hasRoot {t : Terms} {m : Machine} (hm : m.Honours t) (p : Program) :
    (Code.within (p.HasRoot m) t).machine m :=
  hm.machine_code fun f hf body scope hbody _ hn => .inr ⟨f, hf, body, scope, hbody, hn⟩

namespace Eval

variable {roots : Node → Prop} {t : Terms} {f : Failure} {α β : Type}

/-- The work ends in the failure by itself: it is a node at the position of the failure. -/
def Innermost (roots : Node → Prop) (f : Failure) (w : Work) : Prop :=
  ∀ d, f = .diagnostic d →
    ∃ scope n, w = .node scope n ∧ n.Within roots ∧ n.isLocated = true ∧ d.position = some n.position

/-- If work ends in a failure with a position, and none of the work inside it does, then it is a node there. -/
theorem innermost_of_step (ht : t.Unlocated) {flaw : Work → Fault} {fuel : Nat} {home : FrameId} {w : Work}
    {m m' : Machine} (hfixed : f.isFixed = true) (hw : (Code.within roots t).work home w)
    (hm : (Code.within roots t).machine m) (hstep : step fuel (halting f flaw fuel) w m = .error (.failure f) m') :
    Innermost roots f w := by
  rintro d rfl
  -- No work inside ends in the diagnostic, so it is made here: what comes from the host has no position yet.
  let law := originLaw (Code.within roots t) (fun g => g.IsHosts ∨ g ≠ .diagnostic d)
    (fun p => ∃ scope n, w = .node scope n ∧ n.Within roots ∧ n.isLocated = true ∧ p = n.position)
    fun hraises => .inl (ht.isHosts hraises)
  have hrun (home : FrameId) (w : Work) (hw : (Code.within roots t).work home w) :
      law.Holds home fun _ => halting (.diagnostic d) flaw fuel w := by
    refine ⟨keeps_halting _ _ flaw fuel home w hw, fun m _ => ?_⟩
    exact failsAs_mono (failsAs_halting (.diagnostic d) flaw fuel w m) fun g hg => .known (.inr hg)
  have hplace : w.LocatedIn law.Places := by
    rintro scope n rfl hlocated
    exact ⟨scope, n, rfl, hw.2, hlocated, rfl⟩
  have horigin : (step fuel (halting (.diagnostic d) flaw fuel) w m).FailsAs (Failure.Originates _ law.Places) :=
    (law.step hrun fuel hw hplace).2 m hm
  rw [hstep] at horigin
  obtain ⟨p, ⟨scope, n, rfl, hn, hlocated, rfl⟩, hposition, -⟩ := horigin.exists_position fun hknown =>
    hknown.elim (fun hhosts => Failure.not_isHosts_of_isFixed hfixed hhosts) (· rfl)
  exact ⟨scope, n, rfl, hn, hlocated, hposition⟩

/-- Of an evaluation and those that the failure stops: they are the same, or the failure stops them at one work that
ends in it by itself, and it is what the evaluation ends in unless the host catches it. -/
def Stops (roots : Node → Prop) (t : Terms) (f : Failure)
    (result : Option (Work → Fault) → EStateM.Result Interrupt Machine α) : Prop :=
  (∀ flaw, result (some flaw) = result none) ∨
    ∃ w m, Innermost roots f w ∧ (¬ t.catches f → result none = .error (.failure f) m) ∧
      ∀ flaw, result (some flaw) = .error (.fault (flaw w)) m

namespace Stops

theorem map {result : Option (Work → Fault) → EStateM.Result Interrupt Machine α} (hresult : Stops roots t f result)
    (transform : EStateM.Result Interrupt Machine α → EStateM.Result Interrupt Machine β) (change : Machine → Machine)
    (hfailure : ∀ m, transform (.error (.failure f) m) = .error (.failure f) (change m))
    (hfault : ∀ flaw m, transform (.error (.fault flaw) m) = .error (.fault flaw) (change m)) :
    Stops roots t f fun i => transform (result i) := by
  obtain hsame | ⟨w, m, hw, hplain, hstopped⟩ := hresult
  · exact .inl fun flaw => congrArg transform (hsame flaw)
  · exact .inr ⟨w, change m, hw, fun hcatches => (congrArg transform (hplain hcatches)).trans (hfailure m),
      fun flaw => (congrArg transform (hstopped flaw)).trans (hfault (flaw w) m)⟩

theorem bind {action : Option (Work → Fault) → Eval α} {next : α → Option (Work → Fault) → Eval β} {m : Machine}
    (haction : Stops roots t f fun i => action i m)
    (hnext : ∀ a m', action none m = .ok a m' → Stops roots t f fun i => next a i m') :
    Stops roots t f fun i => (action i >>= fun a => next a i) m := by
  obtain hsame | ⟨w, m₁, hw, hplain, hstopped⟩ := haction
  · cases hrun : action none m with
    | ok a m₁ =>
        have hok (i : Option (Work → Fault)) : action i m = .ok a m₁ := by
          cases i with
          | none => exact hrun
          | some flaw => exact (hsame flaw).trans hrun
        have hbind (i : Option (Work → Fault)) : (action i >>= fun a => next a i) m = next a i m₁ :=
          Action.bind_of_ok (hok i)
        simp only [hbind]
        exact hnext a m₁ hrun
    | error e m₁ =>
        refine .inl fun flaw => ?_
        dsimp only
        rw [Action.bind_of_error ((hsame flaw).trans hrun), Action.bind_of_error hrun]
  · exact .inr ⟨w, m₁, hw, fun hcatches => Action.bind_of_error (hplain hcatches),
      fun flaw => Action.bind_of_error (hstopped flaw)⟩

theorem located (hf : f.isFixed = true) (p : Position) {action : Option (Work → Fault) → Eval α} {m : Machine}
    (haction : Stops roots t f fun i => action i m) : Stops roots t f fun i => located p (action i) m := by
  let transform : EStateM.Result Interrupt Machine α → EStateM.Result Interrupt Machine α
    | .error (.failure g) m => .error (.failure (g.orPosition p)) m
    | result => result
  refine haction.map transform id (fun m => ?_) fun _ _ => rfl
  show (.error (.failure (f.orPosition p)) m : EStateM.Result Interrupt Machine α) = _
  rw [Failure.orPosition_of_isFixed hf, id]

theorem nested {action : Option (Work → Fault) → Eval α} {m : Machine}
    (haction : Stops roots t f fun i => action i { m with depth := m.depth + 1 }) :
    Stops roots t f fun i => nested (action i) m := by
  rcases Nat.lt_or_ge m.depth m.limit with hlimit | hlimit
  · simp only [nested_of_lt _ hlimit]
    exact haction.map (EStateM.Result.mapState fun m => { m with depth := m.depth - 1 }) _ (fun _ => rfl) fun _ _ => rfl
  · simp only [nested_of_le _ hlimit]
    exact .inl fun _ => rfl

theorem borrowing (cell : Cell) {action : Option (Work → Fault) → Eval α} {m : Machine}
    (haction : Stops roots t f fun i => action i { m with borrowed := cell :: m.borrowed }) :
    Stops roots t f fun i => borrowing cell (action i) m := by
  by_cases hcell : cell ∈ m.borrowed
  · simp only [borrowing_of_mem _ hcell]
    exact .inl fun _ => rfl
  · simp only [borrowing_of_not_mem _ hcell]
    exact haction.map (EStateM.Result.mapState fun m => { m with borrowed := m.borrowed.erase cell }) _ (fun _ => rfl)
      fun _ _ => rfl

/-- The fault that stops an evaluation is not told to the host, and a failure that the host does not catch is handed
on. -/
theorem caught {action : Option (Work → Fault) → Eval Value} {next : Reply → Option (Work → Fault) → Eval α}
    {m : Machine} (haction : Stops roots t f fun i => action i m)
    (hok : ∀ v m', action none m = .ok v m' → Stops roots t f fun i => next (.ok v) i m')
    (herror : ∀ g m', action none m = .error (.failure g) m' →
      (∀ i, next (.error g) i = throw (.failure g)) ∨ t.catches g ∧ Stops roots t f fun i => next (.error g) i m') :
    Stops roots t f fun i => (attempt (action i) >>= fun reply => next reply i) m := by
  simp only [attempt_bind]
  obtain hsame | ⟨w, m₁, hw, hplain, hstopped⟩ := haction
  · have haction (i : Option (Work → Fault)) : action i m = action none m := by
      cases i with
      | none => rfl
      | some flaw => exact hsame flaw
    simp only [haction]
    cases hrun : action none m with
    | ok v m₁ => exact hok v m₁ hrun
    | error e m₁ =>
        cases e with
        | failure g =>
            rcases herror g m₁ hrun with hhanded | ⟨-, hcaught⟩
            · exact .inl fun flaw => congrFun ((hhanded (some flaw)).trans (hhanded none).symm) m₁
            · exact hcaught
        | _ => exact .inl fun _ => rfl
  · refine .inr ⟨w, m₁, hw, fun hcatches => ?_, fun flaw => ?_⟩
    · have hhanded := (herror f m₁ (hplain hcatches)).resolve_right fun hcaught => hcatches hcaught.1
      simp only [hplain hcatches]
      exact congrFun (hhanded none) m₁
    · simp only [hstopped flaw]

end Stops

def stopsLaw (roots : Node → Prop) (t : Terms) (hf : f.isFixed = true) :
    StepLaw (Code.within roots t) (Option (Work → Fault)) where
  Holds home action :=
    Keeps (Code.within roots t) home (action none) ∧
      ∀ m : Machine, (Code.within roots t).machine m → Stops roots t f fun i => action i m
  steady haction := ⟨haction.keeps, fun _ _ => .inl fun _ => rfl⟩
  bind haction hnext := by
    refine ⟨haction.1.bind fun a => (hnext a).1, fun m hm => (haction.2 m hm).bind fun a m' hrun => ?_⟩
    have hevolves := haction.1 m hm
    rw [hrun] at hevolves
    exact (hnext a).2 m' (hevolves.machine_code hm)
  inside scope bindings hnext :=
    ⟨(keepsLaw _ _).inside scope bindings (fun inner _ => (hnext inner).1) (),
      fun m hm => (hnext ⟨⟨m.scopes.frames.size⟩, scope.chain⟩).2
        { m with scopes := (m.scopes.newChild scope bindings).2 } hm⟩
  located p _ haction := ⟨haction.1.located p, fun m hm => (haction.2 m hm).located hf p⟩
  exhausted := ⟨fun m _ => .refl m, fun _ _ => .inl fun _ => rfl⟩
  nested haction := ⟨haction.1.nested, fun m hm => (haction.2 { m with depth := m.depth + 1 } hm).nested⟩
  reading _ hnext :=
    ⟨fun m hm => (hnext m.heap m.toHostState hm.1 trivial hm.2).1 m hm,
      fun m hm => (hnext m.heap m.toHostState hm.1 trivial hm.2).2 m hm⟩
  caught {α home action next} haction hok herror := by
    refine ⟨haction.1.caught (fun v => (hok v).1) fun g => (herror g).imp (· none) (·.2.1), fun m hm => ?_⟩
    have hevolves := haction.1 m hm
    refine (haction.2 m hm).caught (fun v m' hrun => ?_) fun g m' hrun => (herror g).imp_right fun hcaught => ?_
    · rw [hrun] at hevolves
      exact (hok v).2 m' (hevolves.machine_code hm)
    · rw [hrun] at hevolves
      exact ⟨hcaught.1, hcaught.2.2 m' (hevolves.machine_code hm)⟩
  borrowing cell _ haction :=
    ⟨haction.1.borrowing cell, fun m hm => (haction.2 { m with borrowed := cell :: m.borrowed } hm).borrowing cell⟩

/-- The evaluation, or the one that the failure stops. -/
def haltingIf (f : Failure) (fuel : Nat) : Option (Work → Fault) → Work → Eval Value
  | none => execute fuel
  | some flaw => halting f flaw fuel

theorem stops_haltingIf (ht : t.Unlocated) (roots : Node → Prop) (hf : f.isFixed = true) (fuel : Nat) (home : FrameId)
    (w : Work) (hw : (Code.within roots t).work home w) :
    (stopsLaw roots t hf).Holds home fun i => haltingIf f fuel i w := by
  induction fuel generalizing home w with
  | zero => exact ⟨fun m _ => .refl m, fun m _ => .inl fun _ => rfl⟩
  | succ fuel ih =>
      obtain ⟨hkeeps, hstops⟩ := (stopsLaw roots t hf).step ih fuel hw
      refine ⟨hkeeps, fun m hm => ?_⟩
      obtain hsame | ⟨w', m', hw', hplain, hstopped⟩ := hstops m hm
      · by_cases hfails : (step fuel (execute fuel) w m).FailsAs (· ≠ f)
        · refine .inl fun flaw => ?_
          exact (congrArg (halted f (flaw w)) (hsame flaw)).trans (halted_of_failsAs hfails)
        · obtain ⟨m', hplain⟩ := exists_failure_of_not_failsAs hfails
          refine .inr ⟨w, m', ?_, fun _ => hplain, fun flaw => ?_⟩
          · exact innermost_of_step ht hf hw hm ((hsame fun _ => .noSlots).trans hplain)
          · exact (congrArg (halted f (flaw w)) ((hsame flaw).trans hplain)).trans (halted_failure f (flaw w) m')
      · refine .inr ⟨w', m', hw', hplain, fun flaw => ?_⟩
        exact congrArg (halted f (flaw w)) (hstopped flaw)

/-- Where nothing else ends in the failure and the host does not catch it, the one evaluation is the other up to the
fault in its place. -/
theorem Stops.exists_halted {result : Option (Work → Fault) → EStateM.Result Interrupt Machine α}
    (hresult : Stops roots t f result) (hcatches : ¬ t.catches f)
    (hfails : ∀ flaw, (result (some flaw)).FailsAs (· ≠ f)) :
    ∃ w, ∀ flaw, result (some flaw) = halted f (flaw w) (result none) := by
  obtain hsame | ⟨w, m, hw, hplain, hstopped⟩ := hresult
  · have hplain : (result none).FailsAs (· ≠ f) := hsame (fun _ => .noSlots) ▸ hfails _
    refine ⟨.call .none [], fun flaw => ?_⟩
    rw [hsame, halted_of_failsAs hplain]
  · refine ⟨w, fun flaw => ?_⟩
    rw [hstopped, hplain hcatches, halted_failure]

/-- Where nothing else ends in the failure but the evaluation does, some work stops it. -/
theorem Stops.exists_innermost {result : Option (Work → Fault) → EStateM.Result Interrupt Machine α}
    (hresult : Stops roots t f result) (hfails : ∀ flaw, (result (some flaw)).FailsAs (· ≠ f)) {m' : Machine}
    (hplain : result none = .error (.failure f) m') :
    ∃ w m, Innermost roots f w ∧ ∀ flaw, result (some flaw) = .error (.fault (flaw w)) m := by
  obtain hsame | ⟨w, m, hw, -, hstopped⟩ := hresult
  · have hother := hfails fun _ => .noSlots
    rw [hsame, hplain] at hother
    exact (hother rfl).elim
  · exact ⟨w, m, hw, hstopped⟩

theorem exists_halted_execute (ht : t.Unlocated) (hf : f.isFixed = true) (hcatches : ¬ t.catches f) (fuel : Nat)
    (w : Work) {m : Machine} (hm : m.Honours t) :
    ∃ w', ∀ flaw, halting f flaw fuel w m = halted f (flaw w') (execute fuel w m) := by
  have hwork : ∃ home, (Code.within (fun _ => True) t).work home w := by
    cases w with
    | node scope n => exact ⟨scope.frame, rfl, .root trivial⟩
    | call g args => exact ⟨⟨0⟩, trivial⟩
  obtain ⟨home, hwork⟩ := hwork
  have hcode : (Code.within (fun _ => True) t).machine m := hm.machine_code fun _ _ _ _ _ _ _ => trivial
  have hstops := (stops_haltingIf ht _ hf fuel home w hwork).2 m hcode
  exact hstops.exists_halted hcatches fun flaw => failsAs_halting f flaw fuel w m

end Eval

/-! ### Runs -/

open Eval

namespace Session

variable {t : Terms} {m : Machine} {f : Failure}

theorem stops_evaluation (ht : t.Unlocated) (fuel : Nat) (s : Session) (p : Program) (hm : m.Honours t)
    (hf : f.isFixed = true) :
    Stops (p.HasRoot m) t f fun i =>
      statements (haltingIf f fuel i) (s.start m).root .none p.body (s.start m).machine := by
  have hstops : (stopsLaw (p.HasRoot m) t hf).Holds (s.start m).root.frame fun i =>
      statements (haltingIf f fuel i) (s.start m).root .none p.body :=
    (stopsLaw _ t hf).toLaw.statements
      (fun n hn => stops_haltingIf ht _ hf fuel _ (.node _ n) ⟨rfl, .root (.inl hn)⟩) .none
  exact hstops.2 (s.start m).machine (hm.machine_hasRoot p)

theorem failsAs_halting_statements (fuel : Nat) (s : Session) (p : Program) (m : Machine) (f : Failure)
    (flaw : Work → Fault) :
    (statements (halting f flaw fuel) (s.start m).root .none p.body (s.start m).machine).FailsAs (· ≠ f) :=
  failsAs_statements (fun _ _ => failsAs_halting f flaw fuel _) .none _

theorem eq_failure_of_finish {arena : ArenaId} {limit : Nat} {result : EStateM.Result Interrupt Machine Value}
    {f : Failure} {m : Machine} (hfinish : finish arena limit result = .error (.failure f) m) :
    ∃ m₁, result = .error (.failure f) m₁ := by
  cases result with
  | ok v m₁ => cases hfinish
  | error e m₁ =>
      cases e with
      | failure g =>
          cases hfinish
          exact ⟨m₁, rfl⟩
      | _ => cases hfinish

theorem originates_evaluation (ht : t.Unlocated) (fuel : Nat) (s : Session) (p : Program) (hm : m.Honours t) :
    (statements (Eval.execute fuel) (s.start m).root .none p.body (s.start m).machine).FailsAs
      (Failure.Originates Failure.IsHosts fun _ => True) := by
  let law := originLaw (Code.within (p.HasRoot m) t) Failure.IsHosts (fun _ => True) ht.isHosts
  have horigin := law.statements fuel (s.start m).root (fun n hn => .root (.inl hn)) .none
  exact horigin.2 (s.start m).machine (hm.machine_hasRoot p)

end Session

/-- **A diagnostic tells the innermost node that failed.** Let the host's functions raise failures only while running
and without a position, or of input and output. A diagnostic that a run ends in was met while running, at the position
of a node that is neither a literal nor a block, in the program or in a function that was there before; and an
evaluation that stops as soon as any work ends in this diagnostic stops at that node. A failure that has a position, or
that never has one, passes through all that is around the work it comes from, unless the code of the host catches it: to
stop there is to do the same, in the run and in any other work. -/
theorem diagnostics_tell_innermost_node {t : Terms} (ht : t.Unlocated) (fuel : Nat) (s : Session) (p : Program)
    (m : Machine) (hm : m.Honours t) :
    (∀ d m', s.runWith fuel p m = .error (.failure (.diagnostic d)) m' →
        d.cause.phase = .running ∧
          ∃ scope n, n.Within (p.HasRoot m) ∧ n.isLocated = true ∧ d.position = some n.position ∧
            ∀ flaw, ∃ m₁, statements (halting (.diagnostic d) flaw fuel) (s.start m).root .none p.body
              (s.start m).machine = .error (.fault (flaw (.node scope n))) m₁) ∧
      ∀ f : Failure, f.isFixed = true → ¬ t.catches f →
        (∃ w, ∀ flaw, statements (halting f flaw fuel) (s.start m).root .none p.body (s.start m).machine =
          halted f (flaw w) (statements (execute fuel) (s.start m).root .none p.body (s.start m).machine)) ∧
        ∀ w m₁, m₁.Honours t → ∃ w', ∀ flaw, halting f flaw fuel w m₁ = halted f (flaw w') (execute fuel w m₁) := by
  refine ⟨fun d m' hrun => ?_, fun f hf hcatches =>
    ⟨?_, fun w m₁ hm₁ => exists_halted_execute ht hf hcatches fuel w hm₁⟩⟩
  · obtain ⟨m₁, hfails⟩ := Session.eq_failure_of_finish hrun
    have hfixed : (Failure.diagnostic d).isFixed = true := by
      have hbody (n : Node) (_ : n ∈ p.body) := isFixed_execute_node fuel (s.start m).root n
      have hstatements := failsAs_statements hbody .none (s.start m).machine
      rwa [hfails] at hstatements
    have horigin := Session.originates_evaluation ht fuel s p hm
    rw [hfails] at horigin
    obtain ⟨-, -, -, hhosts⟩ := horigin.exists_position (Failure.not_isHosts_of_isFixed hfixed)
    obtain ⟨w, m₂, hinnermost, hstopped⟩ := (Session.stops_evaluation ht fuel s p hm hfixed).exists_innermost
      (Session.failsAs_halting_statements fuel s p m _) hfails
    obtain ⟨scope, n, rfl, hn, hlocated, hposition⟩ := hinnermost d rfl
    exact ⟨hhosts.1, scope, n, hn, hlocated, hposition, fun flaw => ⟨m₂, hstopped flaw⟩⟩
  · exact (Session.stops_evaluation ht fuel s p hm hf).exists_halted hcatches
      (Session.failsAs_halting_statements fuel s p m f)

/-- The terms of a host that may do anything but raise failures with positions. -/
def Terms.unlocated : Terms :=
  { Terms.any with raises := Failure.IsHosts }

/-- A machine with an object of the host, whose function raises an error in the host's words. -/
def Machine.checking : Machine :=
  let (f, h) := Heap.empty.newFunction ⟨"Check", [], .native (.fail "no good" none)⟩
  let (_, h) := h.newObject ⟨"Host", [("Check", f)]⟩
  { Machine.ofConsole (.ofInput []) with heap := h }

theorem Machine.honours_checking : checking.Honours .unlocated := by
  refine ⟨fun f hf operation hbody => ?_, trivial⟩
  obtain rfl := List.mem_singleton.1 (Array.mem_def.1 hf)
  cases hbody
  exact fun args _ => ⟨rfl, rfl⟩

/-- A program that calls a function, which has the host check something in the second line. -/
def checkingInside : Program where
  source := ""
  body :=
    [.function (.start "") (some "f") [] [.block ⟨"", 2, 1⟩
       [.call ⟨"", 2, 17⟩ (.member ⟨"", 2, 11⟩ (.var ⟨"", 2, 7⟩ "Host") "Check") []]],
     .call ⟨"", 4, 2⟩ (.var ⟨"", 4, 1⟩ "f") []]

/-- The check is where it fails, and not the call around it. -/
theorem checkingInside_fails_at_check :
    Terms.unlocated.Unlocated ∧ Machine.checking.Honours .unlocated ∧
      (∃ m', Session.runWith 8 ⟨[⟨0⟩], 2⟩ checkingInside .checking =
        .error (.failure (.diagnostic ⟨.reported .running "no good", some ⟨"", 2, 17⟩, []⟩)) m') ∧
      ∃ scope n, n.Within (checkingInside.HasRoot .checking) ∧ n.isLocated = true ∧ n.position = ⟨"", 2, 17⟩ ∧
        ∀ flaw, ∃ m₁,
          statements (halting (.diagnostic ⟨.reported .running "no good", some ⟨"", 2, 17⟩, []⟩) flaw 8)
            (Session.start ⟨[⟨0⟩], 2⟩ .checking).root .none checkingInside.body
            (Session.start ⟨[⟨0⟩], 2⟩ .checking).machine =
          .error (.fault (flaw (.node scope n))) m₁ := by
  have ht : Terms.unlocated.Unlocated := fun _ hraises => hraises
  have hrun : ∃ m', Session.runWith 8 ⟨[⟨0⟩], 2⟩ checkingInside .checking =
      .error (.failure (.diagnostic ⟨.reported .running "no good", some ⟨"", 2, 17⟩, []⟩)) m' := ⟨_, rfl⟩
  obtain ⟨m', hfails⟩ := hrun
  obtain ⟨-, scope, n, hn, hlocated, hposition, hstops⟩ :=
    (diagnostics_tell_innermost_node ht 8 ⟨[⟨0⟩], 2⟩ checkingInside .checking
      Machine.honours_checking).1 _ _ hfails
  exact ⟨ht, Machine.honours_checking, ⟨m', hfails⟩, scope, n, hn, hlocated, (Option.some.inj hposition).symm, hstops⟩

end LineScript
