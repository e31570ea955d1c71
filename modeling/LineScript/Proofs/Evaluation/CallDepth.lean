import LineScript.Proofs.Evaluation.Termination
/-!
# The limit of calls

The limit of nested calls decides nothing but whether a call is refused. No more calls are ever active than it allows,
and a run that is refused no call goes the same way under every higher limit, because nothing else reads the limit or
the number of calls, and no part of a program catches the refusal, if the code of the host does not. Both are laws of
evaluation: the first compares an evaluation with one that watches the number of calls, the second an evaluation under
two limits.
-/

namespace LineScript

/-- Any program, with functions of the host that hand on whatever fails of what they ask for. -/
def Code.handing : Code :=
  .under (fun _ => True) (fun _ _ => trivial) { Terms.any with catches := fun _ => False } True

namespace Eval

variable {α β : Type} {home : FrameId}

/-! ### Watching an evaluation -/

/-- The evaluation that stops as soon as it meets work on a machine that is not allowed. -/
def watched (allowed : Machine → Bool) (e : Interrupt) : (fuel : Nat) → Work → Eval Value
  | 0, _ => throw .outOfFuel
  | fuel + 1, w => fun m => if allowed m then step fuel (watched allowed e fuel) w m else .error e m

/-- The limit of calls is `limit`, and no more are active. -/
def within (limit : Nat) (m : Machine) : Bool :=
  m.limit = limit ∧ m.depth ≤ limit

theorem within_iff {limit : Nat} {m : Machine} : within limit m = true ↔ m.limit = limit ∧ m.depth ≤ limit :=
  decide_eq_true_iff

theorem within_of_evolves {limit : Nat} {m m' : Machine} (hm : within limit m = true)
    (hevolves : Code.any.Evolves home m m') : within limit m' = true := by
  rw [within_iff] at hm ⊢
  rw [hevolves.limit_eq, hevolves.depth_eq]
  exact hm

/-- Two actions that do the same on every machine within the limit. -/
def Agree (limit : Nat) (action : Bool → Eval α) : Prop :=
  ∀ m, within limit m = true → action true m = action false m

theorem Agree.bind {limit : Nat} {action : Bool → Eval α} {next : α → Bool → Eval β} (haction : Agree limit action)
    (hkeeps : Keeps Code.any home (action false)) (hnext : ∀ a, Agree limit (next a)) :
    Agree limit fun b => action b >>= fun a => next a b := by
  intro m hm
  have hevolves := hkeeps m (Code.any_machine _)
  show (action true >>= fun a => next a true) m = (action false >>= fun a => next a false) m
  cases hrun : action false m with
  | ok a m₁ =>
      rw [hrun] at hevolves
      rw [Action.bind_of_ok hrun, Action.bind_of_ok ((haction m hm).trans hrun)]
      exact hnext a m₁ (within_of_evolves hm hevolves)
  | error e m₁ => rw [Action.bind_of_error hrun, Action.bind_of_error ((haction m hm).trans hrun)]

theorem Agree.located {limit : Nat} {action : Bool → Eval α} (p : Position) (haction : Agree limit action) :
    Agree limit fun b => located p (action b) := by
  intro m hm
  show Eval.located p (action true) m = Eval.located p (action false) m
  unfold Eval.located
  rw [haction m hm]

/-- A call is made only below the limit, so inside it there are still no more than the limit allows. -/
theorem Agree.nested {limit : Nat} {action : Bool → Eval α} (haction : Agree limit action) :
    Agree limit fun b => nested (action b) := by
  intro m hm
  obtain ⟨hlimit, hdepth⟩ := within_iff.1 hm
  show Eval.nested (action true) m = Eval.nested (action false) m
  rcases Nat.lt_or_ge m.depth m.limit with hlt | hge
  · have hinside : within limit { m with depth := m.depth + 1 } = true := within_iff.2 ⟨hlimit, hlimit ▸ hlt⟩
    rw [nested_of_lt _ hlt, nested_of_lt _ hlt, haction _ hinside]
  · rw [nested_of_le _ hge, nested_of_le _ hge]

theorem Agree.borrowing {limit : Nat} {action : Bool → Eval α} (cell : Cell) (haction : Agree limit action) :
    Agree limit fun b => borrowing cell (action b) := by
  intro m hm
  show Eval.borrowing cell (action true) m = Eval.borrowing cell (action false) m
  unfold Eval.borrowing
  rw [haction { m with borrowed := cell :: m.borrowed } hm]

theorem Agree.attempt {limit : Nat} {action : Bool → Eval Value} (haction : Agree limit action) :
    Agree limit fun b => attempt (action b) := by
  intro m hm
  show Eval.attempt (action true) m = Eval.attempt (action false) m
  unfold Eval.attempt
  rw [haction m hm]

theorem Agree.caught {limit : Nat} {action : Bool → Eval Value} {next : Reply → Bool → Eval α}
    (haction : Agree limit action) (hkeeps : Keeps Code.any home (action false))
    (hok : ∀ v, Agree limit (next (.ok v)))
    (herror : ∀ f, (∀ b, next (.error f) b = throw (.failure f)) ∨ Agree limit (next (.error f))) :
    Agree limit fun b => Eval.attempt (action b) >>= fun reply => next reply b := by
  refine haction.attempt.bind hkeeps.attempt fun reply => ?_
  cases reply with
  | ok v => exact hok v
  | error f => exact (herror f).elim (fun hhanded m _ => by rw [hhanded, hhanded]) id

def agreeLaw (limit : Nat) : StepLaw Code.any Bool where
  Holds home action := (∀ b, Keeps Code.any home (action b)) ∧ Agree limit action
  steady haction := ⟨fun _ => haction.keeps, fun _ _ => rfl⟩
  bind haction hnext :=
    ⟨(keepsLaw _ _).bind haction.1 fun a => (hnext a).1, haction.2.bind (haction.1 false) fun a => (hnext a).2⟩
  inside scope bindings hnext :=
    ⟨(keepsLaw _ _).inside scope bindings fun inner => (hnext inner).1,
      fun m hm => (hnext ⟨⟨m.scopes.frames.size⟩, scope.chain⟩).2
        { m with scopes := (m.scopes.newChild scope bindings).2 } hm⟩
  located p _ haction := ⟨(keepsLaw _ _).located p trivial haction.1, haction.2.located p⟩
  exhausted := ⟨(keepsLaw _ _).exhausted, fun _ _ => rfl⟩
  nested haction := ⟨(keepsLaw _ _).nested haction.1, haction.2.nested⟩
  reading next hnext :=
    ⟨(keepsLaw _ _).reading next fun h host hh hothers hhost => (hnext h host hh hothers hhost).1,
      fun m hm => (hnext m.heap m.toHostState (Code.any_machine m).1 trivial trivial).2 m hm⟩
  caught haction hok herror :=
    ⟨(keepsLaw _ _).caught haction.1 (fun v => (hok v).1) fun f => (herror f).imp_right (.imp_right (·.1)),
      haction.2.caught (haction.1 false) (fun v => (hok v).2) fun f => (herror f).imp_right (·.2.2)⟩
  borrowing cell hc haction := ⟨(keepsLaw _ _).borrowing cell hc haction.1, haction.2.borrowing cell⟩

/-- An evaluation, watched or not. -/
def watchedIf (limit : Nat) (e : Interrupt) (fuel : Nat) : Bool → Work → Eval Value
  | true => watched (within limit) e fuel
  | false => execute fuel

theorem agree_watchedIf (limit : Nat) (e : Interrupt) (fuel : Nat) (home : FrameId) (w : Work)
    (hw : Code.any.work home w) : (agreeLaw limit).Holds home fun b => watchedIf limit e fuel b w := by
  induction fuel generalizing home w with
  | zero =>
      refine ⟨fun b => ?_, fun m hm => rfl⟩
      cases b <;> exact fun m _ => .refl m
  | succ fuel ih =>
      obtain ⟨hkeeps, hagree⟩ := (agreeLaw limit).step ih fuel hw
      constructor
      · intro b m hm
        cases b with
        | false => exact hkeeps false m hm
        | true =>
            show Code.any.Evolves home m ((ite _ _ _ : EStateM.Result Interrupt Machine Value)).state
            split
            · exact hkeeps true m hm
            · exact .refl m
      · intro m hm
        exact (if_pos hm).trans (hagree m hm)

/-! ### Two limits -/

/-- The end is that a call was refused because `limit` calls were active. -/
def ExceedsDepth (limit : Nat) : EStateM.Result Interrupt Machine α → Prop
  | .error (.failure (.diagnostic d)) _ => d.cause = .running (.callDepth limit)
  | _ => False

theorem exceedsDepth_mapState {limit : Nat} (f : Machine → Machine) (result : EStateM.Result Interrupt Machine α) :
    ExceedsDepth limit (result.mapState f) ↔ ExceedsDepth limit result := by
  cases result with
  | ok a m => rfl
  | error e m =>
      cases e with
      | failure f => cases f <;> rfl
      | _ => rfl

/-- Under a higher limit the action does the same, unless it is refused a call under the lower one. -/
def Lifts (action : Eval α) : Prop :=
  ∀ (m : Machine) (limit : Nat), Code.handing.machine m → m.limit ≤ limit →
    ExceedsDepth m.limit (action m) ∨ action { m with limit } = (action m).mapState ({ · with limit })

theorem Lifts.steady {action : Eval α} (haction : Steady Code.handing home action) : Lifts action := by
  intro m limit hm _
  refine .inr ((haction.calls m m.depth limit).trans ?_)
  have hdepth := (haction.steps m hm).evolves.depth_eq
  cases hrun : action m with
  | ok a m' | error e m' =>
      rw [hrun] at hdepth
      simp only [EStateM.Result.mapState, Machine.withCalls]
      rw [← hdepth]
      rfl

theorem Lifts.bind {action : Eval α} {next : α → Eval β} (hkeeps : Keeps Code.handing home action)
    (haction : Lifts action) (hnext : ∀ a, Lifts (next a)) : Lifts (action >>= next) := by
  intro m limit hm hlimit
  have hevolves := hkeeps m hm
  have hlifts := haction m limit hm hlimit
  cases hrun : action m with
  | ok a m₁ =>
      rw [hrun] at hevolves hlifts
      rw [Action.bind_of_ok hrun, Action.bind_of_ok (hlifts.resolve_left id)]
      have hsame : m₁.limit = m.limit := hevolves.limit_eq
      rw [← hsame] at hlimit ⊢
      exact hnext a m₁ limit (hevolves.machine_code hm) hlimit
  | error e m₁ =>
      rw [hrun] at hlifts
      rw [Action.bind_of_error hrun]
      refine hlifts.imp (fun hexceeds => ?_) fun hsame => Action.bind_of_error hsame
      cases e with
      | failure f => cases f <;> exact hexceeds
      | _ => exact hexceeds

theorem ExceedsDepth.located {limit : Nat} {action : Eval α} {m : Machine} (p : Position)
    (hexceeds : ExceedsDepth limit (action m)) : ExceedsDepth limit (located p action m) := by
  unfold Eval.located
  cases hrun : action m with
  | ok a m₁ =>
      rw [hrun] at hexceeds
      exact hexceeds
  | error e m₁ =>
      rw [hrun] at hexceeds
      cases e with
      | failure f =>
          cases f with
          | io text => exact hexceeds
          | diagnostic d =>
              obtain ⟨cause, position, notes⟩ := d
              cases position <;> exact hexceeds
      | _ => exact hexceeds

theorem Lifts.located {action : Eval α} (p : Position) (haction : Lifts action) : Lifts (located p action) := by
  intro m limit hm hlimit
  refine (haction m limit hm hlimit).imp (.located p) fun hsame => ?_
  unfold Eval.located
  rw [hsame]
  cases action m with
  | ok a m₁ => rfl
  | error e m₁ => cases e <;> rfl

/-- This is where the limit is read: the lower one refuses no less than the higher one. -/
theorem Lifts.nested {action : Eval α} (haction : Lifts action) : Lifts (nested action) := by
  intro m limit hm hlimit
  rcases Nat.lt_or_ge m.depth m.limit with hlt | hge
  · rw [nested_of_lt action hlt, nested_of_lt action (show _ < limit from Nat.lt_of_lt_of_le hlt hlimit)]
    refine (haction { m with depth := m.depth + 1 } limit hm hlimit).imp (exceedsDepth_mapState _ _).2 fun hsame => ?_
    rw [hsame, mapState_mapState, mapState_mapState]
    rfl
  · rw [nested_of_le action hge]
    exact .inl rfl

/-- What code of the host is told of a refusal, it hands on. -/
theorem Lifts.caught {action : Eval Value} {next : Reply → Eval α} (hkeeps : Keeps Code.handing home action)
    (haction : Lifts action) (hok : ∀ v, Lifts (next (.ok v)))
    (hhanded : ∀ f, next (.error f) = throw (.failure f)) : Lifts (attempt action >>= next) := by
  rw [attempt_bind_of_handed hhanded]
  exact .bind hkeeps haction hok

theorem Lifts.borrowing {action : Eval α} (cell : Cell) (haction : Lifts action) : Lifts (borrowing cell action) := by
  intro m limit hm hlimit
  by_cases hcell : cell ∈ m.borrowed
  · rw [borrowing_of_mem action hcell, borrowing_of_mem action (show cell ∈ Machine.borrowed { m with limit } from hcell)]
    exact .inr rfl
  · rw [borrowing_of_not_mem action hcell,
      borrowing_of_not_mem action (show cell ∉ Machine.borrowed { m with limit } from hcell)]
    refine (haction { m with borrowed := cell :: m.borrowed } limit hm hlimit).imp (exceedsDepth_mapState _ _).2
      fun hsame => ?_
    rw [hsame, mapState_mapState, mapState_mapState]
    rfl

def liftsLaw : StepLaw Code.handing Unit where
  Holds home action := Keeps Code.handing home (action ()) ∧ Lifts (action ())
  steady haction := ⟨haction.keeps, .steady haction⟩
  bind haction hnext := ⟨haction.1.bind fun a => (hnext a).1, .bind haction.1 haction.2 fun a => (hnext a).2⟩
  inside scope bindings hnext :=
    ⟨(keepsLaw _ Unit).inside scope bindings (fun inner _ => (hnext inner).1) (),
      fun m limit hm hlimit => (hnext ⟨⟨m.scopes.frames.size⟩, scope.chain⟩).2
        { m with scopes := (m.scopes.newChild scope bindings).2 } limit hm hlimit⟩
  located p _ haction := ⟨haction.1.located p, haction.2.located p⟩
  reading _ hnext :=
    ⟨fun m hm => (hnext m.heap m.toHostState hm.1 trivial hm.2).1 m hm,
      fun m limit hm hlimit => (hnext m.heap m.toHostState hm.1 trivial hm.2).2 m limit hm hlimit⟩
  caught haction hok herror := by
    have hhanded (f : Failure) := ((herror f).resolve_right fun hcatches => hcatches.1) ()
    exact ⟨haction.1.caught (fun v => (hok v).1) fun f => .inl (hhanded f),
      .caught haction.1 haction.2 (fun v => (hok v).2) hhanded⟩
  borrowing cell _ haction := ⟨haction.1.borrowing cell, haction.2.borrowing cell⟩
  exhausted := ⟨fun m _ => .refl m, fun _ _ _ _ => .inr rfl⟩
  nested haction := ⟨haction.1.nested, haction.2.nested⟩

end Eval

/-! ### Runs -/

open Eval

namespace Session

theorem watched_evaluation_eq (s : Session) (p : Program) {m : Machine} (hdepth : m.depth ≤ s.maxCallDepth) (fuel : Nat)
    (e : Interrupt) :
    statements (watched (within s.maxCallDepth) e fuel) (s.start m).root .none p.body (s.start m).machine =
      statements (Eval.execute fuel) (s.start m).root .none p.body (s.start m).machine := by
  have hagree : (agreeLaw s.maxCallDepth).Holds (s.start m).root.frame fun b =>
      statements (watchedIf s.maxCallDepth e fuel b) (s.start m).root .none p.body :=
    (agreeLaw s.maxCallDepth).toLaw.statements
      (fun n _ => agree_watchedIf s.maxCallDepth e fuel _ (.node (s.start m).root n) ⟨rfl, trivial⟩) .none
  exact hagree.2 (s.start m).machine (within_iff.2 ⟨rfl, hdepth⟩)

theorem calls_finish (arena : ArenaId) (limit : Nat) (result : EStateM.Result Interrupt Machine Value) :
    (finish arena limit result).state.depth = result.state.depth ∧ (finish arena limit result).state.limit = limit := by
  unfold finish
  split <;> exact ⟨rfl, rfl⟩

theorem calls_runWith (fuel : Nat) (s : Session) (p : Program) (m : Machine) :
    (runWith fuel s p m).state.depth = m.depth ∧ (runWith fuel s p m).state.limit = m.limit := by
  have hkeeps : Keeps Code.any (s.start m).root.frame
      (statements (Eval.execute fuel) (s.start m).root .none p.body) :=
    keeps_statements Code.any fuel _ (fun _ _ => trivial) .none
  obtain ⟨hdepth, hlimit⟩ := calls_finish (s.start m).arena m.limit
    (statements (Eval.execute fuel) (s.start m).root .none p.body (s.start m).machine)
  exact ⟨hdepth.trans (hkeeps _ (Code.any_machine _)).depth_eq, hlimit⟩

/-- What a run is given back does not tell the limit that it had. -/
theorem finish_mapState_limit (arena : ArenaId) (outside limit : Nat)
    (result : EStateM.Result Interrupt Machine Value) :
    finish arena outside (result.mapState ({ · with limit })) = finish arena outside result := by
  cases result with
  | ok v m => rfl
  | error e m => cases e <;> rfl

theorem exceedsDepth_finish {arena : ArenaId} {outside limit : Nat} {result : EStateM.Result Interrupt Machine Value}
    (hexceeds : ExceedsDepth limit result) : ExceedsDepth limit (finish arena outside result) := by
  cases result with
  | ok v m => exact hexceeds
  | error e m =>
      cases e with
      | failure f => cases f <;> exact hexceeds
      | _ => exact hexceeds

theorem runWith_of_le {fuel : Nat} {s : Session} {p : Program} {m : Machine} {limit : Nat}
    (hm : Code.handing.machine m) (hlimit : s.maxCallDepth ≤ limit)
    (hdepth : ¬ ExceedsDepth s.maxCallDepth (runWith fuel s p m)) :
    runWith fuel { s with maxCallDepth := limit } p m = runWith fuel s p m := by
  have hlifts : liftsLaw.Holds (s.start m).root.frame fun _ =>
      statements (Eval.execute fuel) (s.start m).root .none p.body :=
    liftsLaw.statements fuel _ (fun _ _ => trivial) .none
  have hsame := (hlifts.2 (s.start m).machine limit hm hlimit).resolve_left
    fun hexceeds => hdepth (exceedsDepth_finish hexceeds)
  exact (congrArg (finish (s.start m).arena m.limit) hsame).trans (finish_mapState_limit _ _ _ _)

end Session

/-- **The limit of calls is only a bound.** Let a run start in no more calls than its session allows, in particular in
none. Whatever the functions of the host do, an evaluation that stopped, in whatever way, as soon as it met work in more
calls would be the same evaluation. A call with as many arguments as the function takes is refused in as many calls as
are allowed, and in fewer calls it is made and counts as one more. If the functions of the host hand on whatever fails
of what they ask for, and the run ends without a refusal, then it has the same result and leaves the same machine behind
under every higher limit. However it ends, the number of calls and their limit are again what they were. -/
theorem call_limit_is_only_a_bound (fuel : Nat) (s : Session) (p : Program) (m : Machine) :
    (m.depth ≤ s.maxCallDepth → ∀ e,
        statements (watched (within s.maxCallDepth) e fuel) (s.start m).root .none p.body (s.start m).machine =
          statements (execute fuel) (s.start m).root .none p.body (s.start m).machine) ∧
      (∀ run m' id args, within s.maxCallDepth m' = true → args.length = (m'.heap.function id).params.length →
        (m'.depth = s.maxCallDepth →
          call run (.function id) args m' = .error (.failure (.ofCause (.callDepth s.maxCallDepth))) m') ∧
        (m'.depth ≠ s.maxCallDepth →
          within s.maxCallDepth { m' with depth := m'.depth + 1 } = true ∧
            call run (.function id) args m' =
              (invoke run (m'.heap.function id) args { m' with depth := m'.depth + 1 }).mapState
                fun m'' => { m'' with depth := m''.depth - 1 })) ∧
      (Code.handing.machine m → ∀ limit, s.maxCallDepth ≤ limit →
        ¬ ExceedsDepth s.maxCallDepth (s.runWith fuel p m) →
        Session.runWith fuel { s with maxCallDepth := limit } p m = s.runWith fuel p m) ∧
      (s.runWith fuel p m).state.depth = m.depth ∧ (s.runWith fuel p m).state.limit = m.limit := by
  refine ⟨fun hdepth e => Session.watched_evaluation_eq s p hdepth fuel e, fun run m' id args hwithin hargs => ?_,
    fun hm limit hlimit hdepth => Session.runWith_of_le hm hlimit hdepth, Session.calls_runWith fuel s p m⟩
  obtain ⟨hlimit, hdepth⟩ := within_iff.1 hwithin
  rw [call_function, if_pos hargs]
  refine ⟨fun hfull => ?_, fun hroom => ⟨within_iff.2 ⟨hlimit, by show m'.depth + 1 ≤ _; omega⟩, ?_⟩⟩
  · rw [nested_of_le _ (by omega), hlimit]
    rfl
  · rw [nested_of_lt _ (by omega)]

/-- A function of the host that adds its argument to itself. -/
def Native.twice : Native :=
  host fun
    | n :: _ => .applies .add [n, n] HostCode.handsOn
    | [] => .panics (.missingArgument 0 0)

theorem Native.honours_twice : twice.Honours { Terms.any with catches := fun _ => False } 1
  | [_], _ => ⟨trivial, .inl trivial, fun _ => trivial, fun _ => .inl rfl⟩

/-- A fresh machine with this function in a library. -/
def Machine.doubling : Machine :=
  { ofConsole (.ofInput []) with
    heap := ⟨#[], #[⟨"Math", [("Twice", .function ⟨0⟩)]⟩], #[⟨"Twice", ["n"], .native .twice⟩]⟩ }

theorem Machine.handing_doubling : Code.handing.machine doubling := by
  refine ⟨fun f hf => ?_, trivial⟩
  obtain rfl : f = ⟨"Twice", ["n"], .native .twice⟩ := by simpa [doubling] using hf
  exact ⟨Native.honours_twice, .inl trivial⟩

/-- A program that calls a function, which has a number doubled by the host. -/
def doublingInside (p : Position) : Program where
  source := ""
  body := [.function p (some "f") [] [.call p (.member p (.var p "Math") "Twice") [.literal p (.number .one)]],
    .call p (.var p "f") []]

/-- Two calls are enough for it, and in two calls the next one is refused. -/
theorem doublingInside_needs_two_calls :
    Code.handing.machine .doubling ∧
      statements (watched (within 2) .outOfFuel 8) (Session.start ⟨[⟨0⟩], 2⟩ .doubling).root .none
          (doublingInside (.start "")).body (Session.start ⟨[⟨0⟩], 2⟩ .doubling).machine =
        statements (execute 8) (Session.start ⟨[⟨0⟩], 2⟩ .doubling).root .none
          (doublingInside (.start "")).body (Session.start ⟨[⟨0⟩], 2⟩ .doubling).machine ∧
      call (execute 8) (.function ⟨0⟩) [.none] { Machine.doubling with depth := 2, limit := 2 } =
        .error (.failure (.ofCause (.callDepth 2))) { Machine.doubling with depth := 2, limit := 2 } ∧
      (∃ m', Session.runWith 8 ⟨[⟨0⟩], 2⟩ (doublingInside (.start "")) .doubling = .ok (.number (.ofNat 2)) m') ∧
      Session.runWith 8 ⟨[⟨0⟩], 5⟩ (doublingInside (.start "")) .doubling =
        Session.runWith 8 ⟨[⟨0⟩], 2⟩ (doublingInside (.start "")) .doubling := by
  have hrun : ∃ m', Session.runWith 8 ⟨[⟨0⟩], 2⟩ (doublingInside (.start "")) .doubling =
      .ok (.number (.ofNat 2)) m' := ⟨_, rfl⟩
  have hdepth : ¬ ExceedsDepth 2 (Session.runWith 8 ⟨[⟨0⟩], 2⟩ (doublingInside (.start "")) .doubling) := id
  obtain ⟨hwatched, hcall, hlimit, -⟩ :=
    call_limit_is_only_a_bound 8 ⟨[⟨0⟩], 2⟩ (doublingInside (.start "")) .doubling
  exact ⟨Machine.handing_doubling, hwatched (by decide) .outOfFuel, (hcall _ _ ⟨0⟩ [.none] (by decide) rfl).1 rfl, hrun,
    hlimit Machine.handing_doubling 5 (by decide) hdepth⟩

end LineScript
