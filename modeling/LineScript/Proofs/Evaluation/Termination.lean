import LineScript.Proofs.Evaluation.Evolution
import LineScript.Proofs.Scope.Forest
import LineScript.Session
/-!
# Programs without a loop that tests end

Three things could keep a program going: a loop that tests, a loop over the items of an array, and calls. Calls are
nested up to a limit, and a loop over an array ends because its place in the array moves on, while the array does not
grow above the limit of lengths. So without loops that test, a program ends, if the code of the host does not go on for
ever by itself and adds no single items to arrays, which that limit does not stop. The proof is by induction on how many
calls may still be nested, and below that on the nodes of the program.
-/

namespace LineScript

/-- No loop with a test is in the node, nor in a function that it makes. -/
inductive Node.LoopFree : Node → Prop
  | intro {n : Node} (hloop : ∀ p test body, n ≠ .loop p test body) (hchildren : ∀ c ∈ n.children, LoopFree c) :
      LoopFree n

def Program.LoopFree (p : Program) : Prop :=
  ∀ n ∈ p.body, n.LoopFree

/-- The terms of a host whose code does not go on for ever. -/
def Terms.ending : Terms :=
  { Terms.any with diverges := False }

/-- The terms of a host whose code ends and adds no single items to arrays. -/
def Terms.settling : Terms :=
  { Terms.ending with applies := (· ≠ .arrayPush) }

/-- The code of such programs, under such a host. -/
def Code.loopFree : Code :=
  .under Node.LoopFree (fun ⟨_, hchildren⟩ hc => hchildren _ hc) .settling True

namespace Code.Evolves

variable {code : Code} {home : FrameId} {m m' : Machine}

theorem depth_eq (hevolves : code.Evolves home m m') : m'.depth = m.depth := by
  induction hevolves with
  | trans _ _ hfirst hsecond => exact hsecond.trans hfirst
  | inside _ _ _ _ hinner => exact hinner
  | nested _ hcall =>
      show _ - 1 = _
      rw [hcall, Nat.add_sub_cancel]
  | borrowing _ _ hheld => exact hheld
  | _ => rfl

theorem limit_eq (hevolves : code.Evolves home m m') : m'.limit = m.limit := by
  induction hevolves with
  | trans _ _ hfirst hsecond => exact hsecond.trans hfirst
  | inside _ _ _ _ hinner => exact hinner
  | nested _ hcall => exact hcall
  | borrowing _ _ hheld => exact hheld
  | _ => rfl

theorem arrays_size_le (hevolves : code.Evolves home m m') : m.heap.arrays.size ≤ m'.heap.arrays.size := by
  induction hevolves with
  | trans _ _ hfirst hsecond => exact Nat.le_trans hfirst hsecond
  | heap m hheap => exact hheap.arrays_size_le
  | inside _ _ _ _ hinner => exact hinner
  | nested _ hcall => exact hcall
  | borrowing _ _ hheld => exact hheld
  | _ => exact Nat.le_refl _

/-- What operations keep relates the lengths that an array has before and after. -/
theorem related_size {r : Nat → Nat → Prop} (hrefl : ∀ n, r n n) (htrans : ∀ {k m n}, r k m → r m n → r k n)
    (hheap : ∀ {h h' : Heap}, h.Evolves code.terms.applies h' → ∀ id : ArrayId, id.index < h.arrays.size →
      r (h.items id).size (h'.items id).size)
    (hevolves : code.Evolves home m m') (id : ArrayId) (hid : id.index < m.heap.arrays.size) :
    r (m.heap.items id).size (m'.heap.items id).size := by
  induction hevolves with
  | trans hfirst _ ih₁ ih₂ => exact htrans (ih₁ hid) (ih₂ (Nat.lt_of_lt_of_le hid hfirst.arrays_size_le))
  | heap m hevolves => exact hheap hevolves id hid
  | inside _ _ _ _ hinner => exact hinner hid
  | nested _ hcall => exact hcall hid
  | borrowing _ _ hheld => exact hheld hid
  | _ => exact hrefl _

theorem size_items_le (hpush : ¬ code.terms.applies .arrayPush) (hevolves : code.Evolves home m m') (id : ArrayId)
    (hid : id.index < m.heap.arrays.size) : (m'.heap.items id).size ≤ max (m.heap.items id).size maxLength :=
  hevolves.related_size (r := fun m n => n ≤ max m maxLength) (by omega) (by omega) (·.size_items_le hpush) id hid

theorem le_size_items (hresize : ¬ code.terms.applies .arrayResize) (hevolves : code.Evolves home m m')
    (id : ArrayId) (hid : id.index < m.heap.arrays.size) : (m.heap.items id).size ≤ (m'.heap.items id).size :=
  hevolves.related_size Nat.le_refl Nat.le_trans (·.le_size_items hresize) id hid

end Code.Evolves

namespace Eval

variable {α β : Type} {m : Machine}

/-- With enough fuel the action comes to an end, and to the same one with more. -/
def Settles (action : Nat → Eval α) (m : Machine) : Prop :=
  ∃ bound, ∃ result : EStateM.Result Interrupt Machine α, result.Settled ∧ ∀ fuel ≥ bound, action fuel m = result

/-- The machine is one on which code without loops that test runs, in at most `calls` more nested calls. -/
structure Allows (calls : Nat) (m : Machine) : Prop where
  code : Code.loopFree.machine m
  limit_le : m.limit ≤ m.depth + calls

theorem Allows.evolves {calls : Nat} {home : FrameId} {m m' : Machine} (hm : Allows calls m)
    (hevolves : Code.loopFree.Evolves home m m') : Allows calls m' := by
  refine ⟨hevolves.machine_code hm.code, ?_⟩
  rw [hevolves.limit_eq, hevolves.depth_eq]
  exact hm.limit_le

/-- On every such machine the action settles, and leaves one behind. -/
structure Ends (calls : Nat) (home : FrameId) (action : Nat → Eval α) : Prop where
  settles : ∀ m, Allows calls m → Settles action m
  keeps : ∀ fuel, Keeps Code.loopFree home (action fuel)

variable {calls : Nat} {home : FrameId}

theorem Ends.steady {action : Eval α} (haction : Steady Code.loopFree home action) : Ends calls home fun _ => action :=
  ⟨fun m hm => ⟨0, action m, (haction.steps m hm.code).settled.resolve_left id, fun _ _ => rfl⟩, fun _ => haction.keeps⟩

theorem Settles.bind {action : Nat → Eval α} {next : α → Nat → Eval β} (haction : Settles action m)
    (hnext : ∀ fuel a m', action fuel m = .ok a m' → Settles (next a) m') :
    Settles (fun fuel => action fuel >>= fun a => next a fuel) m := by
  obtain ⟨bound, result, hsettled, hresult⟩ := haction
  cases result with
  | ok a m' =>
      obtain ⟨bound', result', hsettled', hresult'⟩ := hnext bound a m' (hresult bound (Nat.le_refl _))
      refine ⟨max bound bound', result', hsettled', fun fuel hfuel => ?_⟩
      have hrun : action fuel m = .ok a m' := hresult fuel (by omega)
      exact (Action.bind_of_ok hrun).trans (hresult' fuel (by omega))
  | error e m' => exact ⟨bound, .error e m', hsettled, fun fuel hfuel => Action.bind_of_error (hresult fuel hfuel)⟩

/-- To change the machine that is reached at the end takes no fuel. -/
theorem Settles.mapState {action action' : Nat → Eval α} {m' : Machine} (hsettles : Settles action m)
    (f : Machine → Machine) (hsame : ∀ fuel, action' fuel m' = (action fuel m).mapState f) : Settles action' m' := by
  obtain ⟨bound, result, hsettled, hresult⟩ := hsettles
  refine ⟨bound, result.mapState f, (settled_mapState f result).2 hsettled, fun fuel hfuel => ?_⟩
  rw [hsame, hresult fuel hfuel]

theorem Ends.bind {action : Nat → Eval α} {next : α → Nat → Eval β} (haction : Ends calls home action)
    (hnext : ∀ a, Ends calls home (next a)) : Ends calls home fun fuel => action fuel >>= fun a => next a fuel := by
  refine ⟨fun m hm => (haction.settles m hm).bind fun fuel a m' hrun => ?_, fun fuel => ?_⟩
  · have hevolves := haction.keeps fuel m hm.code
    rw [hrun] at hevolves
    exact (hnext a).settles m' (hm.evolves hevolves)
  · exact (haction.keeps fuel).bind fun a => (hnext a).keeps fuel

theorem Ends.inside {next : Scope → Nat → Eval α} (scope : Scope) (bindings : Bindings)
    (hnext : ∀ inner : Scope, Ends calls inner.frame (next inner)) :
    Ends calls home fun fuel => newChild scope bindings >>= fun inner => next inner fuel :=
  ⟨fun m hm => (hnext ⟨⟨m.scopes.frames.size⟩, scope.chain⟩).settles
      { m with scopes := (m.scopes.newChild scope bindings).2 } ⟨hm.code, hm.limit_le⟩,
    (keepsLaw _ _).inside scope bindings fun inner => (hnext inner).keeps⟩

theorem Ends.located {action : Nat → Eval α} (p : Position) (haction : Ends calls home action) :
    Ends calls home fun fuel => located p (action fuel) := by
  refine ⟨fun m hm => ?_, fun fuel => (haction.keeps fuel).located p⟩
  obtain ⟨bound, result, hsettled, hresult⟩ := haction.settles m hm
  refine ⟨bound, Eval.located p (fun _ => result) m, ?_, fun fuel hfuel => ?_⟩
  · exact (settled_located p _ m).2 hsettled
  · show Eval.located p (action fuel) m = _
    unfold Eval.located
    rw [hresult fuel hfuel]

theorem Ends.reading (next : Heap → HostState → Nat → Eval α)
    (hnext : ∀ h host, Code.loopFree.heap h → Code.loopFree.terms.states host → Ends calls home (next h host)) :
    Ends calls home fun fuel m => next m.heap m.toHostState fuel m :=
  ⟨fun m hm => (hnext m.heap m.toHostState hm.code.1 hm.code.2).settles m hm,
    (keepsLaw _ Nat).reading next fun h host hh _ hhost => (hnext h host hh hhost).keeps⟩

theorem Ends.attempt {action : Nat → Eval Value} (haction : Ends calls home action) :
    Ends calls home fun fuel => attempt (action fuel) := by
  refine ⟨fun m hm => ?_, fun fuel => (haction.keeps fuel).attempt⟩
  obtain ⟨bound, result, hsettled, hresult⟩ := haction.settles m hm
  refine ⟨bound, Eval.attempt (fun _ => result) m, ?_, fun fuel hfuel => ?_⟩
  · unfold Eval.attempt
    cases result with
    | ok v m => trivial
    | error e m =>
        cases e with
        | failure f => trivial
        | _ => exact hsettled
  · show Eval.attempt (action fuel) m = _
    unfold Eval.attempt
    rw [hresult fuel hfuel]

theorem Ends.caught {action : Nat → Eval Value} {next : Reply → Nat → Eval α} (haction : Ends calls home action)
    (hok : ∀ v, Ends calls home (next (.ok v)))
    (herror : ∀ f, (∀ fuel, next (.error f) fuel = throw (.failure f)) ∨ Ends calls home (next (.error f))) :
    Ends calls home fun fuel => Eval.attempt (action fuel) >>= fun reply => next reply fuel := by
  refine haction.attempt.bind fun reply => ?_
  cases reply with
  | ok v => exact hok v
  | error f =>
      refine (herror f).elim (fun hhanded => ?_) id
      rw [funext hhanded]
      exact .steady (.failure (.host trivial))

theorem Ends.borrowing (cell : Cell) {action : Nat → Eval α} (haction : Ends calls home action) :
    Ends calls home fun fuel => borrowing cell (action fuel) := by
  refine ⟨fun m hm => ?_, fun fuel => (haction.keeps fuel).borrowing cell⟩
  by_cases hcell : cell ∈ m.borrowed
  · exact ⟨0, .error (.fault .alreadyBorrowed) m, Interrupt.noConfusion,
      fun fuel _ => borrowing_of_mem (action fuel) hcell⟩
  · exact (haction.settles { m with borrowed := cell :: m.borrowed } ⟨hm.code, hm.limit_le⟩).mapState _
      fun fuel => borrowing_of_not_mem (action fuel) hcell

/-! ### Loops over arrays

`rounds` bounds the rounds of the loop alone, so that the number of rounds that are ever made can be read off it.
-/

theorem forItems_of_none {id : ArrayId} {body : Value → Eval Value} {limit place : Nat} {m : Machine}
    (hlimit : 0 < limit) (hitem : (m.heap.items id)[place]? = none) :
    forItems id body limit place m = .ok .none m := by
  obtain ⟨rest, rfl⟩ : ∃ rest, limit = rest + 1 := ⟨limit - 1, by omega⟩
  simp only [forItems_succ, hitem]
  rfl

theorem forItems_of_some {id : ArrayId} {body : Value → Eval Value} {rest place : Nat} {m : Machine} {v : Value}
    (hitem : (m.heap.items id)[place]? = some v) :
    forItems id body (rest + 1) place m = (do let _ ← body v; forItems id body rest (place + 1)) m := by
  simp only [forItems_succ, hitem]
  rfl

/-- A loop over an array that is at no time longer than `bound` makes no more rounds than lie between its place and the
bound, and ends if its body does. -/
theorem forItems_settles (id : ArrayId) {body : Nat → Value → Eval Value}
    (hbody : ∀ v, Ends calls home fun fuel => body fuel v) {bound : Nat} (hbound : maxLength ≤ bound)
    {rounds place : Nat} (hrounds : bound ≤ place + rounds) {m : Machine} (hm : Allows calls m)
    (hsize : (m.heap.items id).size ≤ bound) :
    ∃ least, ∃ result : EStateM.Result Interrupt Machine Value, result.Settled ∧
      ∀ fuel ≥ least, ∀ limit > rounds, forItems id (body fuel) limit place m = result := by
  induction rounds generalizing place m with
  | zero =>
      have hitem : (m.heap.items id)[place]? = none := Array.getElem?_eq_none (by omega)
      exact ⟨0, .ok .none m, trivial, fun _ _ _ hlimit => forItems_of_none (by omega) hitem⟩
  | succ rounds ih =>
      cases hitem : (m.heap.items id)[place]? with
      | none => exact ⟨0, .ok .none m, trivial, fun _ _ _ hlimit => forItems_of_none (by omega) hitem⟩
      | some v =>
          obtain ⟨least, result, hsettled, hresult⟩ := (hbody v).settles m hm
          dsimp only at hresult
          have hround (fuel limit : Nat) (hlimit : limit > rounds + 1) : forItems id (body fuel) limit place m =
              (do let _ ← body fuel v; forItems id (body fuel) (limit - 1) (place + 1)) m := by
            obtain ⟨rest, rfl⟩ : ∃ rest, limit = rest + 1 := ⟨limit - 1, by omega⟩
            exact forItems_of_some hitem
          cases result with
          | error e m' =>
              exact ⟨least, .error e m', hsettled, fun fuel hfuel limit hlimit =>
                (hround fuel limit hlimit).trans (Action.bind_of_error (hresult fuel hfuel))⟩
          | ok a m' =>
              have hevolves := (hbody v).keeps least m hm.code
              rw [hresult least (Nat.le_refl _)] at hevolves
              -- The array has an item, so it is one of the heap's and what bounds its growth applies.
              have hindex := Heap.index_lt_of_lt_size (Array.getElem?_eq_some_iff.1 hitem).1
              have hsize' := hevolves.size_items_le (absurd rfl) id hindex
              obtain ⟨least', result', hsettled', hresult'⟩ :=
                ih (show bound ≤ place + 1 + rounds by omega) (hm.evolves hevolves) (by omega)
              refine ⟨max least least', result', hsettled', fun fuel hfuel limit hlimit => ?_⟩
              rw [hround fuel limit hlimit, Action.bind_of_ok (hresult fuel (by omega))]
              exact hresult' fuel (by omega) (limit - 1) (by omega)

theorem Ends.forItems (id : ArrayId) {body : Nat → Value → Eval Value}
    (hbody : ∀ v, Ends calls home fun fuel => body fuel v) :
    Ends calls home fun fuel => forItems id (body fuel) fuel 0 := by
  refine ⟨fun m hm => ?_, fun fuel => (keepsLaw _ Unit).forItems id (fun v _ => (hbody v).keeps fuel) fuel 0 ()⟩
  obtain ⟨least, result, hsettled, hresult⟩ :=
    forItems_settles id hbody (Nat.le_max_right (m.heap.items id).size maxLength)
      (Nat.le_of_eq (Nat.zero_add _).symm) hm (Nat.le_max_left _ _)
  refine ⟨max least (max (m.heap.items id).size maxLength + 1), result, hsettled, fun fuel hfuel => ?_⟩
  exact hresult fuel (by omega) fuel (by omega)

def endsLaw (calls : Nat) : Law Code.loopFree Nat where
  Holds := Ends calls
  steady := Ends.steady
  bind := Ends.bind
  inside scope bindings hnext := Ends.inside scope bindings hnext
  located p _ haction := haction.located p
  reading next hnext := Ends.reading next fun h host hh hhost => hnext h host hh trivial hhost
  caught haction hok herror := haction.caught hok fun f => (herror f).imp_right (·.2)
  borrowing cell _ haction := haction.borrowing cell

/-! ### Calls -/

theorem Ends.execute {w : Work} (hstep : Ends calls home fun fuel => step fuel (execute fuel) w) :
    Ends calls home fun fuel => execute fuel w := by
  constructor
  · intro m hm
    obtain ⟨bound, result, hsettled, hresult⟩ := hstep.settles m hm
    refine ⟨bound + 1, result, hsettled, fun fuel hfuel => ?_⟩
    obtain ⟨rest, rfl⟩ : ∃ rest, fuel = rest + 1 := ⟨fuel - 1, by omega⟩
    exact hresult rest (by omega)
  · intro fuel
    cases fuel with
    | zero => exact fun m _ => .refl m
    | succ fuel => exact hstep.keeps fuel

theorem ends_node (hcall : ∀ home f args, Ends calls home fun fuel => execute fuel (.call f args)) {n : Node}
    (hn : n.LoopFree) (scope : Scope) : Ends calls scope.frame fun fuel => execute fuel (.node scope n) := by
  induction hn generalizing scope with
  | @intro n hloop hchildren ih =>
      apply Ends.execute
      show (endsLaw calls).Holds scope.frame fun fuel => node fuel (execute fuel) scope n
      refine (endsLaw calls).node _ (.intro hloop hchildren) (fun _ => trivial) ih hcall
        (fun id _ hbody => Ends.forItems id hbody) ?_ fun p test body hn => (hloop p test body hn).elim
      rintro p array index value rfl
      exact (endsLaw calls).assignItem _ trivial (fun c hc => ih c hc scope) fun target i v =>
        .steady (.onHeap (Operation.regular_writeItem target i v))

theorem Settles.nested {action : Nat → Eval α}
    (haction : m.depth < m.limit → Settles action { m with depth := m.depth + 1 }) :
    Settles (fun fuel => nested (action fuel)) m := by
  rcases Nat.lt_or_ge m.depth m.limit with hlimit | hlimit
  · exact (haction hlimit).mapState _ fun fuel => nested_of_lt (action fuel) hlimit
  · exact ⟨0, raise (.callDepth m.limit) m, Interrupt.noConfusion, fun fuel _ => nested_of_le (action fuel) hlimit⟩

theorem call_function (run : Work → Eval Value) (id : FunctionId) (args : List Value) (m : Machine) :
    call run (.function id) args m =
      if args.length = (m.heap.function id).params.length then nested (invoke run (m.heap.function id) args) m
      else raise (.arity (m.heap.function id).name (m.heap.function id).params.length args.length) m := by
  show (ite _ _ _ : Eval Value) m = _
  split <;> rfl

theorem settles_call {f : Value} {args : List Value} (hcode : Code.loopFree.machine m)
    (hinvoke : m.depth < m.limit → ∀ g, Code.loopFree.function g → args.length = g.params.length →
      Settles (fun fuel => invoke (execute fuel) g args) { m with depth := m.depth + 1 }) :
    Settles (fun fuel => call (execute fuel) f args) m := by
  cases f with
  | function id =>
      by_cases harity : args.length = (m.heap.function id).params.length
      · obtain ⟨bound, result, hsettled, hresult⟩ :=
          Settles.nested fun hlimit => hinvoke hlimit _ (Code.function_of_heap hcode.1 id) harity
        refine ⟨bound, result, hsettled, fun fuel hfuel => ?_⟩
        exact (call_function _ id args m).trans ((if_pos harity).trans (hresult fuel hfuel))
      · refine ⟨0, _, Interrupt.noConfusion, fun fuel _ => (call_function _ id args m).trans (if_neg harity)⟩
  | _ => exact ⟨0, raise _ m, Interrupt.noConfusion, fun fuel _ => rfl⟩

theorem ends_call (calls : Nat) (home : FrameId) (f : Value) (args : List Value) :
    Ends calls home fun fuel => execute fuel (.call f args) := by
  induction calls generalizing home f args with
  | zero =>
      refine Ends.execute ⟨fun m hm => settles_call hm.code fun hlimit => ?_, fun fuel => ?_⟩
      · exact absurd hm.limit_le (Nat.not_le.2 hlimit)
      · exact keeps_execute _ (fuel + 1) home (.call f args) trivial
  | succ calls ih =>
      refine Ends.execute ⟨fun m hm => settles_call hm.code fun _ g hg hargs => ?_, fun fuel => ?_⟩
      · have hinvoke : Ends calls home fun fuel => invoke (execute fuel) g args :=
          (endsLaw calls).invoke hg hargs (fun n hn scope => ends_node ih hn scope) ih
        have hlimit := hm.limit_le
        exact hinvoke.settles _ ⟨hm.code, show m.limit ≤ m.depth + 1 + calls by omega⟩
      · exact keeps_execute _ (fuel + 1) home (.call f args) trivial

end Eval

/-! ### Runs -/

open Eval

namespace Session

theorem runWith_settles (s : Session) {p : Program} (hp : p.LoopFree) {m : Machine}
    (hcode : Code.loopFree.machine m) : Settles (fun fuel => runWith fuel s p) m := by
  have hbody : Ends s.maxCallDepth (s.start m).root.frame fun fuel =>
      statements (Eval.execute fuel) (s.start m).root .none p.body :=
    (endsLaw _).statements (fun n hn => ends_node (ends_call _) (hp n hn) _) .none
  obtain ⟨bound, result, hsettled, hresult⟩ :=
    hbody.settles (s.start m).machine ⟨hcode, Nat.le_add_left s.maxCallDepth m.depth⟩
  refine ⟨bound, finish (s.start m).arena m.limit result, ?_, fun fuel hfuel => ?_⟩
  · unfold finish
    split
    · trivial
    · exact Interrupt.noConfusion
    · exact hsettled
  · exact congrArg (finish _ _) (hresult fuel hfuel)

end Session

/-- A program without loops that test ends on a fresh machine, with no library and with the standard one, if the
callbacks of the host end and add no single items to arrays, whatever else they do, whatever state the host is in and
however deep calls may be nested. A loop over an array makes at most as many rounds as the array has items at its start
or as the limit of lengths allows. -/
theorem loopFree_settles {p : Program} (hp : p.LoopFree) {c : Callbacks} (hc : c.Honour .settling)
    (maxCallDepth : Nat) (console : Console) (updates : List Value) :
    Settles (fun fuel => Session.runWith fuel ⟨[], maxCallDepth⟩ p) { Machine.ofConsole console with updates } ∧
      Settles
        (fun fuel => onHeap (Library.standardOf c) >>= fun library => Session.runWith fuel ⟨library, maxCallDepth⟩ p)
        { Machine.ofConsole console with updates } ∧
      ∀ m : Machine, Code.loopFree.machine m → ∀ scope name body, (∀ n ∈ body, n.LoopFree) → ∀ id,
        ∃ least, ∃ result : EStateM.Result Interrupt Machine Value, result.Settled ∧
          ∀ fuel ≥ least, ∀ limit > max (m.heap.items id).size maxLength,
            forItems id (fun v => do writeVariable scope name v; block (Eval.execute fuel) scope body) limit 0 m =
              result := by
  refine ⟨?_, ?_, ?_⟩
  · exact Session.runWith_settles ⟨[], maxCallDepth⟩ hp ⟨Code.loopFree.heap_empty, trivial⟩
  · obtain ⟨library, h, hstandard, hheap⟩ :=
      Library.standardOf_code hc (fun _ _ hhonours _ => And.intro hhonours (.inl trivial)) Code.loopFree.heap_empty
    have hrun : onHeap (Library.standardOf c) { Machine.ofConsole console with updates } =
        .ok library { Machine.ofConsole console with updates, heap := h } := onHeap_of_ok hstandard
    refine Settles.bind ⟨0, .ok library _, trivial, fun _ _ => hrun⟩ fun _ a m' hok => ?_
    obtain ⟨rfl, rfl⟩ := EStateM.Result.ok.inj (hrun.symm.trans hok)
    exact Session.runWith_settles ⟨library, maxCallDepth⟩ hp ⟨hheap, trivial⟩
  · intro m hcode scope name body hbody id
    have hround (v : Value) :
        Ends m.limit scope.frame fun fuel => (do writeVariable scope name v; block (Eval.execute fuel) scope body) :=
      (endsLaw m.limit).bind ((endsLaw m.limit).steady (.writeVariable scope name v)) fun _ =>
        (endsLaw m.limit).block fun inner n hn => ends_node (ends_call m.limit) (hbody n hn) inner
    exact forItems_settles id hround (Nat.le_max_right _ _) (Nat.le_of_eq (Nat.zero_add _).symm)
      ⟨hcode, Nat.le_add_left m.limit m.depth⟩ (Nat.le_max_left _ _)

/-! ### A program that ends

The loop writes behind the end of the array it goes over, and the function that holds it goes on to call itself.
-/

theorem Node.loopFree_var (p : Position) (name : String) : (Node.var p name).LoopFree :=
  .intro (fun _ _ _ => Node.noConfusion) (List.forall_mem_nil _)

def growing (p : Position) : Node :=
  .forEach p "x" (.var p "xs") [.assignItem p (.var p "xs") (.var p "x") (.binary p .add (.var p "x") (.var p "x"))]

theorem loopFree_growing (p : Position) : (growing p).LoopFree := by
  have hsum : (Node.binary p .add (.var p "x") (.var p "x")).LoopFree := by
    refine .intro (fun _ _ _ => Node.noConfusion) ?_
    simp [Node.children, Node.loopFree_var]
  have hwrite : (Node.assignItem p (.var p "xs") (.var p "x") (.binary p .add (.var p "x") (.var p "x"))).LoopFree := by
    refine .intro (fun _ _ _ => Node.noConfusion) ?_
    simp [Node.children, Node.loopFree_var, hsum]
  refine .intro (fun _ _ _ => Node.noConfusion) ?_
  simp [growing, Node.children, Node.loopFree_var, hwrite]

def recursing (p : Position) : Program where
  source := ""
  body := [.function p (some "f") ["xs"] [growing p, .call p (.var p "f") [.var p "xs"]],
    .call p (.var p "f") [.list p [.literal p (.number .one)]]]

theorem loopFree_recursing (p : Position) : (recursing p).LoopFree := by
  have hcall (arg : Node) (harg : arg.LoopFree) : (Node.call p (.var p "f") [arg]).LoopFree := by
    refine .intro (fun _ _ _ => Node.noConfusion) ?_
    simp [Node.children, Node.loopFree_var, harg]
  have hlist : (Node.list p [.literal p (.number .one)]).LoopFree := by
    refine .intro (fun _ _ _ => Node.noConfusion) (List.forall_mem_singleton.2 ?_)
    exact .intro (fun _ _ _ => Node.noConfusion) (List.forall_mem_nil _)
  have hfunction : (Node.function p (some "f") ["xs"] [growing p, .call p (.var p "f") [.var p "xs"]]).LoopFree := by
    refine .intro (fun _ _ _ => Node.noConfusion) ?_
    simp [Node.children, loopFree_growing, hcall, Node.loopFree_var]
  exact List.forall_mem_cons.2 ⟨hfunction, List.forall_mem_singleton.2 (hcall _ hlist)⟩

theorem Callbacks.honour_settling : plain.Honour .settling :=
  honour_plain_of_closed Primitive.noConfusion (fun _ _ => trivial) (fun _ => trivial) trivial

theorem recursing_settles :
    (recursing (.start "")).LoopFree ∧ Callbacks.plain.Honour .settling ∧
      Settles (fun fuel => onHeap (Library.standardOf .plain) >>= fun library =>
          Session.runWith fuel ⟨library, 3⟩ (recursing (.start "")))
        { Machine.ofConsole (.ofInput []) with updates := [] } :=
  ⟨loopFree_recursing _, Callbacks.honour_settling,
    (loopFree_settles (loopFree_recursing _) Callbacks.honour_settling 3 (.ofInput []) []).2.1⟩

/-! ### A program that a host keeps going

Adding a single item is not held against the limit of lengths, which is one on what scripts build.
-/

/-- Writing an array adds an item to it. -/
def Callbacks.pushing : Callbacks :=
  { plain with writeLine := fun v => .applies .arrayPush [v, .none] HostCode.handsOn }

def feedingCall (p : Position) : Node :=
  .call p (.member p (.var p "Console") "WriteLine") [.var p "a"]

def feeding (p : Position) : Program where
  source := ""
  body := [.assign p "a" (.list p [.literal p .none]), .forEach p "x" (.var p "a") [feedingCall p]]

/-- The machine in the loop: what the body reads, and the room for the call that it makes. -/
structure Fed (m : Machine) : Prop where
  array : (m.scopes.bindings ⟨0⟩).get? "a" = some (.array ⟨0⟩)
  console : (m.scopes.bindings ⟨0⟩).get? "Console" = some (.object ⟨0⟩)
  frame : 0 < m.scopes.frames.size
  member : (m.heap.object ⟨0⟩).members.get? "WriteLine" = some (.function ⟨0⟩)
  function : m.heap.function ⟨0⟩ = ⟨"WriteLine", ["v"], .native (.writeLine ⟨0⟩ Callbacks.pushing.writeLine)⟩
  depth : m.depth < m.limit
  borrowed : m.borrowed = []

namespace Eval

variable {α : Type}

theorem located_of_ok {p : Position} {action : Eval α} {m m' : Machine} {a : α} (hrun : action m = .ok a m') :
    located p action m = .ok a m' := by
  unfold located
  rw [hrun]

theorem execute_var {fuel : Nat} {scope : Scope} {p : Position} {name : String} {m : Machine} {v : Value}
    (hv : m.scopes.get? scope name = some v) : execute (fuel + 1) (.node scope (.var p name)) m = .ok v m := by
  refine located_of_ok ?_
  show orRaise _ (m.scopes.get? scope name) m = _
  rw [hv]
  rfl

theorem execute_member {fuel : Nat} {scope : Scope} {p : Position} {receiver : Node} {name : String} {m : Machine}
    {id : ObjectId} {v : Value} (hreceiver : execute fuel (.node scope receiver) m = .ok (.object id) m)
    (hv : (m.heap.object id).members.get? name = some v) :
    execute (fuel + 1) (.node scope (.member p receiver name)) m = .ok v m := by
  refine located_of_ok ((Action.bind_of_ok hreceiver).trans (onHeap_of_ok (h := m.heap) ?_))
  show orRaise _ ((m.heap.object id).members.get? name) m.heap = _
  rw [hv]
  rfl

theorem call_pushing {fuel : Nat} {m : Machine} (hm : Fed m) :
    execute (fuel + 1) (.call (.function ⟨0⟩) [.array ⟨0⟩]) m =
      .ok .none { m with heap := m.heap.modifyItems ⟨0⟩ (·.push .none) } := by
  obtain ⟨host, heap, scopes, borrowed, depth, limit⟩ := m
  obtain ⟨-, -, -, -, hfunction, hdepth, rfl⟩ := hm
  dsimp only at hfunction
  refine (call_function _ ⟨0⟩ [.array ⟨0⟩] _).trans ?_
  simp only [hfunction]
  refine (if_pos rfl).trans ?_
  rw [nested_of_lt _ hdepth]
  rfl

/-- The call adds an item to the array that the loop goes over. -/
theorem execute_feedingCall (fuel : Nat) (p : Position) {scope : Scope} {m : Machine} (hm : Fed m)
    (hscope : ∀ name, m.scopes.get? scope name = (m.scopes.bindings ⟨0⟩).get? name) :
    execute (fuel + 3) (.node scope (feedingCall p)) m =
      .ok .none { m with heap := m.heap.modifyItems ⟨0⟩ (·.push .none) } := by
  have harray : execute (fuel + 2) (.node scope (.var p "a")) m = .ok (.array ⟨0⟩) m :=
    execute_var ((hscope "a").trans hm.array)
  have hconsole : execute (fuel + 1) (.node scope (.var p "Console")) m = .ok (.object ⟨0⟩) m :=
    execute_var ((hscope "Console").trans hm.console)
  have hvalues : values (execute (fuel + 2)) scope [.var p "a"] m = .ok [.array ⟨0⟩] m :=
    Action.bind_of_ok harray
  refine located_of_ok ((Action.bind_of_ok (execute_member hconsole hm.member)).trans ?_)
  exact (Action.bind_of_ok hvalues).trans (call_pushing hm)

/-- The round makes a scope, writes a variable that nothing reads, and pushes one item. -/
theorem feeding_round (fuel : Nat) (p : Position) {m : Machine} (hm : Fed m) (v : Value) :
    ∃ m', (do writeVariable ⟨⟨0⟩, []⟩ "x" v; block (execute (fuel + 3)) ⟨⟨0⟩, []⟩ [feedingCall p] : Eval Value) m =
      .ok .none m' ∧ Fed m' ∧ m'.heap = m.heap.modifyItems ⟨0⟩ (·.push .none) := by
  have htarget : (m.scopes.binder? ⟨⟨0⟩, []⟩ "x").getD ⟨0⟩ = ⟨0⟩ := by
    cases hbinder : m.scopes.binder? ⟨⟨0⟩, []⟩ "x" with
    | none => rfl
    | some id => simpa [Scope.chain] using List.mem_of_find?_eq_some hbinder
  let written := m.scopes.assign ⟨⟨0⟩, []⟩ "x" v
  have hframe : 0 < written.frames.size := by simpa [written, Scopes.assign] using hm.frame
  let inner := written.newChild ⟨⟨0⟩, []⟩ []
  have hbindings : inner.2.bindings ⟨0⟩ = written.bindings ⟨0⟩ := Scopes.bindings_newChild _ _ _ hframe
  have hkept (name : String) (hname : name ≠ "x") :
      (inner.2.bindings ⟨0⟩).get? name = (m.scopes.bindings ⟨0⟩).get? name := by
    rw [hbindings]
    exact Scopes.get?_bindings_assign_of_ne htarget hm.frame hname ⟨0⟩
  have hfed (h : Heap) (hmember : (h.object ⟨0⟩).members = (m.heap.object ⟨0⟩).members)
      (hfunction : h.function ⟨0⟩ = m.heap.function ⟨0⟩) : Fed { m with scopes := inner.2, heap := h } :=
    ⟨(hkept "a" (by decide)).trans hm.array, (hkept "Console" (by decide)).trans hm.console, by simp [inner],
      hmember ▸ hm.member, hfunction.trans hm.function, hm.depth, hm.borrowed⟩
  have hscope (name : String) : inner.2.get? inner.1 name = (inner.2.bindings ⟨0⟩).get? name := by
    have hown : inner.2.bindings inner.1.frame = [] := Scopes.bindings_newChild_self _ _ _
    have hchain : inner.1.chain = [inner.1.frame, ⟨0⟩] := rfl
    unfold Scopes.get?
    rw [hchain, List.findSome?_cons, hown]
    show List.findSome? _ [(⟨0⟩ : FrameId)] = _
    rw [List.findSome?_cons]
    cases (inner.2.bindings ⟨0⟩).get? name <;> rfl
  have hcall := execute_feedingCall fuel p (hfed m.heap rfl rfl) hscope
  exact ⟨_, Action.bind_of_ok hcall, hfed _ rfl rfl, rfl⟩

theorem forItems_fed (fuel : Nat) (p : Position) (limit place : Nat) {m : Machine} (hm : Fed m)
    (hplace : place < (m.heap.items ⟨0⟩).size) :
    ∃ m', forItems ⟨0⟩ (fun v => do writeVariable ⟨⟨0⟩, []⟩ "x" v; block (execute (fuel + 3)) ⟨⟨0⟩, []⟩ [feedingCall p])
      limit place m = .error .outOfFuel m' := by
  induction limit generalizing place m with
  | zero => exact ⟨m, rfl⟩
  | succ limit ih =>
      obtain ⟨m₁, hround, hm₁, hheap⟩ := feeding_round fuel p hm (m.heap.items ⟨0⟩)[place]
      have hsize : (m₁.heap.items ⟨0⟩).size = (m.heap.items ⟨0⟩).size + 1 := by
        rw [hheap, Heap.items_modifyItems _ _ _ (Heap.index_lt_of_lt_size hplace), if_pos rfl, Array.size_push]
      rw [forItems_of_some (Array.getElem?_eq_getElem hplace), Action.bind_of_ok hround]
      exact ih (place + 1) hm₁ (by omega)

theorem forEach_fed (fuel : Nat) (p : Position) {m : Machine} (hm : Fed m)
    (hsize : 0 < (m.heap.items ⟨0⟩).size) :
    ∃ m', execute (fuel + 4) (.node ⟨⟨0⟩, []⟩ (.forEach p "x" (.var p "a") [feedingCall p])) m =
      .error .outOfFuel m' := by
  have hread : m.scopes.get? ⟨⟨0⟩, []⟩ "a" = some (.array ⟨0⟩) := by
    show List.findSome? _ [(⟨0⟩ : FrameId)] = _
    rw [List.findSome?_cons, hm.array]
  have hlist : execute (fuel + 3) (.node ⟨⟨0⟩, []⟩ (.var p "a")) m = .ok (.array ⟨0⟩) m := execute_var hread
  obtain ⟨m', hloop⟩ := forItems_fed fuel p (fuel + 3) 0 hm hsize
  refine ⟨m', ?_⟩
  show located p (execute (fuel + 3) (.node ⟨⟨0⟩, []⟩ (.var p "a")) >>= _) m = _
  unfold located
  rw [Action.bind_of_ok hlist]
  dsimp only
  rw [hloop]

theorem feeding_evaluation (fuel : Nat) (p : Position) :
    ∃ m', (onHeap (Library.standardOf .pushing) >>= fun library => Session.runWith (fuel + 4) ⟨library, 1⟩ (feeding p))
      (.ofConsole (.ofInput [])) = .error .outOfFuel m' := by
  obtain ⟨library, m, hlibrary, hroot, m₁, hassign, hfed, hsize⟩ :
      ∃ library m, onHeap (Library.standardOf .pushing) (.ofConsole (.ofInput [])) = .ok library m ∧
        (Session.start ⟨library, 1⟩ m).root = ⟨⟨0⟩, []⟩ ∧
        ∃ m₁, execute (fuel + 4) (.node ⟨⟨0⟩, []⟩ (.assign p "a" (.list p [.literal p .none])))
            (Session.start ⟨library, 1⟩ m).machine = .ok (.array ⟨0⟩) m₁ ∧
          Fed m₁ ∧ 0 < (m₁.heap.items ⟨0⟩).size :=
    ⟨_, _, rfl, rfl, _, rfl, ⟨rfl, rfl, by decide, rfl, rfl, by decide, rfl⟩, by decide⟩
  obtain ⟨m', hloop⟩ := forEach_fed fuel p hfed hsize
  rw [Action.bind_of_ok hlibrary]
  have hbody : statements (execute (fuel + 4)) (Session.start ⟨library, 1⟩ m).root .none (feeding p).body
      (Session.start ⟨library, 1⟩ m).machine = .error .outOfFuel m' := by
    rw [hroot]
    exact (Action.bind_of_ok hassign).trans (Action.bind_of_error hloop)
  exact ⟨_, congrArg (Session.finish (Session.start ⟨library, 1⟩ m).arena m.limit) hbody⟩

end Eval

theorem loopFree_feeding (p : Position) : (feeding p).LoopFree := by
  have hcall : (feedingCall p).LoopFree := by
    refine .intro (fun _ _ _ => Node.noConfusion) ?_
    have hmember : (Node.member p (.var p "Console") "WriteLine").LoopFree :=
      .intro (fun _ _ _ => Node.noConfusion) (List.forall_mem_singleton.2 (Node.loopFree_var p _))
    simp [feedingCall, Node.children, Node.loopFree_var, hmember]
  have hliteral : (Node.literal p .none).LoopFree :=
    .intro (fun _ _ _ => Node.noConfusion) (List.forall_mem_nil _)
  have hlist : (Node.list p [.literal p .none]).LoopFree :=
    .intro (fun _ _ _ => Node.noConfusion) (List.forall_mem_singleton.2 hliteral)
  have hassign : (Node.assign p "a" (.list p [.literal p .none])).LoopFree :=
    .intro (fun _ _ _ => Node.noConfusion) (List.forall_mem_singleton.2 hlist)
  have hloop : (Node.forEach p "x" (.var p "a") [feedingCall p]).LoopFree := by
    refine .intro (fun _ _ _ => Node.noConfusion) ?_
    simp [Node.children, Node.loopFree_var, hcall]
  exact List.forall_mem_cons.2 ⟨hassign, List.forall_mem_singleton.2 hloop⟩

/-- The console of this host ends each time it is asked to write, and the program has no loop that tests. Still its loop
over an array gets a further round in each round, and goes on for ever. -/
theorem feeding_never_settles :
    (feeding (.start "")).LoopFree ∧ Callbacks.pushing.Honour .ending ∧
      ¬ Settles (fun fuel => onHeap (Library.standardOf .pushing) >>= fun library =>
          Session.runWith fuel ⟨library, 1⟩ (feeding (.start "")))
        (.ofConsole (.ofInput [])) := by
  refine ⟨loopFree_feeding _, ⟨fun v => ?_, ?_, ?_⟩, fun ⟨bound, result, hsettled, hresult⟩ => ?_⟩
  · exact ⟨trivial, .inl trivial, fun _ => trivial, fun _ => .inl rfl⟩
  · exact HostCode.honours_exchanges fun _ _ => ⟨trivial, fun _ _ => trivial⟩
  · exact HostCode.honours_exchanges fun _ _ => ⟨trivial, fun _ _ => trivial⟩
  · obtain ⟨m', hends⟩ := feeding_evaluation bound (.start "")
    have hsame : result = .error .outOfFuel m' := (hresult (bound + 4) (Nat.le_add_right _ _)).symm.trans hends
    rw [hsame] at hsettled
    exact hsettled rfl

end LineScript
