import LineScript.Proofs.Evaluation.Orderliness
import LineScript.Proofs.Evaluation.Termination
import LineScript.Proofs.Operation.Indexing
import LineScript.Proofs.Scope.Forest
/-!
# Loops over arrays that change

A loop over an array asks for the item at its place when it comes to it, and for the end of the array when it comes to
that. What it goes through is therefore a matter of how long the array is at any time. Without a library nothing makes
an array shorter, and only a write behind its end makes it longer. The first is a property of all operations, the second
is shown by comparing an evaluation with one in which such a write is a fault.
-/

namespace LineScript

/-- The second heap has the arrays of the first, none of them shorter and none beyond the limit of lengths that was not
as long before. It has no functions but those of scripts. -/
structure Heap.Lengthens (h h' : Heap) : Prop where
  scripts : Code.scripts.heap h'
  arrays_size_le : h.arrays.size ≤ h'.arrays.size
  le_size_items : ∀ id : ArrayId, id.index < h.arrays.size → (h.items id).size ≤ (h'.items id).size
  size_items_le : ∀ id : ArrayId, id.index < h.arrays.size → (h'.items id).size ≤ max (h.items id).size maxLength

theorem Heap.Lengthens.refl {h : Heap} (hscripts : Code.scripts.heap h) : h.Lengthens h :=
  ⟨hscripts, Nat.le_refl _, fun _ _ => Nat.le_refl _, fun _ _ => Nat.le_max_left _ _⟩

theorem Heap.Lengthens.trans {h₁ h₂ h₃ : Heap} (hfirst : h₁.Lengthens h₂) (hsecond : h₂.Lengthens h₃) :
    h₁.Lengthens h₃ := by
  refine ⟨hsecond.scripts, Nat.le_trans hfirst.arrays_size_le hsecond.arrays_size_le, fun id hid => ?_,
    fun id hid => ?_⟩
  all_goals
    have hid₂ := Nat.lt_of_lt_of_le hid hfirst.arrays_size_le
  · exact Nat.le_trans (hfirst.le_size_items id hid) (hsecond.le_size_items id hid₂)
  · have hle₁ := hfirst.size_items_le id hid
    have hle₂ := hsecond.size_items_le id hid₂
    omega

theorem Code.Evolves.lengthens {home : FrameId} {m m' : Machine} (hevolves : Code.scripts.Evolves home m m')
    (hm : Code.scripts.heap m.heap) : m.heap.Lengthens m'.heap :=
  ⟨(hevolves.machine_code ⟨hm, trivial⟩).1, hevolves.arrays_size_le, hevolves.le_size_items id,
    hevolves.size_items_le id⟩

namespace Operation

/-! ### Writes inside an array -/

/-- Writes an item, but takes it for granted that the array `id` is not written behind its end. -/
def writeInside (id : ArrayId) (v index value : Value) : Action Heap Unit := do
  let (target, place) ← arrayAndIndex v index
  let size := ((← get).items id).size
  if target = id ∧ (size : Int) ≤ place then throw (.fault (.missingItem place.toNat size))
  else setItem target place value

variable {h : Heap} {id : ArrayId}

theorem writeInside_of_ok {v index value : Value} {target : ArrayId} {place : ℤ}
    (hindex : arrayAndIndex v index h = .ok (target, place) h) :
    writeInside id v index value h =
      if target = id ∧ ((h.items id).size : ℤ) ≤ place then
        .error (.fault (.missingItem place.toNat (h.items id).size)) h
      else setItem target place value h := by
  rw [writeInside, Action.bind_of_ok hindex]
  show (ite _ _ _ : Action Heap Unit) h = _
  split <;> rfl

/-- What the write is not a fault for, it writes, and the array is as long as before. -/
theorem writeInside_cases (hid : id.index < h.arrays.size) (v index value : Value) :
    (∃ f, writeInside id v index value h = .error (.fault f) h) ∨
      writeInside id v index value h = writeItem v index value h ∧
        ((writeItem v index value h).state.items id).size = (h.items id).size := by
  obtain ⟨target, place, hindex⟩ | ⟨cause, hindex⟩ := arrayAndIndex_cases v index h
  · rw [writeInside_of_ok hindex, writeItem_of_ok hindex]
    by_cases hbehind : target = id ∧ ((h.items id).size : ℤ) ≤ place
    · rw [if_pos hbehind]
      exact .inl ⟨_, rfl⟩
    rw [if_neg hbehind]
    refine .inr ⟨rfl, ?_⟩
    by_cases htarget : target = id
    · subst htarget
      have hplace : place < (h.items target).size := Int.not_le.1 fun hle => hbehind ⟨rfl, hle⟩
      by_cases hneg : place < 0
      · rw [setItem_of_neg target hneg]
        rfl
      · obtain ⟨place, rfl⟩ := Int.eq_ofNat_of_zero_le (Int.not_lt.1 hneg)
        rw [setItem_of_lt (Int.ofNat_lt.1 hplace)]
        show ((h.modifyItems target _).items target).size = _
        rw [Heap.items_modifyItems_self hid, Array.size_setIfInBounds]
    · rw [items_setItem_of_ne h (Ne.symm htarget)]
  · refine .inr ⟨?_, ?_⟩
    · exact (Action.bind_of_error hindex).trans (Action.bind_of_error hindex).symm
    · rw [writeItem, Action.bind_of_error hindex]
      rfl

end Operation

namespace Eval

variable {α β : Type} {home : FrameId} {id : ArrayId}

/-! ### Evaluations in which an array does not grow -/

/-- A step of an evaluation, in which a write behind the end of the array is a fault. -/
def fencedStep (id : ArrayId) (fuel : ℕ) (run : Work → Eval Value) : Work → Eval Value
  | .node scope (.assignItem p array index value) => located p do
      let target ← run (.node scope array)
      let i ← run (.node scope index)
      let v ← run (.node scope value)
      onHeap (Operation.writeInside id target i v)
      return v
  | w => step fuel run w

/-- The evaluation in which a write behind the end of the array is a fault. -/
def fenced (id : ArrayId) : (fuel : ℕ) → Work → Eval Value
  | 0, _ => throw .outOfFuel
  | fuel + 1, w => fencedStep id fuel (fenced id fuel) w

/-- An evaluation, with the fence or without. -/
def fencedIf (id : ArrayId) (fuel : ℕ) : Bool → Work → Eval Value
  | true => fenced id fuel
  | false => execute fuel

/-- With the fence, the action ends in a fault, or does the same as without and leaves the array as long as it was. -/
structure Spares (id : ArrayId) (home : FrameId) (action : Bool → Eval α) : Prop where
  keeps : Keeps Code.scripts home (action false)
  fenced : ∀ m, Code.scripts.heap m.heap → id.index < m.heap.arrays.size →
    (∃ f m', action true m = .error (.fault f) m') ∨
      action true m = action false m ∧ ((action false m).state.heap.items id).size = (m.heap.items id).size

/-- What is elementary only adds arrays: the writes of items are not. -/
theorem extends_of_elementary {heaps : Heap → Prop} {action : Eval α}
    (h : Code.scripts.Elementary heaps home action) (m : Machine) : m.heap.Extends (action m).state.heap := by
  cases h with
  | onHeap h =>
      have hregular : Regular Code.scripts.trusts Heap.Extends _ := h.regular
      have hextends := (hregular m.heap).1
      rw [onHeap_eq]
      split <;> rename_i hrun <;> rw [hrun] at hextends <;> exact hextends
  | pure | writeVariable | cannotIterate | cannotCall | arity | become => exact .refl _
  | readVariable hn scope =>
      show m.heap.Extends (orRaise _ (m.scopes.get? scope _) m).state.heap
      cases m.scopes.get? scope _ <;> exact .refl _
  | makeFunction hn scope =>
      rename_i name _ _
      cases name <;> exact .refl _
  | condition v =>
      unfold condition
      split <;> exact .refl _
  | logicalOperand op v =>
      unfold logicalOperand
      split <;> exact .refl _
  | raises hhost | panics hhost | diverges hhost | applied hhost | hostFunction hhost | hostObject hhost =>
      exact hhost.elim

namespace Spares

theorem of_extends {action : Eval α} (hkeeps : Keeps Code.scripts home action)
    (hextends : ∀ m : Machine, m.heap.Extends (action m).state.heap) : Spares id home fun _ => action :=
  ⟨hkeeps, fun m _ hid => .inr ⟨rfl, congrArg Array.size (hextends m id hid).2⟩⟩

theorem bind {action : Bool → Eval α} {next : α → Bool → Eval β} (haction : Spares id home action)
    (hnext : ∀ a, Spares id home (next a)) : Spares id home fun b => action b >>= fun a => next a b := by
  refine ⟨haction.keeps.bind fun a => (hnext a).keeps, fun m hm hid => ?_⟩
  obtain ⟨f, m₁, hfault⟩ | ⟨hsame, hsize⟩ := haction.fenced m hm hid
  · exact .inl ⟨f, m₁, Action.bind_of_error hfault⟩
  have hevolves := haction.keeps m ⟨hm, trivial⟩
  cases hrun : action false m with
  | ok a m₁ =>
      rw [hrun] at hsame hsize hevolves
      rw [Action.bind_of_ok hsame, Action.bind_of_ok hrun]
      obtain hfault | ⟨hsame', hsize'⟩ := (hnext a).fenced m₁ (hevolves.machine_code ⟨hm, trivial⟩).1
        (Nat.lt_of_lt_of_le hid hevolves.arrays_size_le)
      · exact .inl hfault
      · exact .inr ⟨hsame', hsize'.trans hsize⟩
  | error e m₁ =>
      rw [hrun] at hsame hsize
      rw [Action.bind_of_error hsame, Action.bind_of_error hrun]
      exact .inr ⟨rfl, hsize⟩

theorem inside {next : Scope → Bool → Eval α} (scope : Scope) (bindings : Bindings)
    (hnext : ∀ inner : Scope, Spares id inner.frame (next inner)) :
    Spares id home fun b => newChild scope bindings >>= fun inner => next inner b :=
  ⟨(keepsLaw _ Unit).inside scope bindings (fun inner _ => (hnext inner).keeps) (),
    fun m hm hid => (hnext ⟨⟨m.scopes.frames.size⟩, scope.chain⟩).fenced
      { m with scopes := (m.scopes.newChild scope bindings).2 } hm hid⟩

theorem located {action : Bool → Eval α} (p : Position) (haction : Spares id home action) :
    Spares id home fun b => located p (action b) := by
  refine ⟨haction.keeps.located p, fun m hm hid => ?_⟩
  rw [state_located]
  unfold Eval.located
  obtain ⟨f, m₁, hfault⟩ | ⟨hsame, hsize⟩ := haction.fenced m hm hid
  · exact .inl ⟨f, m₁, by rw [hfault]⟩
  · exact .inr ⟨by rw [hsame], hsize⟩

theorem nested {action : Bool → Eval α} (haction : Spares id home action) :
    Spares id home fun b => nested (action b) := by
  refine ⟨haction.keeps.nested, fun m hm hid => ?_⟩
  rcases Nat.lt_or_ge m.depth m.limit with hlimit | hlimit
  · simp only [nested_of_lt _ hlimit]
    obtain ⟨f, m₁, hfault⟩ | ⟨hsame, hsize⟩ := haction.fenced { m with depth := m.depth + 1 } hm hid
    · exact .inl ⟨f, { m₁ with depth := m₁.depth - 1 }, by rw [hfault]; rfl⟩
    · refine .inr ⟨by rw [hsame], ?_⟩
      rw [state_mapState]
      exact hsize
  · simp only [nested_of_le _ hlimit]
    exact .inr ⟨trivial, rfl⟩

/-- Scripts catch nothing. -/
theorem caught {action : Bool → Eval Value} {next : Reply → Bool → Eval α} (haction : Spares id home action)
    (hok : ∀ v, Spares id home (next (.ok v))) (hhanded : ∀ f b, next (.error f) b = throw (.failure f)) :
    Spares id home fun b => attempt (action b) >>= fun reply => next reply b := by
  have hbind (b : Bool) : (attempt (action b) >>= fun reply => next reply b) = action b >>= fun v => next (.ok v) b :=
    attempt_bind_of_handed fun f => hhanded f b
  rw [funext hbind]
  exact .bind haction hok

theorem borrowing (cell : Cell) {action : Bool → Eval α} (haction : Spares id home action) :
    Spares id home fun b => borrowing cell (action b) := by
  refine ⟨haction.keeps.borrowing cell, fun m hm hid => ?_⟩
  by_cases hcell : cell ∈ m.borrowed
  · simp only [borrowing_of_mem _ hcell]
    exact .inr ⟨trivial, rfl⟩
  · simp only [borrowing_of_not_mem _ hcell]
    obtain ⟨f, m₁, hfault⟩ | ⟨hsame, hsize⟩ := haction.fenced { m with borrowed := cell :: m.borrowed } hm hid
    · exact .inl ⟨f, { m₁ with borrowed := m₁.borrowed.erase cell }, by rw [hfault]; rfl⟩
    · refine .inr ⟨by rw [hsame], ?_⟩
      rw [state_mapState]
      exact hsize

end Spares

def sparesWalk (id : ArrayId) : CallWalk Code.scripts (fun _ => True) Bool where
  Holds := Spares id
  elementary h := .of_extends (Steady.of_elementary h).keeps (extends_of_elementary h)
  bind := .bind
  inside := .inside
  located p _ haction := haction.located p
  exhausted := .of_extends (fun m _ => .refl m) fun _ => .refl _
  nested haction := haction.nested
  reading _ hnext :=
    ⟨fun m hm => (hnext m.heap m.toHostState hm.1 trivial trivial).keeps m hm,
      fun m hm => (hnext m.heap m.toHostState hm trivial trivial).fenced m hm⟩
  caught haction hok herror := haction.caught hok fun f => (herror f).resolve_right fun hcatches => hcatches.1
  borrowing cell _ haction := haction.borrowing cell

theorem spares_writeItem (target index v : Value) :
    Spares id home fun b =>
      onHeap (if b then Operation.writeInside id target index v else Operation.writeItem target index v) := by
  refine ⟨(Steady.onHeap (Operation.regular_writeItem target index v)).keeps, fun m hm hid => ?_⟩
  obtain ⟨f, hfault⟩ | ⟨hsame, hsize⟩ := Operation.writeInside_cases hid target index v
  · exact .inl ⟨f, m, by rw [if_pos rfl, onHeap_eq, hfault]⟩
  · simp only [if_true, Bool.false_eq_true, if_false, onHeap_eq, hsame]
    refine .inr ⟨trivial, ?_⟩
    cases hrun : Operation.writeItem target index v m.heap with
    | ok a h | error e h =>
        rw [hrun] at hsize
        exact hsize

theorem spares_fencedIf (id : ArrayId) (fuel : ℕ) (home : FrameId) (w : Work) (hw : Code.scripts.work home w) :
    Spares id home fun b => fencedIf id fuel b w := by
  induction fuel generalizing home w with
  | zero =>
      have hsame : (fun b => fencedIf id 0 b w) = fun _ => throw .outOfFuel := by
        funext b
        cases b <;> rfl
      rw [hsame]
      exact (sparesWalk id).exhausted
  | succ fuel ih =>
      -- The write of an item is the only step that the fence changes, so the walk is not asked about it.
      by_cases hassign : ∃ scope p array index value, w = .node scope (.assignItem p array index value)
      · obtain ⟨scope, p, array, index, value, rfl⟩ := hassign
        obtain ⟨rfl, -⟩ := hw
        have hstep : (fun b => fencedIf id (fuel + 1) b (.node scope (.assignItem p array index value))) = fun b =>
            located p (fencedIf id fuel b (.node scope array) >>= fun target =>
              fencedIf id fuel b (.node scope index) >>= fun i =>
              fencedIf id fuel b (.node scope value) >>= fun v =>
              onHeap (if b then Operation.writeInside id target i v else Operation.writeItem target i v) >>= fun _ =>
              pure v) := by
          funext b
          cases b <;> rfl
        rw [hstep]
        have hoperand (n : Node) : Spares id scope.frame fun b => fencedIf id fuel b (.node scope n) :=
          ih scope.frame (.node scope n) ⟨rfl, trivial⟩
        exact .located p (.bind (hoperand array) fun target => .bind (hoperand index) fun i =>
          .bind (hoperand value) fun v => .bind (spares_writeItem target i v) fun _ =>
            (sparesWalk id).elementary (.pure v))
      · have hstep : (fun b => fencedIf id (fuel + 1) b w) = fun b => step fuel (fencedIf id fuel b) w := by
          funext b
          cases b with
          | false => rfl
          | true =>
              show fencedStep id fuel (fenced id fuel) w = _
              unfold fencedStep
              split
              · exact (hassign ⟨_, _, _, _, _, rfl⟩).elim
              · rfl
        rw [hstep]
        exact (sparesWalk id).step ih fuel hw fun scope p array index value hnode =>
          (hassign ⟨scope, p, array, index, value, hnode⟩).elim

/-! ### The rounds of a loop -/

/-- The array has an item at the place when a round begins, and the loop writes it to its variable: where that is bound
next around the loop, or in the scope that the loop runs in. The second machine is that on which the body is run. -/
inductive Enters (scope : Scope) (name : String) (id : ArrayId) (place : ℕ) (m : Machine) : Machine → Prop
  | intro {item : Value} {target : Scope} (hitem : (m.heap.items id)[place]? = some item)
      (htarget : m.scopes.Nearest name scope target ∨
        (∀ binder, ¬ m.scopes.Nearest name scope binder) ∧ target = scope) :
      Enters scope name id place m { m with scopes := m.scopes.define target.frame name item }

/-- The loop comes from a place to another in rounds that do not fail, one for each place in between, in order. -/
inductive Visits (run : Work → Eval Value) (scope : Scope) (name : String) (body : List Node) (id : ArrayId) :
    ℕ → Machine → ℕ → Machine → Prop
  | refl (place : ℕ) (m : Machine) : Visits run scope name body id place m place m
  | round {place last : ℕ} {m m₁ m₂ m' : Machine} {v : Value} (henters : Enters scope name id place m m₁)
      (hbody : block run scope body m₁ = .ok v m₂) (hrest : Visits run scope name body id (place + 1) m₂ last m') :
      Visits run scope name body id place m last m'

variable {scope : Scope} {name : String} {body : List Node} {fuel place last : ℕ} {m m₁ m' : Machine}

theorem Enters.heap_eq (henters : Enters scope name id place m m₁) : m₁.heap = m.heap := by
  cases henters
  rfl

theorem Enters.place_lt (henters : Enters scope name id place m m₁) : place < (m.heap.items id).size := by
  cases henters with
  | intro hitem _ => exact (Array.getElem?_eq_some_iff.1 hitem).1

/-- Where there is an item, a round begins. -/
theorem exists_enters {item : Value} (hitem : (m.heap.items id)[place]? = some item) (scope : Scope) (name : String) :
    ∃ m₁, Enters scope name id place m m₁ ∧ writeVariable scope name item m = .ok () m₁ := by
  obtain ⟨target, hnearest, htarget⟩ := m.scopes.exists_target scope name
  refine ⟨_, .intro hitem hnearest, ?_⟩
  rw [← htarget]
  rfl

theorem Enters.lengthens (henters : Enters scope name id place m m₁) (hm : Code.scripts.heap m.heap) (fuel : ℕ)
    (body : List Node) :
    m.heap.Lengthens (block (execute fuel) scope body m₁).state.heap := by
  have hkeeps := (keepsLaw Code.scripts Unit).block fuel scope.frame scope fun n (_ : n ∈ body) => trivial
  rw [← henters.heap_eq] at hm ⊢
  exact (hkeeps () m₁ ⟨hm, trivial⟩).lengthens hm

theorem Visits.lengthens (hvisits : Visits (execute fuel) scope name body id place m last m')
    (hm : Code.scripts.heap m.heap) : m.heap.Lengthens m'.heap := by
  induction hvisits with
  | refl place m => exact .refl hm
  | round henters hbody _ ih =>
      have hround := henters.lengthens hm fuel body
      rw [hbody] at hround
      exact hround.trans (ih hround.scripts)

theorem Visits.size_le (hvisits : Visits (execute fuel) scope name body id place m last m')
    (hm : Code.scripts.heap m.heap) :
    (m.heap.items id).size ≤ (m'.heap.items id).size ∧
      (m'.heap.items id).size ≤ max (m.heap.items id).size maxLength := by
  have hlengthens := hvisits.lengthens hm
  cases hvisits with
  | refl => exact ⟨Nat.le_refl _, Nat.le_max_left _ _⟩
  | round henters _ _ =>
      have hid := Heap.index_lt_of_lt_size henters.place_lt
      exact ⟨hlengthens.le_size_items id hid, hlengthens.size_items_le id hid⟩

/-- A loop does not come further than its array reaches. -/
theorem Visits.last_le (hvisits : Visits (execute fuel) scope name body id place m last m')
    (hm : Code.scripts.heap m.heap) (hplace : place ≤ (m.heap.items id).size) : last ≤ (m'.heap.items id).size := by
  induction hvisits with
  | refl place m => exact hplace
  | round henters hbody _ ih =>
      have hround := henters.lengthens hm fuel body
      rw [hbody] at hround
      have hlt := henters.place_lt
      exact ih hround.scripts (Nat.lt_of_lt_of_le hlt (hround.le_size_items id (Heap.index_lt_of_lt_size hlt)))

/-- Rounds that would go the same way with the fence leave the array as long as it was. -/
theorem Visits.size_eq (hvisits : Visits (fenced id fuel) scope name body id place m last m')
    (hm : Code.scripts.heap m.heap) : (m'.heap.items id).size = (m.heap.items id).size := by
  induction hvisits with
  | refl place m => rfl
  | @round place last m m₁ m₂ m' v henters hbody _ ih =>
      have hblock : Spares id scope.frame fun b => block (fencedIf id fuel b) scope body :=
        (sparesWalk id).toWalk.block fun inner n _ =>
          spares_fencedIf id fuel inner.frame (.node inner n) ⟨rfl, trivial⟩
      have hid := Heap.index_lt_of_lt_size henters.place_lt
      have hround := henters.lengthens hm fuel body
      rw [← henters.heap_eq] at hm hid
      obtain ⟨f, _, hfault⟩ | ⟨hsame, hsize⟩ := hblock.fenced m₁ hm hid
      · cases hfault.symm.trans hbody
      · have hrun : block (execute fuel) scope body m₁ = .ok v m₂ := hsame.symm.trans hbody
        rw [hrun] at hround
        rw [ih hround.scripts, ← henters.heap_eq, ← hsize]
        exact congrArg (fun result => (result.state.heap.items id).size) hrun.symm

/-- A loop that has rounds enough left for a bound on its array goes from place to place, until it comes to the end of
the array or a round fails. -/
theorem exists_visits (fuel : ℕ) (scope : Scope) (name : String) (body : List Node) {bound limit : ℕ}
    (hbound : maxLength ≤ bound) (hm : Code.scripts.heap m.heap)
    (hsize : (m.heap.items id).size ≤ bound) (hplace : place ≤ bound) (hlimit : bound < place + limit) :
    ∃ last m', Visits (execute fuel) scope name body id place m last m' ∧
      ((m'.heap.items id)[last]? = none ∧
          forItems id (fun v => do writeVariable scope name v; block (execute fuel) scope body) limit place m =
            .ok .none m' ∨
        ∃ e m₁ m₂, Enters scope name id last m' m₁ ∧ block (execute fuel) scope body m₁ = .error e m₂ ∧
          forItems id (fun v => do writeVariable scope name v; block (execute fuel) scope body) limit place m =
            .error e m₂) := by
  induction limit generalizing place m with
  | zero => omega
  | succ limit ih =>
      cases hitem : (m.heap.items id)[place]? with
      | none => exact ⟨place, m, .refl place m, .inl ⟨hitem, forItems_of_none (Nat.succ_pos limit) hitem⟩⟩
      | some item =>
          obtain ⟨m₁, henters, hwrite⟩ := exists_enters hitem scope name
          have hrun : (do writeVariable scope name item; block (execute fuel) scope body : Eval Value) m =
              block (execute fuel) scope body m₁ := Action.bind_of_ok hwrite
          have hround := henters.lengthens hm fuel body
          have hlt := henters.place_lt
          cases hbody : block (execute fuel) scope body m₁ with
          | error e m₂ =>
              refine ⟨place, m, .refl place m, .inr ⟨e, m₁, m₂, henters, hbody, ?_⟩⟩
              exact (forItems_of_some hitem).trans (Action.bind_of_error (hrun.trans hbody))
          | ok v m₂ =>
              rw [hbody] at hround
              -- The item that was found makes the array one of the heap's, so what bounds its growth applies.
              have hle : (m₂.heap.items id).size ≤ max (m.heap.items id).size maxLength :=
                hround.size_items_le id (Heap.index_lt_of_lt_size hlt)
              obtain ⟨last, m', hvisits, hend⟩ := ih hround.scripts
                (show (m₂.heap.items id).size ≤ bound by omega) (show place + 1 ≤ bound by omega) (by omega)
              rw [(forItems_of_some hitem).trans (Action.bind_of_ok (hrun.trans hbody))]
              exact ⟨last, m', .round henters hbody hvisits, hend⟩

/-! ### Loops -/

theorem located_bind_of_ok (p : Position) {action : Eval α} {next : α → Eval β} {a : α} (hrun : action m = .ok a m₁) :
    located p (action >>= next) m = located p (next a) m₁ := by
  unfold located
  rw [Action.bind_of_ok hrun]

theorem located_bind_of_error (p : Position) {action : Eval α} {next : α → Eval β} {e : Interrupt}
    (hrun : action m = .error e m₁) : located p (action >>= next) m = located p (throw e) m₁ := by
  unfold located
  rw [Action.bind_of_error hrun]
  rfl

theorem forEach_of_array {p : Position} {list : Node} (hlist : execute fuel (.node scope list) m = .ok (.array id) m₁) :
    execute (fuel + 1) (.node scope (.forEach p name list body)) m =
      located p (forItems id (fun v => do writeVariable scope name v; block (execute fuel) scope body) fuel 0) m₁ :=
  located_bind_of_ok p hlist

theorem lengthens_execute (fuel : ℕ) (w : Work) {m : Machine} (hm : Code.scripts.heap m.heap) :
    m.heap.Lengthens (execute fuel w m).state.heap := by
  cases w with
  | node scope n =>
      exact (keeps_execute Code.scripts fuel scope.frame (.node scope n) ⟨rfl, trivial⟩ m ⟨hm, trivial⟩).lengthens hm
  | call f args => exact (keeps_execute Code.scripts fuel ⟨0⟩ (.call f args) trivial m ⟨hm, trivial⟩).lengthens hm

theorem lengthens_runWith (fuel limit : ℕ) (p : Program) {m : Machine} (hm : Code.scripts.heap m.heap) :
    m.heap.Lengthens (Session.runWith fuel ⟨[], limit⟩ p m).state.heap := by
  have hkeeps := keeps_statements Code.scripts fuel (Session.start ⟨[], limit⟩ m).root
    (fun n (_ : n ∈ p.body) => trivial) .none
  have hevolves := hkeeps (Session.start ⟨[], limit⟩ m).machine ⟨hm, trivial⟩
  obtain ⟨scopes, hstate⟩ := Session.state_finish (Session.start ⟨[], limit⟩ m).arena m.limit
    (statements (execute fuel) (Session.start ⟨[], limit⟩ m).root .none p.body (Session.start ⟨[], limit⟩ m).machine)
  rw [Session.runWith, hstate]
  exact hevolves.lengthens hm

/-- **Loops over arrays that change.** Let a machine have no functions but those of scripts, as a new one does, and as
evaluations and runs without a library leave it. They make no array shorter, and none longer than the limit that was not
as long before. A loop over an array evaluates its list once. If that fails, or is no array, so does the loop. Otherwise
it goes through the places of the array in order, from the first, each time writing the item that is there at that time
to its variable and running its body, until it comes to a place that the array does not have then or the body fails. If
no round fails, it has made as many rounds as the array has items in the end: at least as many as it had at the start,
not more than that or the limit, and just as many as at the start if no round writes behind the end of the array. -/
theorem forEach_visits_array_in_order (fuel : ℕ) {m : Machine} (hm : Code.scripts.heap m.heap) :
    (∀ w, m.heap.Lengthens (execute fuel w m).state.heap) ∧
      (∀ limit p, m.heap.Lengthens (Session.runWith fuel ⟨[], limit⟩ p m).state.heap) ∧
      ∀ scope p name list body,
        (∀ e m₁, execute fuel (.node scope list) m = .error e m₁ →
          execute (fuel + 1) (.node scope (.forEach p name list body)) m = located p (throw e) m₁) ∧
        (∀ v m₁, execute fuel (.node scope list) m = .ok v m₁ → (∀ id, v ≠ .array id) →
          execute (fuel + 1) (.node scope (.forEach p name list body)) m =
            located p (raise (.cannotIterate v.tag)) m₁) ∧
        ∀ id m₁, execute fuel (.node scope list) m = .ok (.array id) m₁ →
          max (m₁.heap.items id).size maxLength < fuel →
          ∃ rounds m₂, Visits (execute fuel) scope name body id 0 m₁ rounds m₂ ∧
            rounds ≤ max (m₁.heap.items id).size maxLength ∧
            (execute (fuel + 1) (.node scope (.forEach p name list body)) m = .ok .none m₂ ∧
                rounds = (m₂.heap.items id).size ∧ (m₁.heap.items id).size ≤ rounds ∧
                (Visits (fenced id fuel) scope name body id 0 m₁ rounds m₂ → rounds = (m₁.heap.items id).size) ∨
              ∃ e m₃ m₄, Enters scope name id rounds m₂ m₃ ∧ block (execute fuel) scope body m₃ = .error e m₄ ∧
                execute (fuel + 1) (.node scope (.forEach p name list body)) m = located p (throw e) m₄) := by
  refine ⟨fun w => lengthens_execute fuel w hm, fun limit p => lengthens_runWith fuel limit p hm,
    fun scope p name list body => ⟨fun e m₁ => located_bind_of_error p, fun v m₁ hlist hv => ?_,
      fun id m₁ hlist hfuel => ?_⟩⟩
  · refine (located_bind_of_ok p hlist).trans ?_
    cases v with
    | array id => exact (hv id rfl).elim
    | _ => rfl
  · have hm₁ : Code.scripts.heap m₁.heap := by
      have hlengthens := lengthens_execute fuel (.node scope list) hm
      rw [hlist] at hlengthens
      exact hlengthens.scripts
    obtain ⟨rounds, m₂, hvisits, hend⟩ := exists_visits fuel scope name body
      (Nat.le_max_right (m₁.heap.items id).size maxLength) hm₁ (Nat.le_max_left _ _) (Nat.zero_le _)
      (show _ < 0 + fuel by omega)
    have hlast := hvisits.last_le hm₁ (Nat.zero_le _)
    have hsize := hvisits.size_le hm₁
    refine ⟨rounds, m₂, hvisits, by omega, ?_⟩
    rw [forEach_of_array hlist]
    unfold located
    obtain ⟨hitem, hrun⟩ | ⟨e, m₃, m₄, henters, hbody, hrun⟩ := hend
    · have hend : (m₂.heap.items id).size ≤ rounds := Array.getElem?_eq_none_iff.1 hitem
      rw [hrun]
      refine .inl ⟨rfl, by omega, by omega, fun hfenced => ?_⟩
      have hsame := hfenced.size_eq hm₁
      omega
    · rw [hrun]
      exact .inr ⟨e, m₃, m₄, henters, hbody, rfl⟩

/-- A machine with an array of two items and one without items, which it binds. -/
def Machine.withArrays : Machine :=
  let (a, h) := Heap.empty.newArray #[.none, .none]
  let (b, h) := h.newArray #[]
  { Machine.ofConsole (.ofInput []) with
    heap := h, scopes := (Scopes.empty.newRoot [("items", a), ("seen", b)]).2 }

/-- Writes the second item of the array, writes one behind it, and notes the item that it is run for. -/
def overwriting (p : Position) : List Node :=
  [.assignItem p (.var p "items") (.literal p (.number .one)) (.literal p (.bool true)),
   .assignItem p (.var p "items") (.literal p (.number (.ofNat 2))) (.literal p (.bool false)),
   .assign p "seen" (.binary p .add (.var p "seen") (.list p [.var p "x"]))]

/-- A loop over the array of which the body writes items. -/
def overwritingLoop (p : Position) : Node :=
  .forEach p "x" (.var p "items") (overwriting p)

/-- The array and what was noted, if a loop has come to its end. -/
def arraysOf : EStateM.Result Interrupt Machine Value → Option (Array Value × Option Value × Array Value)
  | .ok .none m => some (m.heap.items ⟨0⟩, m.scopes.get? ⟨⟨0⟩, []⟩ "seen", m.heap.items ⟨7⟩)
  | _ => none

/-- There are three rounds, for the first item, for what the first round put in the place of the second, and for the one
that it added. -/
theorem overwritingLoop_visits_written_items :
    Code.scripts.heap Machine.withArrays.heap ∧ ∃ m',
      Visits (execute (maxLength + 2)) ⟨⟨0⟩, []⟩ "x" (overwriting (.start "")) ⟨0⟩ 0 Machine.withArrays 3 m' ∧
        execute (maxLength + 3) (.node ⟨⟨0⟩, []⟩ (overwritingLoop (.start ""))) Machine.withArrays = .ok .none m' ∧
        m'.heap.items ⟨0⟩ = #[.none, .bool true, .bool false] ∧
        m'.scopes.get? ⟨⟨0⟩, []⟩ "seen" = some (.array ⟨7⟩) ∧
        m'.heap.items ⟨7⟩ = #[.none, .bool true, .bool false] := by
  have hscripts : Code.scripts.heap Machine.withArrays.heap := Code.scripts.heap_empty
  have harrays :
      arraysOf (execute (maxLength + 3) (.node ⟨⟨0⟩, []⟩ (overwritingLoop (.start ""))) Machine.withArrays) =
        some (#[.none, .bool true, .bool false], some (.array ⟨7⟩), #[.none, .bool true, .bool false]) := by
    decide +kernel
  obtain ⟨-, -, hloops⟩ := forEach_visits_array_in_order (maxLength + 2) hscripts
  obtain ⟨-, -, harray⟩ := hloops ⟨⟨0⟩, []⟩ (.start "") "x" (.var (.start "") "items") (overwriting (.start ""))
  obtain ⟨rounds, m', hvisits, -, ⟨hrun, hrounds, -⟩ | ⟨e, -, m₄, -, -, hrun⟩⟩ := harray ⟨0⟩ _ rfl (by decide)
  · rw [show execute _ (.node _ (overwritingLoop _)) _ = _ from hrun] at harrays
    obtain ⟨hitems, hseen, hnoted⟩ := Prod.mk.inj (Option.some.inj harrays) |>.imp_right Prod.mk.inj
    rw [hitems] at hrounds
    subst hrounds
    exact ⟨hscripts, m', hvisits, hrun, hitems, hseen, hnoted⟩
  · rw [show execute _ (.node _ (overwritingLoop _)) _ = _ from hrun] at harrays
    cases e <;> cases harrays

end Eval

end LineScript
