import LineScript.Operation.Primitive
import LineScript.Proofs.Decimal.Fraction
/-!
# What operations do to the heap

An operation adds arrays, writes members and items, and lets arrays grow up to the longest length that a script may
ask for. Only two operations that a host may apply do more: one also cuts arrays off, and one adds items without a
bound. No operation touches a function, and none uses fuel. What an operation takes for granted has been looked at
before, so none ends in a fault, but for those that a host applies and that take their arguments for granted.
-/

/-- The state reached, whether by a result or by an interruption. -/
def EStateM.Result.state {ε σ α : Type} : EStateM.Result ε σ α → σ
  | .ok _ s => s
  | .error _ s => s

/-- The same result with a change of the state reached. -/
def EStateM.Result.mapState {ε σ α : Type} (f : σ → σ) : EStateM.Result ε σ α → EStateM.Result ε σ α
  | .ok a s => .ok a (f s)
  | .error e s => .error e (f s)

/-- The action came to an end of its own: its fuel did not end first. -/
def EStateM.Result.Settled {σ α : Type} : EStateM.Result LineScript.Interrupt σ α → Prop
  | .ok _ _ => True
  | .error e _ => e ≠ .outOfFuel

/-- If the action ended in a fault, then in one of these. -/
def EStateM.Result.FaultsAs {σ α : Type} (way : LineScript.Fault → Prop) :
    EStateM.Result LineScript.Interrupt σ α → Prop
  | .error (.fault f) _ => way f
  | _ => True

def EStateM.Result.Faultless {σ α : Type} (result : EStateM.Result LineScript.Interrupt σ α) : Prop :=
  result.FaultsAs fun _ => False

/-- If the action failed, then in one of these ways. -/
def EStateM.Result.FailsAs {σ α : Type} (way : LineScript.Failure → Prop) :
    EStateM.Result LineScript.Interrupt σ α → Prop
  | .error (.failure f) _ => way f
  | _ => True

namespace LineScript

theorem failsAs_error {σ τ α β : Type} {way : Failure → Prop} {e : Interrupt} {s : σ}
    (hfails : (EStateM.Result.error e s : EStateM.Result Interrupt σ α).FailsAs way) (s' : τ) :
    (EStateM.Result.error e s' : EStateM.Result Interrupt τ β).FailsAs way := by
  cases e <;> exact hfails

theorem faultsAs_error {σ τ α β : Type} {way : Fault → Prop} {e : Interrupt} {s : σ}
    (hfaults : (EStateM.Result.error e s : EStateM.Result Interrupt σ α).FaultsAs way) (s' : τ) :
    (EStateM.Result.error e s' : EStateM.Result Interrupt τ β).FaultsAs way := by
  cases e <;> exact hfaults

theorem faultsAs_mono {σ α : Type} {way way' : Fault → Prop} {result : EStateM.Result Interrupt σ α}
    (hfaults : result.FaultsAs way) (hway : ∀ f, way f → way' f) : result.FaultsAs way' := by
  cases result with
  | ok a s => trivial
  | error e s =>
      cases e with
      | fault f => exact hway f hfaults
      | _ => trivial

theorem failsAs_mono {way way' : Failure → Prop} {σ α : Type} {result : EStateM.Result Interrupt σ α}
    (hresult : result.FailsAs way) (hway : ∀ f, way f → way' f) : result.FailsAs way' := by
  cases result with
  | ok a s => trivial
  | error e s =>
      cases e with
      | failure f => exact hway f hresult
      | _ => trivial

/-! A change of the state reached is none of what the action ended in. -/

section

variable {σ α : Type} (f : σ → σ)

theorem state_mapState {ε : Type} (result : EStateM.Result ε σ α) : (result.mapState f).state = f result.state := by
  cases result <;> rfl

theorem mapState_mapState {ε : Type} (g : σ → σ) (result : EStateM.Result ε σ α) :
    (result.mapState f).mapState g = result.mapState (g ∘ f) := by
  cases result <;> rfl

theorem settled_mapState (result : EStateM.Result Interrupt σ α) : (result.mapState f).Settled ↔ result.Settled := by
  cases result <;> rfl

theorem failsAs_mapState {way : Failure → Prop} (result : EStateM.Result Interrupt σ α) :
    (result.mapState f).FailsAs way ↔ result.FailsAs way := by
  cases result with
  | ok a s => rfl
  | error e s => cases e <;> rfl

theorem faultsAs_mapState {way : Fault → Prop} (result : EStateM.Result Interrupt σ α) :
    (result.mapState f).FaultsAs way ↔ result.FaultsAs way := by
  cases result with
  | ok a s => rfl
  | error e s => cases e <;> rfl

end

/-- The failure has a cause in what a program did, and nothing has been added to that yet. -/
def Failure.Bare (f : Failure) : Prop :=
  ∃ cause, f = .ofCause cause

theorem Action.bind_of_ok {σ α β : Type} {action : Action σ α} {next : α → Action σ β} {s s' : σ} {a : α}
    (hrun : action s = .ok a s') : (action >>= next) s = next a s' := by
  show EStateM.bind action next s = _
  rw [EStateM.bind, hrun]

theorem Action.bind_of_error {σ α β : Type} {action : Action σ α} {next : α → Action σ β} {s s' : σ} {e : Interrupt}
    (hrun : action s = .error e s') : (action >>= next) s = .error e s' := by
  show EStateM.bind action next s = _
  rw [EStateM.bind, hrun]

namespace Heap

/-- The heaps that operations can reach when the host applies only some of them. -/
inductive Evolves (applied : Primitive → Prop) : Heap → Heap → Prop
  | refl (h : Heap) : Evolves applied h h
  | trans {h₁ h₂ h₃ : Heap} (hfirst : Evolves applied h₁ h₂) (hsecond : Evolves applied h₂ h₃) :
      Evolves applied h₁ h₃
  | newArray (h : Heap) (items : Array Value) : Evolves applied h (h.newArray items).2
  | setMember (h : Heap) (id : ObjectId) (name : String) (value : Value) : Evolves applied h (h.setMember id name value)
  | setItem (h : Heap) (id : ArrayId) (index : Nat) (value : Value) :
      Evolves applied h (h.modifyItems id fun items => items.setIfInBounds index value)
  | extend (h : Heap) (id : ArrayId) {length : Nat} (hgrows : (h.items id).size ≤ length)
      (hlength : length ≤ maxLength) : Evolves applied h (h.modifyItems id (Operation.resized length))
  | resize (h : Heap) (id : ArrayId) {length : Nat} (hlength : length ≤ maxLength)
      (happlied : applied .arrayResize) : Evolves applied h (h.modifyItems id (Operation.resized length))
  | push (h : Heap) (id : ArrayId) (value : Value) (happlied : applied .arrayPush) :
      Evolves applied h (h.modifyItems id (·.push value))

variable {applied : Primitive → Prop} {h h' : Heap}

theorem Evolves.functions_eq (hevolves : h.Evolves applied h') : h'.functions = h.functions := by
  induction hevolves with
  | trans _ _ hfirst hsecond => exact hsecond.trans hfirst
  | _ => rfl

/-! ### Arrays that stay the same -/

/-- Every array of the first heap is the same in the second. -/
def Extends (h h' : Heap) : Prop :=
  ∀ id : ArrayId, id.index < h.arrays.size → id.index < h'.arrays.size ∧ h'.items id = h.items id

theorem Extends.refl (h : Heap) : h.Extends h := fun _ hid =>
  ⟨hid, rfl⟩

theorem Extends.trans {h₁ h₂ h₃ : Heap} (hfirst : h₁.Extends h₂) (hsecond : h₂.Extends h₃) : h₁.Extends h₃ := by
  intro id hid
  obtain ⟨hid₂, hitems₂⟩ := hfirst id hid
  obtain ⟨hid₃, hitems₃⟩ := hsecond id hid₂
  exact ⟨hid₃, hitems₃.trans hitems₂⟩

theorem extends_newArray (h : Heap) (items : Array Value) : h.Extends (h.newArray items).2 := by
  intro id hid
  refine ⟨?_, ?_⟩
  · show id.index < (h.arrays.push items).size
    rw [Array.size_push]
    exact Nat.lt_succ_of_lt hid
  · show (h.arrays.push items)[id.index]?.getD #[] = h.arrays[id.index]?.getD #[]
    rw [Array.getElem?_push_lt hid, Array.getElem?_eq_getElem hid]

/-! ### The lengths of arrays -/

theorem items_modifyItems (h : Heap) (id : ArrayId) (f : Array Value → Array Value) {other : ArrayId}
    (hother : other.index < h.arrays.size) :
    (h.modifyItems id f).items other = if id.index = other.index then f (h.items other) else h.items other := by
  unfold items modifyItems
  rw [Array.getElem?_modify, Array.getElem?_eq_getElem hother]
  split <;> rfl

theorem size_resized (length : Nat) (items : Array Value) : (Operation.resized length items).size = length := by
  unfold Operation.resized
  split
  · simp only [Array.take_eq_extract, Array.size_extract]
    omega
  · rw [Array.size_append, Array.size_replicate]
    omega

theorem lacks_of_lt {h : Heap} {id : ArrayId} {place : Nat} (hplace : place < (h.items id).size) :
    h.lacks id place = false := by
  unfold items at hplace
  unfold lacks
  cases hfound : h.arrays[id.index]? with
  | none => rfl
  | some items =>
      rw [hfound, Option.getD_some] at hplace
      simpa using hplace

theorem lacks_modifyItems (h : Heap) (id : ArrayId) {f : Array Value → Array Value} {place : Nat}
    (hf : ∀ items, place < (f items).size) : (h.modifyItems id f).lacks id place = false := by
  unfold lacks modifyItems
  rw [Array.getElem?_modify, if_pos rfl]
  cases h.arrays[id.index]? with
  | none => rfl
  | some items => simpa using hf items

theorem Evolves.arrays_size_le (hevolves : h.Evolves applied h') : h.arrays.size ≤ h'.arrays.size := by
  induction hevolves with
  | trans _ _ hfirst hsecond => exact Nat.le_trans hfirst hsecond
  | newArray h items => simp [Heap.newArray]
  | refl | setMember => exact Nat.le_refl _
  | setItem | extend | resize | push => simp [modifyItems]

/-- Two lengths are related for every array if they are for the one that is changed. -/
theorem related_modifyItems {r : Nat → Nat → Prop} (hrefl : ∀ n, r n n) (h : Heap) {target : ArrayId}
    {f : Array Value → Array Value} (hf : r (h.items target).size (f (h.items target)).size) {id : ArrayId}
    (hid : id.index < h.arrays.size) : r (h.items id).size ((h.modifyItems target f).items id).size := by
  rw [items_modifyItems h target f hid]
  split
  · rename_i hindex
    obtain rfl : target = id := by cases target; cases id; simp_all
    exact hf
  · exact hrefl _

/-- What is kept when an array is filled up, and when it is cut off or added to if the host does that, relates the
lengths that an array has before and after. -/
theorem Evolves.related_size {r : Nat → Nat → Prop} (hrefl : ∀ n, r n n) (htrans : ∀ {k m n}, r k m → r m n → r k n)
    (hextend : ∀ {m n}, m ≤ n → n ≤ maxLength → r m n)
    (hresize : applied .arrayResize → ∀ {m n}, n ≤ maxLength → r m n)
    (hpush : applied .arrayPush → ∀ n, r n (n + 1)) (hevolves : h.Evolves applied h')
    (id : ArrayId) (hid : id.index < h.arrays.size) : r (h.items id).size (h'.items id).size := by
  induction hevolves with
  | refl | setMember => exact hrefl _
  | trans hfirst _ ih₁ ih₂ => exact htrans (ih₁ hid) (ih₂ (Nat.lt_of_lt_of_le hid hfirst.arrays_size_le))
  | newArray h items =>
      rw [(h.extends_newArray items id hid).2]
      exact hrefl _
  | setItem h target index value =>
      refine related_modifyItems hrefl h ?_ hid
      rw [Array.size_setIfInBounds]
      exact hrefl _
  | extend h target hgrows hlength =>
      refine related_modifyItems hrefl h ?_ hid
      rw [size_resized]
      exact hextend hgrows hlength
  | resize h target hlength happlied =>
      refine related_modifyItems hrefl h ?_ hid
      rw [size_resized]
      exact hresize happlied hlength
  | push h target value happlied =>
      refine related_modifyItems hrefl h ?_ hid
      rw [Array.size_push]
      exact hpush happlied _

/-- An array that is longer than the limit of lengths does not grow, and no other grows above it, unless the host
applies the operation that adds single items. -/
theorem Evolves.size_items_le (hpush : ¬ applied .arrayPush) (hevolves : h.Evolves applied h')
    (id : ArrayId) (hid : id.index < h.arrays.size) : (h'.items id).size ≤ max (h.items id).size maxLength :=
  hevolves.related_size (r := fun m n => n ≤ max m maxLength) (by omega) (by omega) (by omega) (by omega)
    (fun happlied => (hpush happlied).elim) id hid

/-- No array gets shorter, unless the host applies the operation that cuts arrays off. -/
theorem Evolves.le_size_items (hresize : ¬ applied .arrayResize) (hevolves : h.Evolves applied h')
    (id : ArrayId) (hid : id.index < h.arrays.size) : (h.items id).size ≤ (h'.items id).size :=
  hevolves.related_size Nat.le_refl Nat.le_trans (fun hle _ => hle) (fun happlied => (hresize happlied).elim)
    (fun _ => Nat.le_succ) id hid

/-! ### What operations do that write no item -/

/-- A relation that heaps are in after operations that write no item. -/
class Growing (evolves : Heap → Heap → Prop) : Prop where
  refl : ∀ h, evolves h h
  trans : ∀ {h₁ h₂ h₃}, evolves h₁ h₂ → evolves h₂ h₃ → evolves h₁ h₃
  newArray : ∀ h items, evolves h (h.newArray items).2
  setMember : ∀ h id name value, evolves h (h.setMember id name value)

instance growing_evolves (applied : Primitive → Prop) : Growing (Evolves applied) where
  refl := .refl
  trans := .trans
  newArray := .newArray
  setMember := .setMember

instance growing_extends : Growing Extends where
  refl := .refl
  trans := .trans
  newArray := extends_newArray
  setMember _ _ _ _ := fun _ hid => ⟨hid, rfl⟩

end Heap

/-- An operation that takes the heap to one in the relation and ends without asking for fuel, and without a fault unless
it trusts its caller. A failure of it says no more than its cause. -/
def Regular (trusts : Prop) (evolves : Heap → Heap → Prop) {α : Type} (action : Action Heap α) : Prop :=
  ∀ h, evolves h (action h).state ∧ (action h).Settled ∧
    (trusts ∨ (action h).Faultless) ∧ (action h).FailsAs Failure.Bare

namespace Regular

variable {trusts : Prop} {evolves : Heap → Heap → Prop} {α β : Type}

/-- An action that always has a result. -/
theorem of_ok {action : Action Heap α} {h : Heap} {a : α} {h' : Heap} (hrun : action h = .ok a h')
    (hevolves : evolves h h') :
    evolves h (action h).state ∧ (action h).Settled ∧
      (trusts ∨ (action h).Faultless) ∧ (action h).FailsAs Failure.Bare := by
  rw [hrun]
  exact ⟨hevolves, trivial, .inr trivial, trivial⟩

theorem modify {f : Heap → Heap} (hf : ∀ h, evolves h (f h)) : Regular trusts evolves (modify f) := fun h =>
  of_ok rfl (hf h)

variable [Heap.Growing evolves]

theorem pure (a : α) : Regular trusts evolves (pure a) := fun h =>
  of_ok rfl (Heap.Growing.refl h)

theorem get : Regular trusts evolves get := fun h =>
  of_ok rfl (Heap.Growing.refl h)

theorem raise (cause : RuntimeCause) : Regular trusts evolves (raise cause : Action Heap α) := fun h =>
  ⟨Heap.Growing.refl h, Interrupt.noConfusion, .inr trivial, cause, rfl⟩

theorem fault (htrusts : trusts) (f : Fault) : Regular trusts evolves (throw (.fault f) : Action Heap α) :=
  fun h => ⟨Heap.Growing.refl h, Interrupt.noConfusion, .inl htrusts, trivial⟩

theorem bind {action : Action Heap α} {next : α → Action Heap β} (haction : Regular trusts evolves action)
    (hnext : ∀ a, Regular trusts evolves (next a)) : Regular trusts evolves (action >>= next) := by
  intro h
  obtain ⟨hevolves, hsettled, hfaultless, hfails⟩ := haction h
  cases hrun : action h with
  | ok a h₁ =>
      rw [hrun] at hevolves
      rw [Action.bind_of_ok hrun]
      exact ⟨Heap.Growing.trans hevolves (hnext a h₁).1, (hnext a h₁).2⟩
  | error e h₁ =>
      rw [hrun] at hevolves hsettled hfaultless hfails
      rw [Action.bind_of_error hrun]
      exact ⟨hevolves, hsettled, hfaultless.imp_right fun hfaultless => faultsAs_error hfaultless h₁,
        failsAs_error hfails h₁⟩

theorem orRaise (cause : RuntimeCause) (a : Option α) : Regular trusts evolves (orRaise cause a) := by
  cases a with
  | none => exact raise cause
  | some a => exact pure a

end Regular

/-! ### Operators -/

namespace Operation

variable {trusts : Prop} {applied : Primitive → Prop} {evolves : Heap → Heap → Prop} [Heap.Growing evolves] {α : Type}

theorem regular_makeArray (items : Array Value) : Regular trusts evolves (makeArray items) := fun h =>
  Regular.of_ok rfl (Heap.Growing.newArray h items)

theorem regular_ofSequence (s : Sequence) : Regular trusts evolves (ofSequence s) := by
  cases s with
  | text s => exact .pure _
  | items xs => exact regular_makeArray xs

theorem regular_checkLength (length : Nat) : Regular trusts evolves (checkLength length) := by
  unfold checkLength
  split
  · exact .pure _
  · exact .raise _

theorem regular_checkedLength (length : Option Nat) : Regular trusts evolves (checkedLength length) :=
  .bind (.orRaise _ _) fun _ => .bind (regular_checkLength _) fun _ => .pure _

theorem regular_sequence (v : Value) : Regular trusts evolves (sequence v) :=
  .bind .get fun _ => .orRaise _ _

theorem regular_number (role : NumberRole) (v : Value) : Regular trusts evolves (number role v) := by
  unfold number
  split
  · exact .pure _
  · exact .raise _

theorem regular_content {v : Value} (hv : ∀ h : Heap, (h.sequence? v).isSome) :
    Regular trusts evolves (content v) := by
  refine .bind .get fun h => ?_
  obtain ⟨s, hs⟩ := Option.isSome_iff_exists.1 (hv h)
  rw [hs]
  exact .pure s

theorem regular_unfailing {a : Option α} (ha : a.isSome) : Regular trusts evolves (unfailing a) := by
  obtain ⟨a, rfl⟩ := Option.isSome_iff_exists.1 ha
  exact .pure a

theorem regular_negate (v : Value) : Regular trusts evolves (negate v) := by
  unfold negate
  split
  · exact .pure _
  · exact .raise _

theorem regular_not (v : Value) : Regular trusts evolves (Operation.not v) := by
  unfold Operation.not
  split
  · exact .pure _
  · exact .raise _

theorem regular_add (x y : Value) : Regular trusts evolves (add x y) := by
  unfold add
  split
  · exact .bind .get fun _ => .bind (regular_checkLength _) fun _ => .pure _
  · exact .bind .get fun _ => .bind (regular_checkLength _) fun _ => .pure _
  · exact .bind (.orRaise _ _) fun _ => .pure _
  · exact .bind .get fun _ => .bind (regular_checkedLength _) fun _ => regular_makeArray _
  · exact .raise _

theorem regular_subtract (x y : Value) : Regular trusts evolves (subtract x y) := by
  unfold subtract
  split
  · exact .bind (.orRaise _ _) fun _ => .pure _
  · exact .raise _

theorem regular_fractionalPlaces (length : Nat) (count : Decimal) :
    Regular trusts evolves (fractionalPlaces length count) := by
  obtain ⟨fraction, hsub, hfraction⟩ := count.sub?_whole
  rw [fractionalPlaces, hsub]
  show Regular trusts evolves (unfailing ((Decimal.ofNat length).mul? fraction) >>= _)
  exact .bind (regular_unfailing (Decimal.isSome_ofNat_mul? length hfraction)) fun _ => .pure _

theorem regular_repeatedUpwards (s : Sequence) (count : Decimal) :
    Regular trusts evolves (repeatedUpwards s count) := by
  unfold repeatedUpwards
  split
  · exact regular_ofSequence _
  · exact .bind (regular_fractionalPlaces _ _) fun _ => .bind (regular_checkedLength _) fun _ => regular_ofSequence _

theorem regular_repeated (s : Sequence) (count : Decimal) : Regular trusts evolves (repeated s count) := by
  unfold repeated
  split
  · exact regular_repeatedUpwards _ _
  · exact regular_repeatedUpwards _ _

theorem regular_repetition (v count : Value) : Regular trusts evolves (repetition v count) := by
  cases v with
  | string _ | array _ =>
      exact .bind .get fun _ => .bind (regular_number _ _) fun _ => .bind (regular_content fun _ => rfl) fun _ =>
        regular_repeated _ _
  | _ => exact .bind .get fun _ => .raise _

theorem regular_multiply (x y : Value) : Regular trusts evolves (multiply x y) := by
  unfold multiply
  split
  · exact .bind (.orRaise _ _) fun _ => .pure _
  · exact regular_repetition _ _
  · exact regular_repetition _ _
  · exact .raise _

theorem regular_divide (x y : Value) : Regular trusts evolves (divide x y) := by
  unfold divide
  split
  · split
    · exact .bind (.raise _) fun _ => .bind (.orRaise _ _) fun _ => .pure _
    · exact .bind (.orRaise _ _) fun _ => .pure _
  · exact .raise _

theorem regular_length (v : Value) : Regular trusts evolves (length v) :=
  .bind (regular_sequence v) fun _ => .pure _

theorem regular_reverse (v : Value) : Regular trusts evolves (reverse v) := by
  refine .bind .get fun h => ?_
  split
  · exact regular_ofSequence _
  · exact .raise _

theorem regular_slice (v start stop : Value) : Regular trusts evolves (slice v start stop) := by
  cases v with
  | string _ | array _ =>
      exact .bind (regular_sequence _) fun _ => .bind (regular_number _ _) fun _ => .bind (regular_number _ _) fun _ =>
        .bind (regular_content fun _ => rfl) fun _ => regular_ofSequence _
  | _ => exact .raise _

theorem regular_stepCount (distance step : Decimal) : Regular trusts evolves (stepCount distance step) :=
  .bind (regular_checkedLength _) fun _ => .pure _

theorem regular_rangeBy (first last step : Decimal) : Regular trusts evolves (rangeBy first last step) := by
  unfold rangeBy
  split
  · exact regular_makeArray _
  · split
    · exact .raise _
    · refine .bind (.orRaise _ _) fun distance => ?_
      split
      · exact regular_makeArray _
      · exact .bind (regular_stepCount _ _) fun _ => .bind (.orRaise _ _) fun _ => regular_makeArray _

theorem regular_range (first last : Value) (step : Option Value) : Regular trusts evolves (range first last step) := by
  refine .bind (regular_number _ _) fun first => .bind (regular_number _ _) fun last => ?_
  cases step with
  | none => exact regular_rangeBy _ _ _
  | some step => exact .bind (regular_number _ _) fun _ => regular_rangeBy _ _ _

theorem regular_convert (v : Value) (target : Tag) : Regular trusts evolves (convert v target) := by
  unfold convert
  split
  · exact .pure _
  · exact .bind .get fun _ => .orRaise _ _

theorem regular_equals (x y : Value) : Regular trusts evolves (equals x y) :=
  .bind .get fun _ => .pure _

theorem regular_notEquals (x y : Value) : Regular trusts evolves (notEquals x y) :=
  .bind .get fun _ => .pure _

theorem regular_orEquals (answer : Bool) (x y : Value) : Regular trusts evolves (orEquals (.bool answer) x y) :=
  .bind (.pure answer) fun _ => .bind .get fun _ => .pure _

theorem regular_lessEquals (x y : Value) : Regular trusts evolves (lessEquals x y) :=
  regular_orEquals (x.less y) x y

theorem regular_greaterEquals (x y : Value) : Regular trusts evolves (greaterEquals x y) :=
  regular_orEquals (x.greater y) x y

/-! ### Items and members -/

theorem regular_getItem (id : ArrayId) (index : Int) : Regular trusts evolves (getItem id index) := by
  refine .bind .get fun h => ?_
  split
  · exact .raise _
  · exact .orRaise _ _

theorem setLength_of_le (id : ArrayId) {length : Int} (hnonneg : ¬ length < 0) (hmax : length.toNat ≤ maxLength) :
    setLength id length = modify (·.modifyItems id (resized length.toNat)) := by
  rw [setLength, if_neg hnonneg, checkLength, if_pos hmax]
  rfl

theorem setLength_of_gt (id : ArrayId) {length : Int} (hnonneg : ¬ length < 0) (hmax : ¬ length.toNat ≤ maxLength) :
    setLength id length = raise .lengthLimit := by
  rw [setLength, if_neg hnonneg, checkLength, if_neg hmax]
  rfl

theorem regular_setLength (happlied : applied .arrayResize) (id : ArrayId) (length : Int) :
    Regular trusts (Heap.Evolves applied) (setLength id length) := by
  by_cases hneg : length < 0
  · rw [setLength, if_pos hneg]
    exact .raise _
  · by_cases hmax : length.toNat ≤ maxLength
    · rw [setLength_of_le id hneg hmax]
      exact .modify fun h => .resize h id hmax happlied
    · rw [setLength_of_gt id hneg hmax]
      exact .raise _

theorem putItem_of_not_lacks {h : Heap} {id : ArrayId} {place : Nat} (hlacks : h.lacks id place = false)
    (value : Value) :
    putItem id place value h = .ok () (h.modifyItems id fun items => items.setIfInBounds place value) := by
  show (ite _ _ _ : Action Heap Unit) h = _
  rw [hlacks]
  rfl

theorem setItem_eq (id : ArrayId) {index : Int} (hnonneg : ¬ index < 0) (value : Value) (h : Heap) :
    setItem id index value h =
      if (h.items id).size ≤ index.toNat then
        (setLength id (saturated (index + 1)) >>= fun _ => putItem id index.toNat value) h
      else putItem id index.toNat value h := by
  rw [setItem, if_neg hnonneg]
  show (ite _ _ _ : Action Heap Unit) h = _
  split <;> rfl

theorem setItem_of_neg (id : ArrayId) {index : Int} (hneg : index < 0) (value : Value) :
    setItem id index value = raise (.indexOutOfRange index) := by
  rw [setItem, if_pos hneg]

theorem setItem_of_lt {h : Heap} {id : ArrayId} {place : Nat} (hplace : place < (h.items id).size) (value : Value) :
    setItem id place value h = .ok () (h.modifyItems id fun items => items.setIfInBounds place value) := by
  rw [setItem_eq id (Int.not_lt.2 (Int.natCast_nonneg place)), Int.toNat_natCast, if_neg (Nat.not_le.2 hplace)]
  exact putItem_of_not_lacks (Heap.lacks_of_lt hplace) value

/-- A write behind the end finds its place as soon as the array has grown to have it. -/
theorem setItem_of_le {h : Heap} {id : ArrayId} {place : Nat} (hsize : (h.items id).size ≤ place)
    (hplace : place < maxLength) (value : Value) :
    setItem id place value h = .ok ()
      ((h.modifyItems id (resized (place + 1))).modifyItems id fun items => items.setIfInBounds place value) := by
  have hlength : saturated (place + 1) = (place + 1 : Nat) := by
    have hword : wordBound = 9223372036854775808 := by decide
    have hlimit : maxLength = 16777216 := by decide
    unfold saturated
    omega
  have hlacks : (h.modifyItems id (resized (place + 1))).lacks id place = false :=
    Heap.lacks_modifyItems h id fun items => by rw [Heap.size_resized]; omega
  rw [setItem_eq id (Int.not_lt.2 (Int.natCast_nonneg place)), Int.toNat_natCast, if_pos hsize, hlength,
    setLength_of_le id (by omega) (by omega)]
  exact putItem_of_not_lacks hlacks value

theorem setItem_of_maxLength_le {h : Heap} {id : ArrayId} {place : Nat} (hsize : (h.items id).size ≤ place)
    (hplace : maxLength ≤ place) (value : Value) : setItem id place value h = raise .lengthLimit h := by
  have hword : wordBound = 9223372036854775808 := by decide
  have hlimit : maxLength = 16777216 := by decide
  rw [setItem_eq id (Int.not_lt.2 (Int.natCast_nonneg place)), Int.toNat_natCast, if_pos hsize,
    setLength_of_gt id (by unfold saturated; omega) (by unfold saturated; omega)]
  rfl

theorem regular_setItem (id : ArrayId) (index : Int) (value : Value) :
    Regular trusts (Heap.Evolves applied) (setItem id index value) := by
  by_cases hneg : index < 0
  · rw [setItem_of_neg id hneg]
    exact .raise _
  obtain ⟨place, rfl⟩ := Int.eq_ofNat_of_zero_le (Int.not_lt.1 hneg)
  intro h
  rcases Nat.lt_or_ge place (h.items id).size with hsize | hsize
  · exact Regular.of_ok (setItem_of_lt hsize value) (.setItem h id place value)
  rcases Nat.lt_or_ge place maxLength with hplace | hplace
  · have hgrown : Heap.Evolves applied h _ := .extend h id (Nat.le_succ_of_le hsize) hplace
    exact Regular.of_ok (setItem_of_le hsize hplace value) (hgrown.trans (.setItem _ id place value))
  · rw [setItem_of_maxLength_le hsize hplace]
    exact Regular.raise _ h

theorem regular_arrayAndIndex (v index : Value) : Regular trusts evolves (arrayAndIndex v index) := by
  unfold arrayAndIndex
  split
  · split
    · split
      · split
        · exact .pure _
        · exact .raise _
      · exact .bind .get fun _ => .raise _
    · exact .bind .get fun _ => .raise _
  · exact .raise _

theorem regular_readItem (v index : Value) : Regular trusts evolves (readItem v index) :=
  .bind (regular_arrayAndIndex _ _) fun _ => regular_getItem _ _

theorem regular_writeItem (v index value : Value) : Regular trusts (Heap.Evolves applied) (writeItem v index value) :=
  .bind (regular_arrayAndIndex _ _) fun _ => regular_setItem _ _ _

theorem regular_getMember (id : ObjectId) (name : String) : Regular trusts evolves (getMember id name) :=
  .bind .get fun _ => .orRaise _ _

theorem regular_readMember (v : Value) (name : String) : Regular trusts evolves (readMember v name) := by
  unfold readMember
  split
  · exact regular_getMember _ _
  · exact .raise _

theorem regular_writeMember (v : Value) (name : String) (value : Value) :
    Regular trusts evolves (writeMember v name value) := by
  unfold writeMember
  split
  · exact .modify fun h => Heap.Growing.setMember h _ _ _
  · exact .raise _

/-! ### Arguments -/

theorem regular_argument {args : List Value} {i : Nat} (hargs : trusts ∨ i < args.length) :
    Regular trusts evolves (argument args i) := by
  unfold argument
  split
  · exact .pure _
  · rename_i hnone
    exact .fault (hargs.resolve_right (Nat.not_lt.2 (List.getElem?_eq_none_iff.1 hnone))) _

section Trusts

variable (htrusts : trusts) {args : List Value} {i : Nat}

include htrusts

theorem regular_payload (result : Except Fault α) : Regular trusts evolves (payload result) := by
  cases result with
  | error f => exact .fault htrusts f
  | ok a => exact .pure a

theorem regular_nameArgument : Regular trusts evolves (nameArgument args i) :=
  .bind (regular_argument (.inl htrusts)) fun _ => regular_payload htrusts _

theorem regular_integerArgument : Regular trusts evolves (integerArgument args i) :=
  .bind (regular_argument (.inl htrusts)) fun _ => .bind (regular_payload htrusts _) fun _ => .pure _

theorem regular_arrayArgument : Regular trusts evolves (arrayArgument args i) :=
  .bind (regular_argument (.inl htrusts)) fun _ => regular_payload htrusts _

theorem regular_objectArgument : Regular trusts evolves (objectArgument args i) :=
  .bind (regular_argument (.inl htrusts)) fun _ => regular_payload htrusts _

theorem regular_functionArgument : Regular trusts evolves (functionArgument args i) :=
  .bind .get fun _ => .bind (regular_argument (.inl htrusts)) fun _ =>
    .bind (regular_payload htrusts _) fun _ => .pure _

theorem regular_tagArgument : Regular trusts evolves (tagArgument args i) := by
  refine .bind (regular_nameArgument htrusts) fun name => ?_
  split
  · exact .pure _
  · exact .fault htrusts _

theorem regular_unaryOn {operation : Value → Action Heap Value}
    (hoperation : ∀ x, Regular trusts evolves (operation x)) : Regular trusts evolves (unaryOn args operation) :=
  .bind (regular_argument (.inl htrusts)) hoperation

theorem regular_binaryOn {operation : Value → Value → Action Heap Value}
    (hoperation : ∀ x y, Regular trusts evolves (operation x y)) : Regular trusts evolves (binaryOn args operation) :=
  .bind (regular_argument (.inl htrusts)) fun x =>
    .bind (regular_argument (.inl htrusts)) fun y => hoperation x y

end Trusts

theorem regular_nothing {action : Action Heap Unit} (haction : Regular trusts evolves action) :
    Regular trusts evolves (nothing action) :=
  .bind haction fun _ => .pure _

theorem regular_apply {primitive : Primitive} (happlied : applied primitive) (htrusts : trusts) (args : List Value) :
    Regular trusts (Heap.Evolves applied) (apply primitive args) := by
  have hargument (i : Nat) : Regular trusts (Heap.Evolves applied) (argument args i) :=
    regular_argument (.inl htrusts)
  cases primitive with
  | add => exact regular_binaryOn htrusts regular_add
  | subtract => exact regular_binaryOn htrusts regular_subtract
  | multiply => exact regular_binaryOn htrusts regular_multiply
  | divide => exact regular_binaryOn htrusts regular_divide
  | equals => exact regular_binaryOn htrusts regular_equals
  | notEquals => exact regular_binaryOn htrusts regular_notEquals
  | less => exact regular_binaryOn htrusts fun _ _ => .pure _
  | lessEquals => exact regular_binaryOn htrusts regular_lessEquals
  | greater => exact regular_binaryOn htrusts fun _ _ => .pure _
  | greaterEquals => exact regular_binaryOn htrusts regular_greaterEquals
  | not => exact regular_unaryOn htrusts regular_not
  | negate => exact regular_unaryOn htrusts regular_negate
  | length => exact regular_unaryOn htrusts regular_length
  | reverse => exact regular_unaryOn htrusts regular_reverse
  | slice =>
      exact .bind (hargument _) fun _ => .bind (hargument _) fun _ =>
        .bind (hargument _) fun _ => regular_slice _ _ _
  | repetition => exact regular_binaryOn htrusts regular_repetition
  | readMember =>
      exact .bind (hargument _) fun _ => .bind (regular_nameArgument htrusts) fun _ =>
        regular_readMember _ _
  | writeMember =>
      exact regular_nothing (.bind (hargument _) fun _ =>
        .bind (regular_nameArgument htrusts) fun _ => .bind (hargument _) fun _ => regular_writeMember _ _ _)
  | call => exact .fault htrusts _
  | makeArray => exact regular_makeArray _
  | makeRange => exact .bind (hargument _) fun _ => .bind (hargument _) fun _ => regular_range _ _ _
  | readItem => exact regular_binaryOn htrusts regular_readItem
  | writeItem =>
      exact regular_nothing (.bind (hargument _) fun _ =>
        .bind (hargument _) fun _ => .bind (hargument _) fun _ => regular_writeItem _ _ _)
  | same => exact hargument _
  | convert =>
      exact .bind (hargument _) fun _ => .bind (regular_tagArgument htrusts) fun _ =>
        regular_convert _ _
  | display | debug => exact .bind .get fun _ => .bind (hargument _) fun _ => .pure _
  | typeName | isNone | isInteger => exact .bind (hargument _) fun _ => .pure _
  | asBool | asNumber | asString | asArray | asObject | asFunction =>
      exact .bind (hargument _) fun _ => .bind (regular_payload htrusts _) fun _ => .pure _
  | emptyArray => exact regular_makeArray _
  | arrayLength | arrayIsEmpty => exact .bind .get fun _ => .bind (regular_arrayArgument htrusts) fun _ => .pure _
  | arrayGet =>
      exact .bind (regular_arrayArgument htrusts) fun _ => .bind (regular_integerArgument htrusts) fun _ =>
        regular_getItem _ _
  | arraySet =>
      exact regular_nothing (.bind (regular_arrayArgument htrusts) fun _ =>
        .bind (regular_integerArgument htrusts) fun _ => .bind (hargument _) fun _ => regular_setItem _ _ _)
  | arrayResize =>
      exact regular_nothing (.bind (regular_arrayArgument htrusts) fun _ =>
        .bind (regular_integerArgument htrusts) fun _ => regular_setLength happlied _ _)
  | arrayPush =>
      exact regular_nothing (.bind (regular_arrayArgument htrusts) fun _ =>
        .bind (hargument _) fun _ => .modify fun h => .push h _ _ happlied)
  | arrayConcat =>
      exact .bind (regular_arrayArgument htrusts) fun _ => .bind (regular_arrayArgument htrusts) fun _ =>
        regular_add _ _
  | arraySpan =>
      exact .bind .get fun _ => .bind (regular_arrayArgument htrusts) fun _ =>
        .bind (regular_integerArgument htrusts) fun _ =>
          .bind (regular_integerArgument htrusts) fun _ => regular_makeArray _
  | arrayReversed => exact .bind (regular_arrayArgument htrusts) fun _ => regular_reverse _
  | arrayCopy => exact .bind .get fun _ => .bind (regular_arrayArgument htrusts) fun _ => regular_makeArray _
  | objectName => exact .bind .get fun _ => .bind (regular_objectArgument htrusts) fun _ => .pure _
  | objectSet =>
      exact regular_nothing (.bind (regular_objectArgument htrusts) fun _ =>
        .bind (regular_nameArgument htrusts) fun _ => .bind (hargument _) fun _ => regular_writeMember _ _ _)
  | objectGet =>
      exact .bind (regular_objectArgument htrusts) fun _ => .bind (regular_nameArgument htrusts) fun _ =>
        regular_getMember _ _
  | objectContains =>
      exact .bind .get fun _ => .bind (regular_objectArgument htrusts) fun _ =>
        .bind (regular_nameArgument htrusts) fun _ => .pure _
  | objectNames => exact .bind .get fun _ => .bind (regular_objectArgument htrusts) fun _ => regular_makeArray _
  | functionParams => exact .bind (regular_functionArgument htrusts) fun _ => regular_makeArray _
  | functionName | functionArity | functionDebug => exact .bind (regular_functionArgument htrusts) fun _ => .pure _

end Operation

end LineScript
