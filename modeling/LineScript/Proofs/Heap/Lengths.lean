import LineScript.Evaluation
import LineScript.Proofs.Heap.Evolution
/-!
# Operations keep to the limit of lengths

An operation makes a string or an array only after it has looked at its length, and where it does not look, the length
cannot be above the limit: a literal range of one item, the empty part of a sequence, an array that was there before. So
on a heap in which no string and no array is longer than the limit, no operation makes one that is.
-/

namespace LineScript

/-! ### What is not too long -/

/-- The number of characters of a string. -/
def Value.length : Value → Nat
  | string s => s.length
  | _ => 0

def Value.Fits (v : Value) : Prop :=
  v.length ≤ maxLength

instance (v : Value) : Decidable v.Fits :=
  inferInstanceAs (Decidable (v.length ≤ maxLength))

def Bindings.Fits (bindings : Bindings) : Prop :=
  ∀ binding ∈ bindings, binding.2.Fits

instance (bindings : Bindings) : Decidable bindings.Fits :=
  inferInstanceAs (Decidable (∀ binding ∈ bindings, binding.2.Fits))

/-- An array is not too long, and none of its items is. -/
def ItemsFit (items : Array Value) : Prop :=
  items.size ≤ maxLength ∧ ∀ v ∈ items, v.Fits

instance (items : Array Value) : Decidable (ItemsFit items) :=
  inferInstanceAs (Decidable (_ ∧ _))

def Sequence.Fits : Sequence → Prop
  | text s => s.length ≤ maxLength
  | items xs => ItemsFit xs

def Heap.Fits (h : Heap) : Prop :=
  (∀ items ∈ h.arrays, ItemsFit items) ∧ ∀ o ∈ h.objects, o.members.Fits

instance (h : Heap) : Decidable h.Fits :=
  inferInstanceAs (Decidable (_ ∧ _))

theorem Value.fits_of_length {v : Value} (hv : v.length = 0) : v.Fits :=
  Nat.le_trans (Nat.le_of_eq hv) (Nat.zero_le maxLength)

theorem itemsFit_empty : ItemsFit #[] :=
  ⟨Nat.zero_le _, fun v hv => (Array.not_mem_empty v hv).elim⟩

namespace Bindings

theorem fits_nil : Bindings.Fits [] :=
  nofun

theorem Fits.insert {bindings : Bindings} (hbindings : bindings.Fits) (name : String) {v : Value} (hv : v.Fits) :
    (Bindings.insert name v bindings).Fits := by
  induction bindings with
  | nil => exact List.forall_mem_singleton.2 hv
  | cons binding rest ih =>
      obtain ⟨bound, old⟩ := binding
      obtain ⟨hold, hrest⟩ := List.forall_mem_cons.1 hbindings
      unfold Bindings.insert
      split
      · exact List.forall_mem_cons.2 ⟨hv, hrest⟩
      · exact List.forall_mem_cons.2 ⟨hold, ih hrest⟩

theorem Fits.get? {bindings : Bindings} (hbindings : bindings.Fits) {name : String} {v : Value}
    (hv : bindings.get? name = some v) : v.Fits := by
  obtain ⟨before, behind, rfl, -⟩ := List.lookup_eq_some_iff.1 hv
  exact hbindings (name, v) (List.mem_append_right before List.mem_cons_self)

end Bindings

/-- What holds of the entries of an array, and of an entry that is changed, holds of the entries of the changed one. -/
theorem forall_mem_modify {α : Type} {property : α → Prop} {xs : Array α} {f : α → α} (hxs : ∀ x ∈ xs, property x)
    (hf : ∀ x, property x → property (f x)) (i : Nat) : ∀ x ∈ xs.modify i f, property x := by
  intro x hx
  obtain ⟨j, hj⟩ := Array.getElem?_of_mem hx
  rw [Array.getElem?_modify] at hj
  split at hj
  · obtain ⟨y, hy, rfl⟩ := Option.map_eq_some_iff.1 hj
    exact hf y (hxs y (Array.mem_of_getElem? hy))
  · exact hxs x (Array.mem_of_getElem? hj)

theorem mem_of_mem_take {xs : Array Value} {count : Nat} {v : Value} (hv : v ∈ xs.take count) : v ∈ xs := by
  rw [Array.take_eq_extract] at hv
  obtain ⟨i, hi⟩ := Array.getElem?_of_mem hv
  rw [Array.getElem?_extract] at hi
  split at hi
  · exact Array.mem_of_getElem? hi
  · cases hi

namespace Heap

variable {h : Heap}

theorem fits_empty : Heap.empty.Fits :=
  ⟨fun items hitems => (Array.not_mem_empty items hitems).elim, fun o ho => (Array.not_mem_empty o ho).elim⟩

theorem Fits.items (hh : h.Fits) (id : ArrayId) : ItemsFit (h.items id) := by
  unfold Heap.items
  cases hfound : h.arrays[id.index]? with
  | none => exact itemsFit_empty
  | some items => exact hh.1 items (Array.mem_of_getElem? hfound)

theorem Fits.members (hh : h.Fits) (id : ObjectId) : (h.object id).members.Fits := by
  unfold Heap.object
  cases hfound : h.objects[id.index]? with
  | none => exact Bindings.fits_nil
  | some o => exact hh.2 o (Array.mem_of_getElem? hfound)

theorem Fits.newArray (hh : h.Fits) {items : Array Value} (hitems : ItemsFit items) : (h.newArray items).2.Fits := by
  refine ⟨fun xs hxs => ?_, hh.2⟩
  rcases Array.mem_push.1 hxs with hxs | rfl
  · exact hh.1 xs hxs
  · exact hitems

theorem Fits.modifyItems (hh : h.Fits) (id : ArrayId) {f : Array Value → Array Value}
    (hf : ∀ items, ItemsFit items → ItemsFit (f items)) : (h.modifyItems id f).Fits :=
  ⟨forall_mem_modify hh.1 hf id.index, hh.2⟩

theorem Fits.setMember (hh : h.Fits) (id : ObjectId) (name : String) {v : Value} (hv : v.Fits) :
    (h.setMember id name v).Fits := by
  have hinsert (o : Object) (ho : o.members.Fits) :
      ({ o with members := Bindings.insert name v o.members } : Object).members.Fits := ho.insert name hv
  exact ⟨hh.1, forall_mem_modify hh.2 hinsert id.index⟩

theorem Fits.sequence? (hh : h.Fits) {v : Value} (hv : v.Fits) {s : Sequence} (hs : h.sequence? v = some s) :
    s.Fits := by
  cases v with
  | string text =>
      cases hs
      exact hv
  | array id =>
      cases hs
      exact hh.items id
  | _ => cases hs

end Heap

/-! ### Sequences -/

namespace Sequence

variable {s : Sequence}

theorem Fits.reversed (hs : s.Fits) : s.reversed.Fits := by
  cases s with
  | text s =>
      show (String.ofList s.toList.reverse).length ≤ maxLength
      rw [String.length_ofList, List.length_reverse, String.length_toList]
      exact hs
  | items xs =>
      refine ⟨?_, fun v hv => hs.2 v (Array.mem_reverse.1 hv)⟩
      rw [Array.size_reverse]
      exact hs.1

theorem fits_cleared (s : Sequence) : s.cleared.Fits := by
  cases s with
  | text s => exact Nat.zero_le _
  | items xs => exact itemsFit_empty

theorem length_appendCopies (s text : String) (copies : Nat) :
    (appendCopies s copies text).length = text.length + s.length * copies := by
  induction copies generalizing text with
  | zero => rfl
  | succ copies ih =>
      rw [appendCopies, ih, String.length_append, Nat.mul_succ]
      omega

theorem size_appendItems (xs items : Array Value) (copies : Nat) :
    (appendItems xs copies items).size = items.size + xs.size * copies := by
  induction copies generalizing items with
  | zero => rfl
  | succ copies ih =>
      rw [appendItems, ih, Array.size_append, Nat.mul_succ]
      omega

theorem mem_appendItems {xs items : Array Value} {copies : Nat} {v : Value} (hv : v ∈ appendItems xs copies items) :
    v ∈ items ∨ v ∈ xs := by
  induction copies generalizing items with
  | zero => exact .inl hv
  | succ copies ih =>
      rcases ih hv with hv | hv
      · exact Array.mem_append.1 hv
      · exact .inr hv

/-- A copied sequence is as long as has been looked at before. -/
theorem Fits.copied (hs : s.Fits) {copies tail : Nat} (hlength : s.length * copies + tail ≤ maxLength) :
    (s.copied copies tail).Fits := by
  cases s with
  | text s =>
      show (appendCopies s copies "" ++ String.ofList (s.toList.take tail)).length ≤ maxLength
      have htake := List.length_take_le tail s.toList
      have hlength : s.length * copies + tail ≤ maxLength := hlength
      rw [String.length_append, String.length_ofList, length_appendCopies, String.length_empty]
      omega
  | items xs =>
      refine ⟨?_, fun v hv => ?_⟩
      · simp only [Sequence.length] at hlength
        simp only [Array.size_append, size_appendItems, Array.take_eq_extract, Array.size_extract, Array.size_empty]
        omega
      · rcases Array.mem_append.1 hv with hv | hv
        · rcases mem_appendItems hv with hv | hv
          · exact (Array.not_mem_empty v hv).elim
          · exact hs.2 v hv
        · exact hs.2 v (mem_of_mem_take hv)

end Sequence

/-! ### Actions that keep to the limit -/

variable {α β : Type}

/-- On a heap without anything too long, the action makes nothing too long and leaves functions alone, and its result
has a property. -/
def Fitting (property : α → Prop) (action : Action Heap α) : Prop :=
  ∀ h, h.Fits → (action h).state.Fits ∧ (action h).state.functions = h.functions ∧
    ∀ a h', action h = .ok a h' → property a

namespace Fitting

variable {property : α → Prop} {action : Action Heap α}

theorem of_ok {a : Heap → α} {f : Heap → Heap} (haction : ∀ h, action h = .ok (a h) (f h))
    (hf : ∀ h, h.Fits → (f h).Fits ∧ (f h).functions = h.functions ∧ property (a h)) : Fitting property action := by
  intro h hh
  obtain ⟨hfits, hfunctions, hproperty⟩ := hf h hh
  rw [haction]
  refine ⟨hfits, hfunctions, fun b h' hb => ?_⟩
  cases hb
  exact hproperty

theorem pure {a : α} (ha : property a) : Fitting property (Pure.pure a : Action Heap α) :=
  of_ok (fun _ => rfl) fun _ hh => ⟨hh, rfl, ha⟩

theorem get : Fitting Heap.Fits (MonadState.get : Action Heap Heap) :=
  of_ok (fun _ => rfl) fun _ hh => ⟨hh, rfl, hh⟩

theorem throw (e : Interrupt) : Fitting property (MonadExcept.throw e : Action Heap α) := fun _ hh =>
  ⟨hh, rfl, nofun⟩

theorem raise (cause : RuntimeCause) : Fitting property (raise cause : Action Heap α) :=
  throw _

theorem orRaise (cause : RuntimeCause) {a : Option α} (ha : ∀ b ∈ a, property b) :
    Fitting property (orRaise cause a) := by
  cases a with
  | none => exact raise cause
  | some a => exact pure (ha a rfl)

theorem bind {property' : β → Prop} {next : α → Action Heap β} (haction : Fitting property action)
    (hnext : ∀ a, property a → Fitting property' (next a)) : Fitting property' (action >>= next) := by
  intro h hh
  obtain ⟨hfits, hfunctions, hproperty⟩ := haction h hh
  cases hrun : action h with
  | ok a h₁ =>
      rw [hrun] at hfits hfunctions
      obtain ⟨hfits₁, hfunctions₁, hproperty₁⟩ := hnext a (hproperty a h₁ hrun) h₁ hfits
      rw [Action.bind_of_ok hrun]
      exact ⟨hfits₁, hfunctions₁.trans hfunctions, hproperty₁⟩
  | error e h₁ =>
      rw [hrun] at hfits hfunctions
      rw [Action.bind_of_error hrun]
      exact ⟨hfits, hfunctions, nofun⟩

end Fitting

namespace Operation

theorem fitting_makeArray {items : Array Value} (hitems : ItemsFit items) :
    Fitting Value.Fits (makeArray items) :=
  .of_ok (fun _ => rfl) fun _ hh => ⟨hh.newArray hitems, rfl, Value.fits_of_length rfl⟩

theorem fitting_ofSequence {s : Sequence} (hs : s.Fits) : Fitting Value.Fits (ofSequence s) := by
  cases s with
  | text s => exact .pure hs
  | items xs => exact fitting_makeArray hs

theorem fitting_checkLength (length : Nat) : Fitting (fun _ => length ≤ maxLength) (checkLength length) := by
  unfold checkLength
  split
  next hlength => exact .pure hlength
  next => exact .raise _

theorem fitting_checkedLength (length : Option Nat) :
    Fitting (fun n => length = some n ∧ n ≤ maxLength) (checkedLength length) :=
  .bind (.orRaise _ fun _ hlength => hlength) fun _ hlength => .bind (fitting_checkLength _) fun _ hle =>
    .pure ⟨hlength, hle⟩

theorem fitting_number (role : NumberRole) (v : Value) : Fitting (fun _ => True) (number role v) := by
  unfold number
  split
  · exact .pure trivial
  · exact .raise _

theorem fitting_unfailing (a : Option α) : Fitting (fun _ => True) (unfailing a) := by
  cases a with
  | none => exact .throw _
  | some a => exact .pure trivial

/-- A number that may be too large is not too long. -/
theorem fitting_decimal (cause : RuntimeCause) (n : Option Decimal) :
    Fitting Value.Fits (do return .number (← orRaise cause n)) :=
  .bind (.orRaise cause fun _ _ => trivial) fun _ (_ : True) => .pure (Value.fits_of_length rfl)

theorem fitting_add (x y : Value) : Fitting Value.Fits (add x y) := by
  unfold add
  split
  · exact .bind .get fun _ _ => .bind (fitting_checkLength _) fun _ hlength => .pure hlength
  · exact .bind .get fun _ _ => .bind (fitting_checkLength _) fun _ hlength => .pure hlength
  · exact fitting_decimal _ _
  · refine .bind .get fun h hh => .bind (fitting_checkedLength _) fun n ⟨hlength, hle⟩ => fitting_makeArray ⟨?_, ?_⟩
    · rw [Array.size_append, ← eq_of_checkedAdd? hlength]
      exact hle
    · intro v hv
      exact (Array.mem_append.1 hv).elim ((hh.items _).2 v) ((hh.items _).2 v)
  · exact .raise _

theorem fitting_subtract (x y : Value) : Fitting Value.Fits (subtract x y) := by
  unfold subtract
  split
  · exact fitting_decimal _ _
  · exact .raise _

theorem fitting_repeatedUpwards {s : Sequence} (hs : s.Fits) (count : Decimal) :
    Fitting Value.Fits (repeatedUpwards s count) := by
  unfold repeatedUpwards
  split
  · exact fitting_ofSequence s.fits_cleared
  · have hplaces : Fitting (fun _ => True) (fractionalPlaces s.length count) :=
      .bind (fitting_unfailing _) fun _ _ => .bind (fitting_unfailing _) fun _ _ => .pure trivial
    exact .bind hplaces fun tail _ => .bind (fitting_checkedLength _) fun n ⟨hlength, hle⟩ =>
      fitting_ofSequence (hs.copied (eq_of_copiedLength? hlength ▸ hle))

theorem fitting_repeated {s : Sequence} (hs : s.Fits) (count : Decimal) : Fitting Value.Fits (repeated s count) := by
  unfold repeated
  split
  · exact fitting_repeatedUpwards hs.reversed _
  · exact fitting_repeatedUpwards hs _

theorem fitting_content {v : Value} (hv : v.Fits) : Fitting Sequence.Fits (content v) := by
  refine .bind .get fun h hh => ?_
  split
  · rename_i s hs
    exact .pure (hh.sequence? hv hs)
  · exact .throw _

theorem fitting_repetition {v : Value} (hv : v.Fits) (count : Value) : Fitting Value.Fits (repetition v count) := by
  refine .bind .get fun h _ => ?_
  split
  · exact .raise _
  · exact .bind (fitting_number _ _) fun count _ => .bind (fitting_content hv) fun s hs => fitting_repeated hs count

theorem fitting_multiply {x : Value} (hx : x.Fits) (y : Value) : Fitting Value.Fits (multiply x y) := by
  unfold multiply
  split
  · exact fitting_decimal _ _
  · exact fitting_repetition hx _
  · exact fitting_repetition hx _
  · exact .raise _

theorem fitting_divide (x y : Value) : Fitting Value.Fits (divide x y) := by
  unfold divide
  split
  · split
    · exact .bind (.raise _) fun _ (_ : True) => fitting_decimal _ _
    · exact fitting_decimal _ _
  · exact .raise _

theorem fitting_negate (x : Value) : Fitting Value.Fits (negate x) := by
  unfold negate
  split
  · exact .pure (Value.fits_of_length rfl)
  · exact .raise _

theorem fitting_not (x : Value) : Fitting Value.Fits (Operation.not x) := by
  unfold Operation.not
  split
  · exact .pure (Value.fits_of_length rfl)
  · exact .raise _

theorem fitting_equals (x y : Value) : Fitting Value.Fits (equals x y) :=
  .bind .get fun _ _ => .pure (Value.fits_of_length rfl)

theorem fitting_notEquals (x y : Value) : Fitting Value.Fits (notEquals x y) :=
  .bind .get fun _ _ => .pure (Value.fits_of_length rfl)

theorem fitting_orEquals (answer : Bool) (x y : Value) : Fitting Value.Fits (orEquals (.bool answer) x y) :=
  .bind (.pure trivial) fun _ (_ : True) => .bind .get fun _ _ => .pure (Value.fits_of_length rfl)

theorem fitting_binary (op : BinaryOp) {x : Value} (hx : x.Fits) (y : Value) :
    Fitting Value.Fits (op.operation x y) := by
  cases op with
  | add => exact fitting_add x y
  | subtract => exact fitting_subtract x y
  | multiply => exact fitting_multiply hx y
  | divide => exact fitting_divide x y
  | equals => exact fitting_equals x y
  | notEquals => exact fitting_notEquals x y
  | less => exact .pure (Value.fits_of_length rfl)
  | lessEquals => exact fitting_orEquals (x.less y) x y
  | greater => exact .pure (Value.fits_of_length rfl)
  | greaterEquals => exact fitting_orEquals (x.greater y) x y

theorem fitting_unary (op : UnaryOp) (x : Value) : Fitting Value.Fits (op.operation x) := by
  cases op with
  | not => exact fitting_not x
  | negate => exact fitting_negate x

/-! ### Ranges -/

theorem itemsFit_of_steps {step current : Decimal} {count : Nat} {items made : Array Value}
    (hitems : ∀ v ∈ items, v.Fits) (hlength : items.size + count ≤ maxLength)
    (hmade : steps step count current items = some made) : ItemsFit made := by
  induction count generalizing current items with
  | zero =>
      cases hmade
      exact ⟨hlength, hitems⟩
  | succ count ih =>
      obtain ⟨next, -, hmade⟩ := Option.bind_eq_some_iff.1 hmade
      refine ih (fun v hv => ?_) ?_ hmade
      · rcases Array.mem_push.1 hv with hv | rfl
        · exact hitems v hv
        · exact Value.fits_of_length rfl
      · rw [Array.size_push]
        omega

theorem itemsFit_single (n : Decimal) : ItemsFit #[.number n] := by
  refine ⟨Nat.le_of_ble_eq_true rfl, fun v hv => ?_⟩
  obtain rfl : v = .number n := by simpa using hv
  exact Value.fits_of_length rfl

theorem fitting_rangeBy (first last step : Decimal) : Fitting Value.Fits (rangeBy first last step) := by
  unfold rangeBy
  split
  · exact fitting_makeArray (itemsFit_single first)
  split
  · exact .raise _
  refine .bind (.orRaise _ fun _ _ => trivial) fun distance (_ : True) => ?_
  split
  · exact fitting_makeArray itemsFit_empty
  have hcount : Fitting (fun count => count + 1 ≤ maxLength) (stepCount distance step) := by
    refine .bind (fitting_checkedLength _) fun n ⟨hlength, hle⟩ => .pure ?_
    obtain ⟨steps, -, hadd⟩ := Option.bind_eq_some_iff.1 hlength
    have hn := eq_of_checkedAdd? hadd
    omega
  refine .bind hcount fun count hlength => .bind (.orRaise _ fun items hitems => ?_) fun items => fitting_makeArray
  refine itemsFit_of_steps (itemsFit_single first).2 ?_ hitems
  simp only [List.size_toArray, List.length_singleton]
  omega

theorem fitting_range (first last : Value) (step : Option Value) : Fitting Value.Fits (range first last step) := by
  refine .bind (fitting_number _ _) fun first _ => .bind (fitting_number _ _) fun last _ => ?_
  cases step with
  | none => exact fitting_rangeBy _ _ _
  | some step => exact .bind (fitting_number _ _) fun _ _ => fitting_rangeBy _ _ _

/-! ### Items and members -/

theorem fitting_arrayAndIndex (v index : Value) : Fitting (fun _ => True) (arrayAndIndex v index) := by
  unfold arrayAndIndex
  split
  · split
    · split
      · split
        · exact .pure trivial
        · exact .raise _
      · exact .bind .get fun _ _ => .raise _
    · exact .bind .get fun _ _ => .raise _
  · exact .raise _

theorem fitting_readItem (v index : Value) : Fitting Value.Fits (readItem v index) := by
  refine .bind (fitting_arrayAndIndex v index) fun target _ => .bind .get fun h hh => ?_
  split
  · exact .raise _
  · exact .orRaise _ fun item hitem => (hh.items _).2 item (Array.mem_of_getElem? hitem)

theorem fitting_setLength (id : ArrayId) (length : Int) : Fitting (fun _ => True) (setLength id length) := by
  unfold setLength
  split
  · exact .raise _
  refine .bind (fitting_checkLength _) fun _ hlength => .of_ok (fun _ => rfl) fun h hh => ⟨?_, rfl, trivial⟩
  refine hh.modifyItems id fun items hitems => ⟨?_, fun v hv => ?_⟩
  · rw [Heap.size_resized]
    exact hlength
  · unfold resized at hv
    split at hv
    · exact hitems.2 v (mem_of_mem_take hv)
    · rcases Array.mem_append.1 hv with hv | hv
      · exact hitems.2 v hv
      · rw [Array.eq_of_mem_replicate hv]
        exact Value.fits_of_length rfl

theorem fitting_putItem (id : ArrayId) (place : Nat) {v : Value} (hv : v.Fits) :
    Fitting (fun _ => True) (putItem id place v) := by
  refine .bind .get fun h _ => ?_
  split
  · exact .bind .get fun _ _ => .throw _
  · refine .of_ok (fun _ => rfl) fun h hh => ⟨hh.modifyItems id fun items hitems => ⟨?_, fun x hx => ?_⟩, rfl, trivial⟩
    · rw [Array.size_setIfInBounds]
      exact hitems.1
    · rcases Array.mem_or_eq_of_mem_setIfInBounds hx with hx | rfl
      · exact hitems.2 x hx
      · exact hv

theorem fitting_setItem (id : ArrayId) (index : Int) {v : Value} (hv : v.Fits) :
    Fitting (fun _ => True) (setItem id index v) := by
  unfold setItem
  split
  · exact .raise _
  · refine .bind .get fun h _ => ?_
    split
    · exact .bind (fitting_setLength _ _) fun _ _ => fitting_putItem _ _ hv
    · exact fitting_putItem _ _ hv

theorem fitting_writeItem (x index : Value) {v : Value} (hv : v.Fits) :
    Fitting (fun _ => True) (writeItem x index v) :=
  .bind (fitting_arrayAndIndex x index) fun _ _ => fitting_setItem _ _ hv

theorem fitting_readMember (v : Value) (name : String) : Fitting Value.Fits (readMember v name) := by
  unfold readMember
  split
  · exact .bind .get fun h hh => .orRaise _ fun member hmember => (hh.members _).get? hmember
  · exact .raise _

theorem fitting_writeMember (x : Value) (name : String) {v : Value} (hv : v.Fits) :
    Fitting (fun _ => True) (writeMember x name v) := by
  unfold writeMember
  split
  · exact .of_ok (fun _ => rfl) fun h hh => ⟨hh.setMember _ name hv, rfl, trivial⟩
  · exact .raise _

end Operation

end LineScript
