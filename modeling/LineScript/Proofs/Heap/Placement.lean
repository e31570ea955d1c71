import LineScript.Evaluation
import LineScript.Proofs.Heap.Equality
import LineScript.Proofs.Heap.Evolution
import LineScript.Proofs.Heap.Rendering
/-!
# Heaps behind other heaps

A heap that starts where another machine has stopped is the heap that it would be by itself, with everything of the old
machine before it and with handles that count from there. No operation can tell the two apart: handles are only followed
and compared, what is old is out of their reach, and the text of a value does not show them. The old machine is fixed
throughout, since nothing is ever added to what it left behind.
-/

namespace LineScript

/-! ### Moving handles -/

section

variable (old : Machine)

def ArrayId.behind (id : ArrayId) : ArrayId :=
  ⟨old.heap.arrays.size + id.index⟩

def ObjectId.behind (id : ObjectId) : ObjectId :=
  ⟨old.heap.objects.size + id.index⟩

def FunctionId.behind (id : FunctionId) : FunctionId :=
  ⟨old.heap.functions.size + id.index⟩

def FrameId.behind (id : FrameId) : FrameId :=
  ⟨old.scopes.frames.size + id.index⟩

def Value.behind : Value → Value
  | object id => .object (id.behind old)
  | array id => .array (id.behind old)
  | function id => .function (id.behind old)
  | v => v

def Bindings.behind (bindings : Bindings) : Bindings :=
  bindings.map fun binding => (binding.1, binding.2.behind old)

def Scope.behind (scope : Scope) : Scope :=
  ⟨scope.frame.behind old, scope.outer.map (·.behind old)⟩

def Object.behind (o : Object) : Object :=
  { o with members := o.members.behind old }

def FunctionBody.behind : FunctionBody → FunctionBody
  | script body scope => .script body (scope.behind old)
  | native operation => .native operation

def Function.behind (f : Function) : Function :=
  { f with body := f.body.behind old }

def Heap.behind (h : Heap) : Heap where
  arrays := old.heap.arrays ++ h.arrays.map (·.map (·.behind old))
  objects := old.heap.objects ++ h.objects.map (·.behind old)
  functions := old.heap.functions ++ h.functions.map (·.behind old)

end

variable {old : Machine}

@[simp] theorem Value.tag_behind (v : Value) : (v.behind old).tag = v.tag := by
  cases v <;> rfl

theorem ArrayId.behind_injective : Function.Injective (ArrayId.behind old) := by
  rintro ⟨i⟩ ⟨j⟩ heq
  exact congrArg ArrayId.mk (Nat.add_left_cancel (congrArg ArrayId.index heq))

theorem ObjectId.behind_injective : Function.Injective (ObjectId.behind old) := by
  rintro ⟨i⟩ ⟨j⟩ heq
  exact congrArg ObjectId.mk (Nat.add_left_cancel (congrArg ObjectId.index heq))

theorem FunctionId.behind_injective : Function.Injective (FunctionId.behind old) := by
  rintro ⟨i⟩ ⟨j⟩ heq
  exact congrArg FunctionId.mk (Nat.add_left_cancel (congrArg FunctionId.index heq))

/-! ### Tables behind tables -/

section

variable {α : Type} {before table : Array α} {move change change' : α → α}

theorem getElem?_behind (i : Nat) : (before ++ table.map move)[before.size + i]? = table[i]?.map move := by
  rw [Array.getElem?_append_right (Nat.le_add_right _ _), Nat.add_sub_cancel_left, Array.getElem?_map]

theorem push_behind (x : α) : (before ++ table.map move).push (move x) = before ++ (table.push x).map move := by
  rw [Array.map_push, Array.append_push]

theorem modify_behind (hchange : ∀ x, change' (move x) = move (change x)) (i : Nat) :
    (before ++ table.map move).modify (before.size + i) change' = before ++ (table.modify i change).map move := by
  apply Array.ext_getElem?
  intro j
  rw [Array.getElem?_modify]
  rcases Nat.lt_or_ge j before.size with hlt | hge
  · rw [if_neg (by omega), Array.getElem?_append_left hlt, Array.getElem?_append_left hlt]
  · obtain ⟨k, rfl⟩ := Nat.exists_eq_add_of_le hge
    rw [getElem?_behind, getElem?_behind, Array.getElem?_modify]
    by_cases hk : i = k
    · subst hk
      rw [if_pos rfl, if_pos rfl, Option.map_map, Option.map_map]
      exact congrArg (Option.map · _) (funext hchange)
    · rw [if_neg (by omega), if_neg hk]

end

namespace Heap

variable {h : Heap}

@[simp] theorem items_behind (h : Heap) (id : ArrayId) :
    (h.behind old).items (id.behind old) = (h.items id).map (·.behind old) := by
  simp only [items, behind, ArrayId.behind, getElem?_behind]
  cases h.arrays[id.index]? with
  | none => exact Array.map_empty.symm
  | some items => rfl

theorem lacks_behind (h : Heap) (id : ArrayId) (place : Nat) :
    (h.behind old).lacks (id.behind old) place = h.lacks id place := by
  simp only [lacks, behind, ArrayId.behind, getElem?_behind]
  cases h.arrays[id.index]? with
  | none => rfl
  | some items => simp only [Option.map_some, Option.any_some, Array.size_map]

@[simp] theorem object_behind (h : Heap) (id : ObjectId) :
    (h.behind old).object (id.behind old) = (h.object id).behind old := by
  simp only [object, behind, ObjectId.behind, getElem?_behind]
  cases h.objects[id.index]? <;> rfl

@[simp] theorem function_behind (h : Heap) (id : FunctionId) :
    (h.behind old).function (id.behind old) = (h.function id).behind old := by
  simp only [function, behind, FunctionId.behind, getElem?_behind]
  cases h.functions[id.index]? <;> rfl

theorem newArray_behind (h : Heap) (items : Array Value) :
    (h.behind old).newArray (items.map (·.behind old)) =
      ((h.newArray items).1.behind old, (h.newArray items).2.behind old) := by
  have hsize : (h.behind old).arrays.size = old.heap.arrays.size + h.arrays.size := by
    simp only [behind, Array.size_append, Array.size_map]
  simp only [newArray, hsize]
  exact Prod.ext rfl (congrArg (fun arrays => Heap.mk arrays _ _) (push_behind items))

theorem newFunction_behind (h : Heap) (f : Function) :
    (h.behind old).newFunction (f.behind old) =
      ((h.newFunction f).1.behind old, (h.newFunction f).2.behind old) := by
  have hsize : (h.behind old).functions.size = old.heap.functions.size + h.functions.size := by
    simp only [behind, Array.size_append, Array.size_map]
  simp only [newFunction, hsize]
  exact Prod.ext rfl (congrArg (Heap.mk _ _) (push_behind f))

theorem modifyItems_behind (h : Heap) (id : ArrayId) {f f' : Array Value → Array Value}
    (hf : ∀ items : Array Value, f' (items.map (·.behind old)) = (f items).map (·.behind old)) :
    (h.behind old).modifyItems (id.behind old) f' = (h.modifyItems id f).behind old :=
  congrArg (fun arrays => Heap.mk arrays _ _) (modify_behind hf id.index)

end Heap

theorem Bindings.insert_behind (name : String) (v : Value) (bindings : Bindings) :
    Bindings.insert name (v.behind old) (bindings.behind old) = (Bindings.insert name v bindings).behind old := by
  induction bindings with
  | nil => rfl
  | cons binding rest ih =>
      obtain ⟨bound, value⟩ := binding
      unfold Bindings.behind at ih ⊢
      rw [List.map_cons, Bindings.insert, Bindings.insert]
      split
      · rfl
      · rw [ih, List.map_cons]

theorem Bindings.get?_behind (name : String) (bindings : Bindings) :
    (bindings.behind old).get? name = (bindings.get? name).map (·.behind old) := by
  induction bindings with
  | nil => rfl
  | cons binding rest ih =>
      obtain ⟨bound, value⟩ := binding
      unfold Bindings.behind Bindings.get? at ih ⊢
      rw [List.map_cons, List.lookup_cons, List.lookup_cons]
      cases hname : name == bound with
      | true => rfl
      | false => simpa [hname] using ih

theorem Heap.setMember_behind (h : Heap) (id : ObjectId) (name : String) (v : Value) :
    (h.behind old).setMember (id.behind old) name (v.behind old) = (h.setMember id name v).behind old := by
  let bound (v : Value) (o : Object) : Object := { o with members := Bindings.insert name v o.members }
  have hbound (o : Object) : bound (v.behind old) (o.behind old) = (bound v o).behind old :=
    congrArg (Object.mk o.name) (Bindings.insert_behind name v o.members)
  exact congrArg (fun objects => Heap.mk _ objects _) (modify_behind hbound id.index)

/-! ### The text of a value does not show handles -/

theorem enclosed_map {α β : Type} (opening closing : String) {render : β → String} {render' : α → String} {f : α → β}
    {list : List α} (hlist : ∀ x ∈ list, render (f x) = render' x) :
    enclosed opening closing render (list.map f) = enclosed opening closing render' list := by
  cases list with
  | nil => rfl
  | cons x rest =>
      rw [List.forall_mem_cons] at hlist
      have hfold (text : String) : (rest.map f).foldl (fun text y => text ++ ", " ++ render y) text =
          rest.foldl (fun text y => text ++ ", " ++ render' y) text := by
        have hrest := hlist.2
        clear hlist
        induction rest generalizing text with
        | nil => rfl
        | cons y rest ih =>
            rw [List.forall_mem_cons] at hrest
            rw [List.map_cons, List.foldl_cons, List.foldl_cons, hrest.1]
            exact ih _ hrest.2
      rw [List.map_cons, enclosed, enclosed, hlist.1, hfold]

namespace Heap

variable {h : Heap}

/-- The fuel of either side is enough, so it makes no difference that one heap is larger. -/
theorem displayWithin_behind {fuel fuel' : Nat} {path : List ArrayId} (hnodup : path.Nodup)
    (hindex : ∀ a ∈ path, a.index < h.arrays.size) (hfuel : h.arrays.size < fuel + path.length)
    (hfuel' : h.arrays.size < fuel' + path.length) (v : Value) :
    (h.behind old).displayWithin fuel' (path.map (·.behind old)) (v.behind old) = h.displayWithin fuel path v := by
  have hlength := length_le_of_nodup hnodup hindex
  induction fuel generalizing fuel' path v with
  | zero => omega
  | succ fuel ih =>
      obtain ⟨fuel', rfl⟩ : ∃ rest, fuel' = rest + 1 := ⟨fuel' - 1, by omega⟩
      cases v with
      | array id =>
          simp only [Value.behind, displayWithin, List.mem_map_of_injective ArrayId.behind_injective, items_behind,
            Array.toList_map]
          split
          · rfl
          · rename_i hid
            refine enclosed_map "[" "]" fun item hitem => ?_
            -- Only an array of the heap has an item, so the path grows by one of its arrays.
            have hin : id.index < h.arrays.size := by
              obtain ⟨i, hi, -⟩ := List.getElem_of_mem hitem
              exact index_lt_of_lt_size (by simpa using hi)
            have hnodup' : (id :: path).Nodup := List.nodup_cons.2 ⟨hid, hnodup⟩
            have hindex' : ∀ a ∈ id :: path, a.index < h.arrays.size := List.forall_mem_cons.2 ⟨hin, hindex⟩
            refine ih hnodup' hindex' ?_ ?_ item (length_le_of_nodup hnodup' hindex') <;>
              simp only [List.length_cons] <;> omega
      | object id => simp only [Value.behind, displayWithin, object_behind]; rfl
      | function id => simp only [Value.behind, displayWithin, function_behind]; rfl
      | _ => rfl

theorem display_behind (h : Heap) (v : Value) : (h.behind old).display (v.behind old) = h.display v := by
  have hsize : h.arrays.size ≤ (h.behind old).arrays.size := by
    simp only [behind, Array.size_append, Array.size_map]
    omega
  exact displayWithin_behind .nil nofun (by simp) (by simpa using Nat.lt_succ_of_le hsize) v

end Heap

/-! ### Equality of values does not depend on where they are -/

theorem Value.same_behind (x y : Value) : (x.behind old).same (y.behind old) = x.same y := by
  cases x <;> cases y <;> try rfl
  · exact Bool.eq_iff_iff.2 (by simp [Value.behind, Value.same, ObjectId.behind_injective.eq_iff])
  · exact Bool.eq_iff_iff.2 (by simp [Value.behind, Value.same, FunctionId.behind_injective.eq_iff])

namespace Heap

variable {h : Heap}

theorem matches_behind_iff {Related : Value → Value → Prop} {x y : Value} :
    (h.behind old).Matches Related (x.behind old) (y.behind old) ↔
      h.Matches (fun x y => Related (x.behind old) (y.behind old)) x y := by
  rcases arrays_or_not x y with ⟨a, b, rfl, rfl⟩ | hxy
  · constructor
    · intro hmatches
      cases hmatches with
      | plain hagrees => cases hagrees
      | array hsize hitems =>
          refine .array (by simpa using hsize) fun i ha hb => ?_
          simpa using hitems i (by simpa using ha) (by simpa using hb)
    · intro hmatches
      cases hmatches with
      | plain hagrees => cases hagrees
      | array hsize hitems =>
          refine .array (by simpa using hsize) fun i ha hb => ?_
          simpa using hitems i (by simpa using ha) (by simpa using hb)
  · have hplain (h : Heap) {Related : Value → Value → Prop} {x y : Value}
        (hxy : ∀ a b, x = .array a → y = .array b → False) : h.Matches Related x y ↔ x.same y = true := by
      refine ⟨fun hmatches => ?_, fun hsame => .plain ((Value.same_iff_agrees x y).1 hsame)⟩
      cases hmatches with
      | plain hagrees => exact (Value.same_iff_agrees _ _).2 hagrees
      | array => exact (hxy _ _ rfl rfl).elim
    have hbehind : ∀ a b, x.behind old = .array a → y.behind old = .array b → False := by
      intro a b hx hy
      cases x <;> cases hx
      cases y <;> cases hy
      exact hxy _ _ rfl rfl
    rw [hplain (h.behind old) hbehind, hplain h hxy, Value.same_behind]

theorem equal_behind (h : Heap) (x y : Value) : (h.behind old).equal (x.behind old) (y.behind old) = h.equal x y := by
  rw [Bool.eq_iff_iff, equal_iff, equal_iff]
  constructor
  · intro hxy
    exact ⟨fun x y => (h.behind old).Bisimilar (x.behind old) (y.behind old),
      fun x y hxy => matches_behind_iff.1 hxy.matches, hxy⟩
  · intro hxy
    -- The relation has to be one of values behind what is old, and only those are related.
    refine ⟨fun x' y' => ∃ x y, x' = x.behind old ∧ y' = y.behind old ∧ h.Bisimilar x y, ?_, x, y, rfl, rfl, hxy⟩
    rintro _ _ ⟨x, y, rfl, rfl, hxy⟩
    exact matches_behind_iff.2 (hxy.matches.mono fun x y hxy => ⟨x, y, rfl, rfl, hxy⟩)

end Heap

/-! ### Operations on a heap behind another -/

/-- The same result, moved behind what is old. -/
def movedResult (old : Machine) {α β : Type} (move : α → β) :
    EStateM.Result Interrupt Heap α → EStateM.Result Interrupt Heap β
  | .ok a h => .ok (move a) (h.behind old)
  | .error e h => .error e (h.behind old)

/-- The second action does behind what is old what the first one does by itself. -/
def Moved (old : Machine) {α β : Type} (move : α → β) (action : Action Heap α) (action' : Action Heap β) : Prop :=
  ∀ h, action' (h.behind old) = movedResult old move (action h)

namespace Moved

variable {α β α' β' : Type} {move : α → β} {move' : α' → β'}

theorem pure {a : α} {b : β} (hmove : move a = b) : Moved old move (Pure.pure a) (Pure.pure b) := by
  subst hmove
  exact fun _ => rfl

theorem raise {cause cause' : RuntimeCause} (hcause : cause = cause') :
    Moved old move (raise cause) (LineScript.raise cause') := by
  subst hcause
  exact fun _ => rfl

theorem throw (e : Interrupt) : Moved old move (MonadExcept.throw e) (MonadExcept.throw e) :=
  fun _ => rfl

theorem get : Moved old (Heap.behind old) MonadState.get MonadState.get :=
  fun _ => rfl

theorem bind {action : Action Heap α} {action' : Action Heap β} {next : α → Action Heap α'} {next' : β → Action Heap β'}
    (haction : Moved old move action action') (hnext : ∀ a, Moved old move' (next a) (next' (move a))) :
    Moved old move' (action >>= next) (action' >>= next') := by
  intro h
  have hmoved := haction h
  cases hrun : action h with
  | ok a h₁ =>
      rw [hrun] at hmoved
      rw [Action.bind_of_ok hrun, Action.bind_of_ok hmoved]
      exact hnext a h₁
  | error e h₁ =>
      rw [hrun] at hmoved
      rw [Action.bind_of_error hrun, Action.bind_of_error hmoved]
      rfl

theorem orRaise {cause cause' : RuntimeCause} (hcause : cause = cause') {a : Option α} {b : Option β}
    (hmove : b = a.map move) : Moved old move (orRaise cause a) (LineScript.orRaise cause' b) := by
  subst hmove
  cases a with
  | none => exact .raise hcause
  | some a => exact .pure rfl

end Moved

namespace Operation

theorem moved_makeArray {items items' : Array Value} (hitems : items' = items.map (·.behind old)) :
    Moved old (Value.behind old) (makeArray items) (makeArray items') := by
  subst hitems
  intro h
  exact congrArg (fun made => EStateM.Result.ok made.1 made.2) (h.newArray_behind items)

theorem moved_checkLength (length : Nat) : Moved old id (checkLength length) (checkLength length) := by
  unfold checkLength
  split
  · exact .pure rfl
  · exact .raise rfl

theorem moved_checkedLength (length : Option Nat) : Moved old id (checkedLength length) (checkedLength length) :=
  .bind (.orRaise rfl Option.map_id'.symm) fun _ => .bind (moved_checkLength _) fun _ => .pure rfl

/-- A number is nowhere on the heap. -/
theorem moved_decimal (cause : RuntimeCause) (n : Option Decimal) :
    Moved old (Value.behind old) (do return .number (← orRaise cause n)) (do return .number (← orRaise cause n)) :=
  .bind (.orRaise rfl Option.map_id'.symm) fun _ => .pure rfl

theorem moved_negate (x : Value) : Moved old (Value.behind old) (negate x) (negate (x.behind old)) := by
  cases x with
  | number n => exact .pure rfl
  | _ => exact .raise rfl

theorem moved_not (x : Value) : Moved old (Value.behind old) (Operation.not x) (Operation.not (x.behind old)) := by
  cases x with
  | bool b => exact .pure rfl
  | _ => exact .raise rfl

theorem moved_add (x y : Value) : Moved old (Value.behind old) (add x y) (add (x.behind old) (y.behind old)) := by
  have htext : Moved old (Value.behind old)
      (do let h ← get; let text := h.display x ++ h.display y; checkLength text.length; return .string text)
      (do
        let h ← get
        let text := h.display (x.behind old) ++ h.display (y.behind old)
        checkLength text.length
        return .string text) := by
    refine .bind .get fun h => ?_
    rw [Heap.display_behind, Heap.display_behind]
    exact .bind (moved_checkLength _) fun _ => .pure rfl
  cases x with
  | string s => exact htext
  | number a =>
      cases y with
      | string s => exact htext
      | number b => exact moved_decimal _ _
      | _ => exact .raise rfl
  | array a =>
      cases y with
      | string s => exact htext
      | array b =>
          refine .bind .get fun h => ?_
          rw [Heap.items_behind, Heap.items_behind, ← Array.map_append, Array.size_map, Array.size_map]
          exact .bind (moved_checkedLength _) fun _ => moved_makeArray rfl
      | _ => exact .raise rfl
  | _ =>
      cases y with
      | string s => exact htext
      | _ => exact .raise rfl

theorem moved_subtract (x y : Value) :
    Moved old (Value.behind old) (subtract x y) (subtract (x.behind old) (y.behind old)) := by
  cases x with
  | number a =>
      cases y with
      | number b => exact moved_decimal _ _
      | _ => exact .raise rfl
  | _ => exact .raise (by rw [Value.tag_behind, Value.tag_behind])

theorem moved_divide (x y : Value) :
    Moved old (Value.behind old) (divide x y) (divide (x.behind old) (y.behind old)) := by
  cases x with
  | number a =>
      cases y with
      | number b =>
          show Moved old _ (divide (.number a) (.number b)) (divide (.number a) (.number b))
          unfold divide
          dsimp only
          split
          · have hzero : Moved old id (raise .divisionByZero : Action Heap Unit) (raise .divisionByZero) := .raise rfl
            exact .bind hzero fun _ => moved_decimal _ _
          · exact moved_decimal _ _
      | _ => exact .raise rfl
  | _ => exact .raise (by rw [Value.tag_behind, Value.tag_behind])

end Operation

/-! ### Sequences -/

def Sequence.behind (old : Machine) : Sequence → Sequence
  | text s => .text s
  | items xs => .items (xs.map (·.behind old))

namespace Sequence

@[simp] theorem length_behind (s : Sequence) : (s.behind old).length = s.length := by
  cases s with
  | text s => rfl
  | items xs => exact Array.size_map

theorem reversed_behind (s : Sequence) : (s.behind old).reversed = s.reversed.behind old := by
  cases s with
  | text s => rfl
  | items xs => exact congrArg Sequence.items Array.map_reverse.symm

theorem cleared_behind (s : Sequence) : (s.behind old).cleared = s.cleared.behind old := by
  cases s with
  | text s => rfl
  | items xs => exact congrArg Sequence.items Array.map_empty.symm

theorem appendItems_map (f : Value → Value) (xs items : Array Value) (copies : Nat) :
    appendItems (xs.map f) copies (items.map f) = (appendItems xs copies items).map f := by
  induction copies generalizing items with
  | zero => rfl
  | succ copies ih =>
      rw [appendItems, appendItems, ← Array.map_append]
      exact ih _

theorem copied_behind (s : Sequence) (copies tail : Nat) :
    (s.behind old).copied copies tail = (s.copied copies tail).behind old := by
  cases s with
  | text s => rfl
  | items xs =>
      have hcopies := appendItems_map (Value.behind old) xs #[] copies
      rw [Array.map_empty] at hcopies
      simp only [behind, copied, hcopies, Array.take_eq_extract, Array.map_append, Array.map_extract]

end Sequence

theorem Heap.sequence?_behind (h : Heap) (v : Value) :
    (h.behind old).sequence? (v.behind old) = (h.sequence? v).map (Sequence.behind old) := by
  cases v with
  | array id => exact congrArg (fun items => some (Sequence.items items)) (h.items_behind id)
  | _ => rfl

theorem Value.less_behind (x y : Value) : (x.behind old).less (y.behind old) = x.less y := by
  cases x <;> cases y <;> rfl

theorem Value.greater_behind (x y : Value) : (x.behind old).greater (y.behind old) = x.greater y := by
  cases x <;> cases y <;> rfl

namespace Operation

theorem moved_ofSequence (s : Sequence) :
    Moved old (Value.behind old) (ofSequence s) (ofSequence (s.behind old)) := by
  cases s with
  | text s => exact .pure rfl
  | items xs => exact moved_makeArray rfl

theorem moved_number (role : NumberRole) (v : Value) :
    Moved old id (number role v) (number role (v.behind old)) := by
  cases v with
  | number n => exact .pure rfl
  | _ => exact .raise rfl

theorem moved_unfailing {α : Type} (a : Option α) : Moved old id (unfailing a) (unfailing a) := by
  cases a with
  | none => exact .throw _
  | some a => exact .pure rfl

theorem moved_content (v : Value) : Moved old (Sequence.behind old) (content v) (content (v.behind old)) := by
  refine .bind .get fun h => ?_
  rw [Heap.sequence?_behind, Value.tag_behind]
  cases h.sequence? v with
  | none => exact .throw _
  | some s => exact .pure rfl

theorem moved_repeatedUpwards (s : Sequence) (count : Decimal) :
    Moved old (Value.behind old) (repeatedUpwards s count) (repeatedUpwards (s.behind old) count) := by
  have hplaces (length : Nat) : Moved old id (fractionalPlaces length count) (fractionalPlaces length count) :=
    .bind (moved_unfailing _) fun _ => .bind (moved_unfailing _) fun _ => .pure rfl
  unfold repeatedUpwards
  rw [Sequence.length_behind, Sequence.cleared_behind]
  split
  · exact moved_ofSequence _
  · refine .bind (hplaces _) fun tail => .bind (moved_checkedLength _) fun _ => ?_
    rw [Sequence.copied_behind]
    exact moved_ofSequence _

theorem moved_repeated (s : Sequence) (count : Decimal) :
    Moved old (Value.behind old) (repeated s count) (repeated (s.behind old) count) := by
  unfold repeated
  split
  · rw [Sequence.reversed_behind]
    exact moved_repeatedUpwards _ _
  · exact moved_repeatedUpwards _ _

theorem moved_repetition (v count : Value) :
    Moved old (Value.behind old) (repetition v count) (repetition (v.behind old) (count.behind old)) := by
  refine .bind .get fun h => ?_
  rw [Heap.sequence?_behind, Option.isNone_map, Value.tag_behind]
  split
  · exact .raise rfl
  · exact .bind (moved_number _ _) fun count => .bind (moved_content _) fun s => moved_repeated s count

theorem moved_multiply (x y : Value) :
    Moved old (Value.behind old) (multiply x y) (multiply (x.behind old) (y.behind old)) := by
  cases x with
  | number a =>
      cases y with
      | number b => exact moved_decimal _ _
      | _ => exact .raise rfl
  | string s =>
      cases y with
      | number b => exact moved_repetition (.string s) (.number b)
      | _ => exact .raise rfl
  | array id =>
      cases y with
      | number b => exact moved_repetition (.array id) (.number b)
      | _ => exact .raise rfl
  | _ => exact .raise (by rw [Value.tag_behind, Value.tag_behind])

/-! ### Comparisons -/

theorem moved_orEquals {answer answer' : Bool} (hanswer : answer = answer') (x y : Value) :
    Moved old (Value.behind old) (orEquals (.bool answer) x y)
      (orEquals (.bool answer') (x.behind old) (y.behind old)) := by
  subst hanswer
  have hpayload : Moved old id (payload (Value.asBool (.bool answer))) (payload (Value.asBool (.bool answer))) :=
    .pure rfl
  refine .bind hpayload fun answer => .bind .get fun h => ?_
  rw [Heap.equal_behind]
  exact .pure rfl

theorem moved_binary (op : BinaryOp) (x y : Value) :
    Moved old (Value.behind old) (op.operation x y) (op.operation (x.behind old) (y.behind old)) := by
  cases op with
  | add => exact moved_add x y
  | subtract => exact moved_subtract x y
  | multiply => exact moved_multiply x y
  | divide => exact moved_divide x y
  | equals | notEquals =>
      refine .bind .get fun h => ?_
      rw [Heap.equal_behind]
      exact .pure rfl
  | less => exact .pure (congrArg Value.bool (Value.less_behind x y).symm)
  | lessEquals => exact moved_orEquals (Value.less_behind x y).symm x y
  | greater => exact .pure (congrArg Value.bool (Value.greater_behind x y).symm)
  | greaterEquals => exact moved_orEquals (Value.greater_behind x y).symm x y

theorem moved_unary (op : UnaryOp) (x : Value) :
    Moved old (Value.behind old) (op.operation x) (op.operation (x.behind old)) := by
  cases op with
  | not => exact moved_not x
  | negate => exact moved_negate x

/-! ### Ranges -/

theorem steps_behind (step : Decimal) (count : Nat) (current : Decimal) (items : Array Value) :
    steps step count current (items.map (·.behind old)) =
      (steps step count current items).map (·.map (·.behind old)) := by
  induction count generalizing current items with
  | zero => rfl
  | succ count ih =>
      rw [steps, steps]
      cases current.add? step with
      | none => rfl
      | some next =>
          have hnext := ih next (items.push (.number next))
          rw [Array.map_push] at hnext
          exact hnext

theorem moved_stepCount (distance step : Decimal) : Moved old id (stepCount distance step) (stepCount distance step) :=
  .bind (moved_checkedLength _) fun _ => .pure rfl

theorem moved_rangeBy (first last step : Decimal) :
    Moved old (Value.behind old) (rangeBy first last step) (rangeBy first last step) := by
  have hfirst : #[.number first] = (#[.number first] : Array Value).map (·.behind old) := by
    simp only [List.map_toArray, List.map_cons, List.map_nil, Value.behind]
  unfold rangeBy
  split
  · exact moved_makeArray hfirst
  · split
    · exact .raise rfl
    · refine .bind (.orRaise rfl Option.map_id'.symm) fun distance => ?_
      split
      · exact moved_makeArray Array.map_empty.symm
      · refine .bind (moved_stepCount _ _) fun count => .bind (.orRaise rfl ?_) fun _ => moved_makeArray rfl
        rw [← steps_behind, ← hfirst]
        rfl

theorem moved_range (first last : Value) (step : Option Value) :
    Moved old (Value.behind old) (range first last step)
      (range (first.behind old) (last.behind old) (step.map (·.behind old))) := by
  refine .bind (moved_number _ _) fun first => .bind (moved_number _ _) fun last => ?_
  cases step with
  | none => exact moved_rangeBy _ _ _
  | some step => exact .bind (moved_number _ _) fun step => moved_rangeBy _ _ _

/-! ### Items and members -/

theorem moved_arrayAndIndex (v index : Value) :
    Moved old (fun target : ArrayId × Int => (target.1.behind old, target.2)) (arrayAndIndex v index)
      (arrayAndIndex (v.behind old) (index.behind old)) := by
  have htext : Moved old (fun target : ArrayId × Int => (target.1.behind old, target.2))
      (do raise (.indexNotInteger ((← get).display index)))
      (do raise (.indexNotInteger ((← get).display (index.behind old)))) :=
    .bind .get fun h => .raise (by rw [Heap.display_behind])
  cases v with
  | array id =>
      cases index with
      | number n =>
          show Moved old _ (arrayAndIndex (.array id) (.number n)) (arrayAndIndex (.array (id.behind old)) (.number n))
          unfold arrayAndIndex
          dsimp only
          split
          · split
            · exact .pure rfl
            · exact .raise rfl
          · exact htext
      | _ => exact htext
  | _ => exact .raise rfl

theorem moved_readItem (v index : Value) :
    Moved old (Value.behind old) (readItem v index) (readItem (v.behind old) (index.behind old)) := by
  refine .bind (moved_arrayAndIndex v index) fun target => .bind .get fun h => ?_
  dsimp only
  rw [Heap.items_behind]
  split
  · exact .raise rfl
  · exact .orRaise rfl Array.getElem?_map

theorem resized_behind (length : Nat) (items : Array Value) :
    resized length (items.map (·.behind old)) = (resized length items).map (·.behind old) := by
  unfold resized
  rw [Array.size_map]
  split
  · rw [Array.take_eq_extract, Array.take_eq_extract, Array.map_extract]
  · rw [Array.map_append, Array.map_replicate]
    rfl

theorem moved_setLength (id : ArrayId) (length : Int) :
    Moved old (fun _ => ()) (setLength id length) (setLength (id.behind old) length) := by
  unfold setLength
  split
  · exact .raise rfl
  · refine .bind (moved_checkLength _) fun _ h => ?_
    exact congrArg (EStateM.Result.ok ()) (h.modifyItems_behind id (resized_behind _))

theorem moved_putItem (id : ArrayId) (place : Nat) (v : Value) :
    Moved old (fun _ => ()) (putItem id place v) (putItem (id.behind old) place (v.behind old)) := by
  refine .bind .get fun h => ?_
  rw [Heap.lacks_behind]
  split
  · refine .bind .get fun h => ?_
    rw [Heap.items_behind, Array.size_map]
    exact .throw _
  · intro h
    refine congrArg (EStateM.Result.ok ()) (h.modifyItems_behind id fun items => ?_)
    exact Array.map_setIfInBounds.symm

theorem moved_setItem (id : ArrayId) (index : Int) (v : Value) :
    Moved old (fun _ => ()) (setItem id index v) (setItem (id.behind old) index (v.behind old)) := by
  unfold setItem
  split
  · exact .raise rfl
  · refine .bind .get fun h => ?_
    dsimp only
    rw [Heap.items_behind, Array.size_map]
    split
    · exact .bind (moved_setLength _ _) fun _ => moved_putItem _ _ _
    · exact moved_putItem _ _ _

theorem moved_writeItem (x index v : Value) :
    Moved old (fun _ => ()) (writeItem x index v) (writeItem (x.behind old) (index.behind old) (v.behind old)) :=
  .bind (moved_arrayAndIndex x index) fun _ => moved_setItem _ _ _

theorem moved_readMember (v : Value) (name : String) :
    Moved old (Value.behind old) (readMember v name) (readMember (v.behind old) name) := by
  cases v with
  | object id =>
      refine .bind .get fun h => ?_
      dsimp only
      rw [Heap.object_behind]
      exact .orRaise rfl (Bindings.get?_behind name _)
  | _ => exact .raise rfl

theorem moved_writeMember (x : Value) (name : String) (v : Value) :
    Moved old (fun _ => ()) (writeMember x name v) (writeMember (x.behind old) name (v.behind old)) := by
  cases x with
  | object id =>
      intro h
      exact congrArg (EStateM.Result.ok ()) (h.setMember_behind id name v)
  | _ => exact .raise rfl

end Operation

end LineScript
