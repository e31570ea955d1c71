import LineScript.Evaluation
import LineScript.Proofs.Operation.Indexing
/-!
# Operators work on copies

Arrays are shared by their handles, and a write through one handle is seen through all. No operator makes such a write.
Some find their result, as the item of an array. All others build it, and if it is an array then it is a new one, even
where it has the very items of an operand. So whatever is written to it afterwards is not seen in the operands, and what
is written to them is not seen in it.
-/

namespace LineScript

/-! ### Actions that only look, and actions that build -/

/-- An action that leaves the heap as it finds it, whether it has a result or not. -/
def Observing {α : Type} (action : Action Heap α) : Prop :=
  ∀ h, (action h).state = h

namespace Observing

variable {α β : Type}

theorem pure (a : α) : Observing (pure a) := fun _ =>
  rfl

theorem get : Observing get := fun _ =>
  rfl

theorem throw (e : Interrupt) : Observing (throw e : Action Heap α) := fun _ =>
  rfl

theorem raise (cause : RuntimeCause) : Observing (raise cause : Action Heap α) :=
  throw _

theorem orRaise (cause : RuntimeCause) (a : Option α) : Observing (orRaise cause a) := by
  cases a with
  | none => exact raise cause
  | some a => exact pure a

/-- What follows a look at the heap finds the heap as it was, if it comes to that. -/
theorem bind_cases {action : Action Heap α} (haction : Observing action) (next : α → Action Heap β) (h : Heap) :
    (∃ a, (action >>= next) h = next a h) ∨ ∃ e, (action >>= next) h = .error e h := by
  have hstate := haction h
  cases hrun : action h with
  | ok a h₁ =>
      rw [hrun] at hstate
      obtain rfl : h₁ = h := hstate
      exact .inl ⟨a, Action.bind_of_ok hrun⟩
  | error e h₁ =>
      rw [hrun] at hstate
      obtain rfl : h₁ = h := hstate
      exact .inr ⟨e, Action.bind_of_error hrun⟩

theorem bind {action : Action Heap α} {next : α → Action Heap β} (haction : Observing action)
    (hnext : ∀ a, Observing (next a)) : Observing (action >>= next) := by
  intro h
  obtain ⟨a, hrun⟩ | ⟨e, hrun⟩ := haction.bind_cases next h
  · rw [hrun]
    exact hnext a h
  · rw [hrun]
    rfl

end Observing

/-- What comes of building a value: the heap is as it was, and the value no array if there is one, or the value is an
array that has been added to the heap. -/
inductive NewOrPlain (h : Heap) : EStateM.Result Interrupt Heap Value → Prop
  | error (e : Interrupt) : NewOrPlain h (.error e h)
  | plain {v : Value} (hv : ∀ id, v ≠ .array id) : NewOrPlain h (.ok v h)
  | array (items : Array Value) : NewOrPlain h (.ok (h.newArray items).1 (h.newArray items).2)

theorem NewOrPlain.keeps {h : Heap} {result : EStateM.Result Interrupt Heap Value} (hresult : NewOrPlain h result) :
    h.Extends result.state ∧ result.state.objects = h.objects ∧ result.state.functions = h.functions := by
  cases hresult with
  | error | plain => exact ⟨.refl h, rfl, rfl⟩
  | array items => exact ⟨h.extends_newArray items, rfl, rfl⟩

theorem NewOrPlain.exists_items {h h' : Heap} {id : ArrayId} (hresult : NewOrPlain h (.ok (.array id) h')) :
    ∃ items, id = ⟨h.arrays.size⟩ ∧ h' = (h.newArray items).2 := by
  cases hresult with
  | plain hv => exact (hv id rfl).elim
  | array items => exact ⟨items, rfl, rfl⟩

/-- An action that builds its result, and does nothing else to the heap. -/
def Building (action : Action Heap Value) : Prop :=
  ∀ h, NewOrPlain h (action h)

namespace Building

variable {α : Type}

theorem plain {v : Value} (hv : ∀ id, v ≠ .array id) : Building (pure v) := fun _ =>
  .plain hv

theorem throw (e : Interrupt) : Building (throw e) := fun _ =>
  .error e

theorem raise (cause : RuntimeCause) : Building (raise cause) :=
  throw _

theorem bind {action : Action Heap α} {next : α → Action Heap Value} (haction : Observing action)
    (hnext : ∀ a, Building (next a)) : Building (action >>= next) := by
  intro h
  obtain ⟨a, hrun⟩ | ⟨e, hrun⟩ := haction.bind_cases next h
  · rw [hrun]
    exact hnext a h
  · rw [hrun]
    exact .error e

end Building

namespace Operation

theorem observing_checkLength (length : Nat) : Observing (checkLength length) := by
  unfold checkLength
  split
  · exact .pure _
  · exact .raise _

theorem observing_checkedLength (length : Option Nat) : Observing (checkedLength length) :=
  .bind (.orRaise _ _) fun _ => .bind (observing_checkLength _) fun _ => .pure _

theorem observing_sequence (v : Value) : Observing (sequence v) :=
  .bind .get fun _ => .orRaise _ _

theorem observing_number (role : NumberRole) (v : Value) : Observing (number role v) := by
  unfold number
  split
  · exact .pure _
  · exact .raise _

theorem observing_content (v : Value) : Observing (content v) := by
  refine .bind .get fun h => ?_
  split
  · exact .pure _
  · exact .throw _

theorem observing_unfailing {α : Type} (a : Option α) : Observing (unfailing a) := by
  cases a with
  | none => exact .throw _
  | some a => exact .pure a

theorem observing_fractionalPlaces (length : Nat) (count : Decimal) : Observing (fractionalPlaces length count) :=
  .bind (observing_unfailing _) fun _ => .bind (observing_unfailing _) fun _ => .pure _

theorem observing_stepCount (distance step : Decimal) : Observing (stepCount distance step) :=
  .bind (observing_checkedLength _) fun _ => .pure _

theorem observing_payload {α : Type} (result : Except Fault α) : Observing (payload result) := by
  cases result with
  | error f => exact .throw _
  | ok a => exact .pure a

theorem building_makeArray (items : Array Value) : Building (makeArray items) := fun _ =>
  .array items

theorem building_ofSequence (s : Sequence) : Building (ofSequence s) := by
  cases s with
  | text s => exact .plain nofun
  | items xs => exact building_makeArray xs

/-! ### Operators that build their result -/

theorem building_not (v : Value) : Building (Operation.not v) := by
  unfold Operation.not
  split
  · exact .plain nofun
  · exact .raise _

theorem building_negate (v : Value) : Building (negate v) := by
  unfold negate
  split
  · exact .plain nofun
  · exact .raise _

theorem building_add (x y : Value) : Building (add x y) := by
  unfold add
  split
  · exact .bind .get fun _ => .bind (observing_checkLength _) fun _ => .plain nofun
  · exact .bind .get fun _ => .bind (observing_checkLength _) fun _ => .plain nofun
  · exact .bind (.orRaise _ _) fun _ => .plain nofun
  · exact .bind .get fun _ => .bind (observing_checkedLength _) fun _ => building_makeArray _
  · exact .raise _

theorem building_subtract (x y : Value) : Building (subtract x y) := by
  unfold subtract
  split
  · exact .bind (.orRaise _ _) fun _ => .plain nofun
  · exact .raise _

theorem building_repeatedUpwards (s : Sequence) (count : Decimal) : Building (repeatedUpwards s count) := by
  unfold repeatedUpwards
  split
  · exact building_ofSequence _
  · exact .bind (observing_fractionalPlaces _ _) fun _ => .bind (observing_checkedLength _) fun _ =>
      building_ofSequence _

theorem building_repeated (s : Sequence) (count : Decimal) : Building (repeated s count) := by
  unfold repeated
  split
  · exact building_repeatedUpwards _ _
  · exact building_repeatedUpwards _ _

theorem building_repetition (v count : Value) : Building (repetition v count) := by
  refine .bind .get fun h => ?_
  split
  · exact .raise _
  · exact .bind (observing_number _ _) fun _ => .bind (observing_content _) fun _ => building_repeated _ _

theorem building_multiply (x y : Value) : Building (multiply x y) := by
  unfold multiply
  split
  · exact .bind (.orRaise _ _) fun _ => .plain nofun
  · exact building_repetition _ _
  · exact building_repetition _ _
  · exact .raise _

theorem building_divide (x y : Value) : Building (divide x y) := by
  unfold divide
  split
  · split
    · exact .bind (.raise _) fun _ => .bind (.orRaise _ _) fun _ => .plain nofun
    · exact .bind (.orRaise _ _) fun _ => .plain nofun
  · exact .raise _

theorem building_orEquals (answer x y : Value) : Building (orEquals answer x y) :=
  .bind (observing_payload _) fun _ => .bind .get fun _ => .plain nofun

theorem building_unary (op : UnaryOp) (x : Value) : Building (op.operation x) := by
  cases op with
  | not => exact building_not x
  | negate => exact building_negate x

theorem building_binary (op : BinaryOp) (x y : Value) : Building (op.operation x y) := by
  cases op with
  | add => exact building_add x y
  | subtract => exact building_subtract x y
  | multiply => exact building_multiply x y
  | divide => exact building_divide x y
  | equals | notEquals => exact .bind .get fun _ => .plain nofun
  | less | greater => exact .plain nofun
  | lessEquals | greaterEquals => exact .bind (.pure _) fun answer => building_orEquals answer x y

theorem building_length (v : Value) : Building (length v) :=
  .bind (observing_sequence v) fun _ => .plain nofun

theorem building_reverse (v : Value) : Building (reverse v) := by
  refine .bind .get fun h => ?_
  split
  · exact building_ofSequence _
  · exact .raise _

theorem building_slice (v start stop : Value) : Building (slice v start stop) :=
  .bind (observing_sequence v) fun _ => .bind (observing_number _ _) fun _ => .bind (observing_number _ _) fun _ =>
    .bind (observing_content v) fun _ => building_ofSequence _

theorem building_rangeBy (first last step : Decimal) : Building (rangeBy first last step) := by
  unfold rangeBy
  split
  · exact building_makeArray _
  · split
    · exact .raise _
    · refine .bind (.orRaise _ _) fun distance => ?_
      split
      · exact building_makeArray _
      · exact .bind (observing_stepCount _ _) fun _ => .bind (.orRaise _ _) fun _ => building_makeArray _

theorem building_range (first last : Value) (step : Option Value) : Building (range first last step) := by
  refine .bind (observing_number _ _) fun first => .bind (observing_number _ _) fun last => ?_
  cases step with
  | none => exact building_rangeBy _ _ _
  | some step => exact .bind (observing_number _ _) fun _ => building_rangeBy _ _ _

/-! ### Operators that find their result -/

theorem observing_readMember (v : Value) (name : String) : Observing (readMember v name) := by
  unfold readMember
  split
  · exact .bind .get fun _ => .orRaise _ _
  · exact .raise _

theorem observing_arrayAndIndex (v index : Value) : Observing (arrayAndIndex v index) := by
  intro h
  obtain ⟨id, place, hindex⟩ | ⟨cause, hindex⟩ := arrayAndIndex_cases v index h
  · rw [hindex]
    rfl
  · rw [hindex]
    rfl

theorem observing_readItem (v index : Value) : Observing (readItem v index) := by
  refine .bind (observing_arrayAndIndex v index) fun place => .bind .get fun h => ?_
  split
  · exact .raise _
  · exact .orRaise _ _

theorem observing_convert (v : Value) (target : Tag) : Observing (convert v target) := by
  unfold convert
  split
  · exact .pure _
  · exact .bind .get fun _ => .orRaise _ _

/-! ### Writes after an operator -/

variable {h h₁ h₂ : Heap} {id : ArrayId}

/-- Which place of an array an index means has nothing to do with what the heap holds. -/
theorem arrayAndIndex_array (id : ArrayId) (index : Value) :
    (∃ place, ∀ h, arrayAndIndex (.array id) index h = .ok (id, place) h) ∨
      ∀ h, ∃ cause, arrayAndIndex (.array id) index h = raise cause h := by
  cases index with
  | number n =>
      by_cases hn : ∃ i : ℤ, n.value = i
      · obtain ⟨i, hn⟩ := hn
        by_cases hword : saturated i = i
        · exact .inl ⟨i, fun h => (arrayAndIndex_of_value id hn h).trans (if_pos hword)⟩
        · exact .inr fun h => ⟨_, (arrayAndIndex_of_value id hn h).trans (if_neg hword)⟩
      · exact .inr fun h => ⟨_, arrayAndIndex_of_fraction id (not_exists.1 hn) h⟩
  | _ => exact .inr fun h => ⟨_, rfl⟩

/-- What a write to an array makes of its items depends on these items alone. -/
theorem items_setItem_congr (hid₁ : id.index < h₁.arrays.size) (hid₂ : id.index < h₂.arrays.size)
    (hitems : h₁.items id = h₂.items id) (place : ℤ) (v : Value) :
    (setItem id place v h₁).state.items id = (setItem id place v h₂).state.items id := by
  by_cases hneg : place < 0
  · rw [setItem_of_neg id hneg]
    exact hitems
  obtain ⟨place, rfl⟩ := Int.eq_ofNat_of_zero_le (Int.not_lt.1 hneg)
  rcases Nat.lt_or_ge place (h₁.items id).size with hsize | hsize
  · rw [setItem_of_lt hsize, setItem_of_lt (hitems ▸ hsize)]
    show (h₁.modifyItems id _).items id = (h₂.modifyItems id _).items id
    rw [Heap.items_modifyItems_self hid₁, Heap.items_modifyItems_self hid₂, hitems]
  rcases Nat.lt_or_ge place maxLength with hplace | hplace
  · have hgrown {h : Heap} (hid : id.index < h.arrays.size) :
        id.index < (h.modifyItems id (resized (place + 1))).arrays.size :=
      lt_of_lt_of_eq hid Array.size_modify.symm
    rw [setItem_of_le hsize hplace, setItem_of_le (hitems ▸ hsize) hplace]
    show ((h₁.modifyItems id _).modifyItems id _).items id = ((h₂.modifyItems id _).modifyItems id _).items id
    rw [Heap.items_modifyItems_self (hgrown hid₁), Heap.items_modifyItems_self (hgrown hid₂),
      Heap.items_modifyItems_self hid₁, Heap.items_modifyItems_self hid₂, hitems]
  · rw [setItem_of_maxLength_le hsize hplace, setItem_of_maxLength_le (hitems ▸ hsize) hplace]
    exact hitems

theorem items_after_of_ne {w : Write} (hw : w.target ≠ .array id) : (w.after h).items id = h.items id := by
  obtain ⟨target, index, item⟩ := w
  cases target with
  | array other => exact items_writeItem_of_ne h (fun heq => hw (congrArg Value.array heq.symm)) index item
  | _ => rfl

theorem items_after_congr (hid₁ : id.index < h₁.arrays.size) (hid₂ : id.index < h₂.arrays.size)
    (hitems : h₁.items id = h₂.items id) (w : Write) : (w.after h₁).items id = (w.after h₂).items id := by
  by_cases hw : w.target = .array id
  · obtain ⟨target, index, item⟩ := w
    obtain rfl : target = .array id := hw
    unfold Write.after
    obtain ⟨place, hindex⟩ | hindex := arrayAndIndex_array id index
    · rw [writeItem_of_ok (hindex h₁), writeItem_of_ok (hindex h₂)]
      exact items_setItem_congr hid₁ hid₂ hitems place item
    · obtain ⟨cause₁, hindex₁⟩ := hindex h₁
      obtain ⟨cause₂, hindex₂⟩ := hindex h₂
      rw [writeItem, Action.bind_of_error hindex₁, Action.bind_of_error hindex₂]
      exact hitems
  · rw [items_after_of_ne hw, items_after_of_ne hw]
    exact hitems

theorem lt_size_after (hid : id.index < h.arrays.size) (w : Write) : id.index < (w.after h).arrays.size := by
  have hregular : Regular False (Heap.Evolves fun _ => False) (writeItem w.target w.index w.item) :=
    regular_writeItem w.target w.index w.item
  exact Nat.lt_of_lt_of_le hid (hregular h).1.arrays_size_le

/-- What an array holds after any writes is decided by those that are to it. -/
theorem items_foldl_after (hid₁ : id.index < h₁.arrays.size) (hid₂ : id.index < h₂.arrays.size)
    (hitems : h₁.items id = h₂.items id) {kept : Write → Bool} (hkept : ∀ w, w.target = .array id → kept w = true)
    (writes : List Write) :
    (writes.foldl Write.after h₁).items id = ((writes.filter kept).foldl Write.after h₂).items id := by
  induction writes generalizing h₁ h₂ with
  | nil => exact hitems
  | cons w rest ih =>
      rw [List.foldl_cons, List.filter_cons]
      by_cases hw : kept w = true
      · rw [if_pos hw, List.foldl_cons]
        exact ih (lt_size_after hid₁ w) (lt_size_after hid₂ w) (items_after_congr hid₁ hid₂ hitems w)
      · rw [if_neg hw]
        refine ih (lt_size_after hid₁ w) hid₂ ?_
        rw [items_after_of_ne fun htarget => hw (hkept w htarget)]
        exact hitems

/-! ### All operators -/

end Operation

/-- An operator with operands that have been evaluated. -/
inductive Operator where
  | unary (op : UnaryOp) (x : Value)
  | binary (op : BinaryOp) (x y : Value)
  | length (v : Value)
  | reverse (v : Value)
  | slice (v start stop : Value)
  | repetition (v count : Value)
  | makeArray (items : Array Value)
  | range (first last : Value) (step : Option Value)
  | readMember (v : Value) (name : String)
  | readItem (v index : Value)
  | convert (v : Value) (target : Tag)

namespace Operator

def action : Operator → Action Heap Value
  | unary op x => op.operation x
  | binary op x y => op.operation x y
  | length v => Operation.length v
  | reverse v => Operation.reverse v
  | slice v start stop => Operation.slice v start stop
  | repetition v count => Operation.repetition v count
  | makeArray items => Operation.makeArray items
  | range first last step => Operation.range first last step
  | readMember v name => Operation.readMember v name
  | readItem v index => Operation.readItem v index
  | convert v target => Operation.convert v target

/-- The operator builds its result, and does not look for it in an object or an array or pass its operand on. -/
def builds : Operator → Bool
  | readMember .. | readItem .. | convert .. => false
  | _ => true

theorem building {op : Operator} (hop : op.builds = true) : Building op.action := by
  cases op with
  | unary op x => exact Operation.building_unary op x
  | binary op x y => exact Operation.building_binary op x y
  | length v => exact Operation.building_length v
  | reverse v => exact Operation.building_reverse v
  | slice v start stop => exact Operation.building_slice v start stop
  | repetition v count => exact Operation.building_repetition v count
  | makeArray items => exact Operation.building_makeArray items
  | range first last step => exact Operation.building_range first last step
  | readMember | readItem | convert => cases hop

theorem observing {op : Operator} (hop : op.builds = false) : Observing op.action := by
  cases op with
  | readMember v name => exact Operation.observing_readMember v name
  | readItem v index => exact Operation.observing_readItem v index
  | convert v target => exact Operation.observing_convert v target
  | _ => cases hop

end Operator

theorem Operator.keeps (op : Operator) (h : Heap) :
    h.Extends (op.action h).state ∧ (op.action h).state.objects = h.objects ∧
      (op.action h).state.functions = h.functions := by
  cases hop : op.builds with
  | true => exact (op.building hop h).keeps
  | false =>
      rw [op.observing hop h]
      exact ⟨.refl h, rfl, rfl⟩

/-- **Operators work on copies.** Whether it has a result or fails, an operator leaves all arrays, objects and functions
of the heap as they are. If it builds its result and that is an array, then it is an array of the heap reached and none
of those that were there. Whatever is written to arrays afterwards, in whatever order, every old array then holds what
it would without the operator and without the writes to the result, and the result what it would without all writes but
those to it. -/
theorem operators_work_on_copies (h : Heap) (op : Operator) :
    (h.Extends (op.action h).state ∧ (op.action h).state.objects = h.objects ∧
      (op.action h).state.functions = h.functions) ∧
      (op.builds = true → ∀ id h', op.action h = .ok (.array id) h' →
        id.index < h'.arrays.size ∧ (∀ old : ArrayId, old.index < h.arrays.size → old ≠ id) ∧
          ∀ writes : List Operation.Write,
            (∀ old : ArrayId, old.index < h.arrays.size →
              (writes.foldl Operation.Write.after h').items old =
                ((writes.filter (·.target ≠ .array id)).foldl Operation.Write.after h).items old) ∧
            (writes.foldl Operation.Write.after h').items id =
              ((writes.filter (·.target = .array id)).foldl Operation.Write.after h').items id) := by
  refine ⟨op.keeps h, fun hop id h' hrun => ?_⟩
  have hbuilt := op.building hop h
  rw [hrun] at hbuilt
  obtain ⟨items, rfl, rfl⟩ := hbuilt.exists_items
  have hnew : h.arrays.size < (h.newArray items).2.arrays.size := by
    show h.arrays.size < (h.arrays.push items).size
    rw [Array.size_push]
    exact Nat.lt_succ_self _
  have hne (old : ArrayId) (hold : old.index < h.arrays.size) : old ≠ ⟨h.arrays.size⟩ := by
    rintro rfl
    exact Nat.lt_irrefl _ hold
  refine ⟨hnew, hne, fun writes => ⟨fun old hold => ?_, ?_⟩⟩
  · obtain ⟨hold', hitems⟩ := h.extends_newArray items old hold
    refine Operation.items_foldl_after hold' hold hitems (fun w hw => ?_) writes
    rw [hw]
    simpa using hne old hold
  · exact Operation.items_foldl_after hnew hnew rfl (fun w hw => decide_eq_true hw) writes

/-- An array joined to itself gives a second array: writing to either leaves the other alone. -/
theorem joined_to_itself_is_new :
    ∃ h' after, (Operator.binary .add (.array ⟨0⟩) (.array ⟨0⟩)).action ⟨#[#[.bool true]], #[], #[]⟩ =
        .ok (.array ⟨1⟩) h' ∧
      [⟨.array ⟨1⟩, .number (.ofNat 0), .none⟩, ⟨.array ⟨0⟩, .number (.ofNat 0), .bool false⟩].foldl
        Operation.Write.after h' = after ∧
      after.items ⟨0⟩ = #[.bool false] ∧ after.items ⟨1⟩ = #[.none, .bool true] := by
  refine ⟨_, _, rfl, rfl, ?_⟩
  obtain ⟨-, hnew⟩ := operators_work_on_copies ⟨#[#[.bool true]], #[], #[]⟩ (.binary .add (.array ⟨0⟩) (.array ⟨0⟩))
  obtain ⟨-, -, hwrites⟩ := hnew rfl ⟨1⟩ _ rfl
  obtain ⟨hold, hresult⟩ := hwrites
    [⟨.array ⟨1⟩, .number (.ofNat 0), .none⟩, ⟨.array ⟨0⟩, .number (.ofNat 0), .bool false⟩]
  exact ⟨(hold ⟨0⟩ (by decide)).trans rfl, hresult.trans rfl⟩

end LineScript
