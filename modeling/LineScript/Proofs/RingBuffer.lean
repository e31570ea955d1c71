import LineScript.RingBuffer
/-!
# A ring buffer holds a list

What a ring buffer holds is a list, oldest item first, and each operation is one on that list. The rest of the
development reaches the slots and the head only through `Holds`.
-/

namespace LineScript.RingBuffer

variable {α : Type} {capacity : Nat} {b : RingBuffer α capacity} {items : List α}

/-- The buffer holds these items, oldest first: they stand in the slots from the head on, around the ring. -/
structure Holds (b : RingBuffer α capacity) (items : List α) : Prop where
  head_lt : b.head < capacity
  size_eq : b.size = items.length
  length_le : items.length ≤ capacity
  slots_slot : ∀ i, i < items.length → b.slots[b.slot i]? = some items[i]?

/-- Around the ring at most once, so the remainder is a single subtraction. -/
theorem slot_of_lt {i : Nat} (hhead : b.head < capacity) (hi : i ≤ capacity) :
    b.slot i = if b.head + i < capacity then b.head + i else b.head + i - capacity := by
  unfold slot
  split
  next hlt => exact Nat.mod_eq_of_lt hlt
  next hge =>
    rw [Nat.mod_eq_sub_mod (Nat.le_of_not_lt hge), Nat.mod_eq_of_lt]
    omega

theorem slot_lt (hhead : b.head < capacity) (i : Nat) : b.slot i < capacity :=
  Nat.mod_lt _ (by omega)

theorem slot_injective {i j : Nat} (hhead : b.head < capacity) (hi : i < capacity) (hj : j < capacity)
    (heq : b.slot i = b.slot j) : i = j := by
  rw [slot_of_lt hhead (Nat.le_of_lt hi), slot_of_lt hhead (Nat.le_of_lt hj)] at heq
  split at heq <;> split at heq <;> omega

theorem slot_zero (hhead : b.head < capacity) : b.slot 0 = b.head :=
  Nat.mod_eq_of_lt hhead

/-- The whole way around the ring leads back to the head. -/
theorem slot_capacity (hhead : b.head < capacity) : b.slot capacity = b.head := by
  rw [slot, Nat.add_mod_right, Nat.mod_eq_of_lt hhead]

/-- From the slot behind the head on, each slot is the next one from the head on. -/
theorem slot_one_add_mod (b : RingBuffer α capacity) (i : Nat) : (b.slot 1 + i) % capacity = b.slot (i + 1) := by
  rw [slot, slot, Nat.mod_add_mod, Nat.add_assoc, Nat.add_comm 1 i]

theorem head_ne_slot (hhead : b.head < capacity) {i : Nat} (hpos : 0 < i) (hi : i < capacity) : b.head ≠ b.slot i := by
  intro heq
  have := slot_injective hhead (by omega) hi ((slot_zero hhead).trans heq)
  omega

theorem Holds.empty (hcapacity : 0 < capacity) : Holds (empty : RingBuffer α capacity) [] where
  head_lt := hcapacity
  size_eq := rfl
  length_le := Nat.zero_le _
  slots_slot := by
    intro i hi
    simp at hi

theorem Holds.get?_eq (h : b.Holds items) (i : Nat) : b.get? i = items[i]? := by
  unfold get?
  split
  next hi => rw [h.slots_slot i (h.size_eq ▸ hi), Option.join_some]
  next hi =>
    rw [h.size_eq] at hi
    exact (List.getElem?_eq_none (Nat.le_of_not_lt hi)).symm

theorem Holds.get_eq_ok (h : b.Holds items) {i : Nat} {item : α} (hitem : items[i]? = some item) :
    b.get i = .ok item := by
  unfold get
  rw [h.get?_eq, hitem]

/-- A buffer with room takes one more item behind the others. -/
theorem Holds.push_of_lt (h : b.Holds items) (hroom : items.length < capacity) (item : α) :
    (b.push item).1 = none ∧ (b.push item).2.Holds (items ++ [item]) := by
  have hfull : b.isFull = false := by
    rw [isFull, h.size_eq]
    exact beq_false_of_ne (Nat.ne_of_lt hroom)
  rw [push, hfull, if_neg Bool.false_ne_true]
  refine ⟨rfl, h.head_lt, by simp [h.size_eq], by simp; omega, ?_⟩
  intro i hi
  change (b.slots.setIfInBounds (b.slot b.size) (some item))[b.slot i]? = _
  rw [h.size_eq]
  rw [List.length_append, List.length_singleton] at hi
  by_cases hlast : i = items.length
  · subst hlast
    rw [Vector.getElem?_setIfInBounds_self_of_lt (slot_lt h.head_lt _), List.getElem?_concat_length]
  · have hne : b.slot items.length ≠ b.slot i := fun heq =>
      hlast (slot_injective h.head_lt hroom (by omega) heq).symm
    rw [Vector.getElem?_setIfInBounds_ne hne, h.slots_slot i (by omega), List.getElem?_append_left (by omega)]

/-- A full buffer gives up its oldest item for a new one. -/
theorem Holds.push_of_full {oldest : α} (h : b.Holds (oldest :: items)) (hfull : items.length + 1 = capacity)
    (item : α) : (b.push item).1 = some oldest ∧ (b.push item).2.Holds (items ++ [item]) := by
  have hlt := h.head_lt
  have hisFull : b.isFull = true := by
    rw [isFull, h.size_eq, List.length_cons, hfull]
    exact beq_self_eq_true capacity
  rw [push, hisFull, if_pos rfl]
  refine ⟨by rw [h.get?_eq]; rfl, slot_lt hlt 1, by simp [h.size_eq], by simp; omega, ?_⟩
  intro i hi
  change (b.slots.setIfInBounds b.head (some item))[(b.slot 1 + i) % capacity]? = _
  rw [List.length_append, List.length_singleton] at hi
  rw [slot_one_add_mod]
  by_cases hlast : i = items.length
  · rw [hlast, hfull, slot_capacity hlt, Vector.getElem?_setIfInBounds_self_of_lt hlt, List.getElem?_concat_length]
  · rw [Vector.getElem?_setIfInBounds_ne (head_ne_slot hlt (Nat.succ_pos i) (by omega)),
      h.slots_slot (i + 1) (by simp; omega), List.getElem?_cons_succ, List.getElem?_append_left (by omega)]

end LineScript.RingBuffer
