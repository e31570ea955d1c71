import LineScript.Proofs.RingBuffer
/-!
# A ring buffer is a bounded queue

Whatever is asked of a buffer, and in whatever order, the answers are those of a list that is added to behind its last
item, taken from at its first, and gives up the first rather than grow beyond the capacity. The slots around the ring
from the head on hold the list, and all others are free.
-/

namespace LineScript.RingBuffer

variable {α : Type} {capacity : Nat} {b : RingBuffer α capacity} {items : List α}

/-! ### Slots -/

/-- Every slot lies at some distance from the head. -/
theorem exists_slot_eq (hhead : b.head < capacity) {j : Nat} (hj : j < capacity) : ∃ i < capacity, b.slot i = j := by
  rcases Nat.lt_or_ge j b.head with hlt | hge
  · refine ⟨j + capacity - b.head, by omega, ?_⟩
    rw [slot_of_lt hhead (by omega), if_neg (by omega)]
    omega
  · refine ⟨j - b.head, by omega, ?_⟩
    rw [slot_of_lt hhead (by omega), if_pos (by omega)]
    omega

/-- The buffer holds these items and no others: the slots behind the newest, around to the head, are free. -/
structure HoldsOnly (b : RingBuffer α capacity) (items : List α) : Prop extends Holds b items where
  slots_free : ∀ i, items.length ≤ i → i < capacity → b.slots[b.slot i]? = some none

theorem HoldsOnly.slots_eq (h : b.HoldsOnly items) {i : Nat} (hi : i < capacity) :
    b.slots[b.slot i]? = some items[i]? := by
  rcases Nat.lt_or_ge i items.length with hlt | hge
  · exact h.slots_slot i hlt
  · rw [h.slots_free i hge hi, List.getElem?_eq_none hge]

/-- The filled slots are those of the items. -/
theorem HoldsOnly.isSome_iff (h : b.HoldsOnly items) {j : Nat} (hj : j < capacity) :
    b.slots[j].isSome = true ↔ ∃ i < b.size, j = b.slot i := by
  obtain ⟨i, hi, rfl⟩ := exists_slot_eq h.head_lt hj
  have hslot : b.slots[b.slot i] = items[i]? := by
    rw [← Option.some_inj, ← Vector.getElem?_eq_getElem, h.slots_eq hi]
  rw [hslot, Option.isSome_iff_ne_none, ne_eq, List.getElem?_eq_none_iff, Nat.not_le, h.size_eq]
  constructor
  · intro hlt
    exact ⟨i, hlt, rfl⟩
  · rintro ⟨k, hk, heq⟩
    rwa [slot_injective h.head_lt hi (Nat.lt_of_lt_of_le hk h.length_le) heq]

theorem HoldsOnly.empty (hcapacity : 0 < capacity) : HoldsOnly (empty : RingBuffer α capacity) [] where
  toHolds := .empty hcapacity
  slots_free i _ hi := by
    show (Vector.replicate capacity none)[(0 + i) % capacity]? = some none
    rw [Vector.getElem?_replicate, if_pos (Nat.mod_lt _ hcapacity)]

/-! ### Pushing and popping -/

theorem HoldsOnly.push_of_lt (h : b.HoldsOnly items) (hroom : items.length < capacity) (item : α) :
    (b.push item).2.HoldsOnly (items ++ [item]) where
  toHolds := (h.toHolds.push_of_lt hroom item).2
  slots_free i hge hi := by
    rw [List.length_append, List.length_singleton] at hge
    have hfull : b.isFull = false := by
      rw [isFull, h.size_eq]
      exact beq_false_of_ne (Nat.ne_of_lt hroom)
    have hne : b.slot items.length ≠ b.slot i := fun heq => by
      have := slot_injective h.head_lt hroom hi heq
      omega
    rw [push, hfull, if_neg Bool.false_ne_true]
    show (b.slots.setIfInBounds (b.slot b.size) (some item))[b.slot i]? = _
    rw [h.size_eq, Vector.getElem?_setIfInBounds_ne hne]
    exact h.slots_free i (by omega) hi

theorem HoldsOnly.push_of_full {oldest : α} (h : b.HoldsOnly (oldest :: items)) (hfull : items.length + 1 = capacity)
    (item : α) : (b.push item).2.HoldsOnly (items ++ [item]) where
  toHolds := (h.toHolds.push_of_full hfull item).2
  slots_free i hge hi := by
    rw [List.length_append, List.length_singleton] at hge
    omega

theorem HoldsOnly.pop_nil (h : b.HoldsOnly []) : b.pop = (none, b) := by
  rw [pop, isEmpty, h.size_eq, List.length_nil, beq_self_eq_true, if_pos rfl]

/-- The oldest item leaves its slot free, and the head moves to the next one. -/
theorem HoldsOnly.pop_cons {oldest : α} (h : b.HoldsOnly (oldest :: items)) :
    (b.pop).1 = some oldest ∧ (b.pop).2.HoldsOnly items := by
  have hlt := h.head_lt
  have hle := h.length_le
  rw [List.length_cons] at hle
  have hfilled : b.isEmpty = false := by
    rw [isEmpty, h.size_eq, List.length_cons]
    exact beq_false_of_ne (Nat.succ_ne_zero _)
  have hslots {i : Nat} (hi : i + 1 < capacity) :
      (b.slots.setIfInBounds b.head none)[(b.slot 1 + i) % capacity]? = some items[i]? := by
    rw [slot_one_add_mod, Vector.getElem?_setIfInBounds_ne (head_ne_slot hlt (Nat.succ_pos i) hi), h.slots_eq hi,
      List.getElem?_cons_succ]
  rw [pop, hfilled, if_neg Bool.false_ne_true]
  refine ⟨by rw [h.get?_eq]; rfl, ⟨slot_lt hlt 1, by simp [h.size_eq], by omega, ?_⟩, ?_⟩
  · intro i hi
    exact hslots (by omega)
  · intro i hge hi
    show (b.slots.setIfInBounds b.head none)[(b.slot 1 + i) % capacity]? = some none
    by_cases hlast : i + 1 = capacity
    · rw [slot_one_add_mod, hlast, slot_capacity hlt, Vector.getElem?_setIfInBounds_self_of_lt hlt]
    · rw [hslots (by omega), List.getElem?_eq_none hge]

/-! ### One command -/

/-- What can be asked of a queue. An item may be asked for that may or may not be there, or by its index, as one that is
taken to be there. -/
inductive Command (α : Type) where
  | push (item : α)
  | pop
  | get (place : Nat)
  | index (place : Nat)
  | head
  | clear

inductive Answer (α : Type) where
  | item (found : Option α)
  | indexed (result : Except Fault α)
  | done

namespace Command

def onBuffer (b : RingBuffer α capacity) : Command α → Answer α × RingBuffer α capacity
  | push item => (.item (b.push item).1, (b.push item).2)
  | pop => (.item b.pop.1, b.pop.2)
  | get place => (.item (b.get? place), b)
  | index place => (.indexed (b.get place), b)
  | head => (.item b.head?, b)
  | clear => (.done, b.clear)

/-- The same on a plain list, oldest item first, that is to have no more items than the capacity. -/
def onList (capacity : Nat) (items : List α) : Command α → Answer α × List α
  | push item =>
      if items.length = capacity then (.item items.head?, items.tail ++ [item]) else (.item none, items ++ [item])
  | pop => (.item items.head?, items.tail)
  | get place => (.item items[place]?, items)
  | index place =>
      match items[place]? with
      | some item => (.indexed (.ok item), items)
      | none => (.indexed (.error (.beyondLookahead place items.length)), items)
  | head => (.item items.head?, items)
  | clear => (.done, [])

end Command

/-- It is a fault to take an item to be there that is not. -/
theorem HoldsOnly.get_eq_error (h : b.HoldsOnly items) {place : Nat} (hnone : items[place]? = none) :
    b.get place = .error (.beyondLookahead place items.length) := by
  unfold get
  rw [h.get?_eq, hnone, h.size_eq]

theorem HoldsOnly.onBuffer_push (h : b.HoldsOnly items) (item : α) :
    ((Command.push item).onBuffer b).1 = ((Command.push item).onList capacity items).1 ∧
      ((Command.push item).onBuffer b).2.HoldsOnly ((Command.push item).onList capacity items).2 := by
  simp only [Command.onBuffer, Command.onList]
  by_cases hfull : items.length = capacity
  · rw [if_pos hfull]
    cases items with
    | nil => exact absurd (Nat.zero_lt_of_lt h.head_lt) (Nat.not_lt.2 (Nat.le_of_eq hfull.symm))
    | cons oldest rest =>
        rw [List.length_cons] at hfull
        rw [(h.toHolds.push_of_full hfull item).1]
        exact ⟨rfl, h.push_of_full hfull item⟩
  · have hroom : items.length < capacity := Nat.lt_of_le_of_ne h.length_le hfull
    rw [if_neg hfull, (h.toHolds.push_of_lt hroom item).1]
    exact ⟨rfl, h.push_of_lt hroom item⟩

/-- A command to a buffer is answered as on the list of its items, and leaves it with what that list becomes. -/
theorem HoldsOnly.onBuffer (h : b.HoldsOnly items) (command : Command α) :
    (command.onBuffer b).1 = (command.onList capacity items).1 ∧
      (command.onBuffer b).2.HoldsOnly (command.onList capacity items).2 := by
  cases command with
  | push item => exact h.onBuffer_push item
  | pop =>
      simp only [Command.onBuffer, Command.onList]
      cases items with
      | nil =>
          rw [h.pop_nil]
          exact ⟨rfl, h⟩
      | cons oldest rest =>
          rw [h.pop_cons.1]
          exact ⟨rfl, h.pop_cons.2⟩
  | get place =>
      simp only [Command.onBuffer, Command.onList]
      rw [h.get?_eq]
      exact ⟨rfl, h⟩
  | index place =>
      simp only [Command.onBuffer, Command.onList]
      cases hitem : items[place]? with
      | none =>
          rw [h.get_eq_error hitem]
          exact ⟨rfl, h⟩
      | some item =>
          rw [h.get_eq_ok hitem]
          exact ⟨rfl, h⟩
  | head =>
      simp only [Command.onBuffer, Command.onList]
      rw [head?, h.get?_eq, List.head?_eq_getElem?]
      exact ⟨rfl, h⟩
  | clear => exact ⟨rfl, .empty (Nat.zero_lt_of_lt h.head_lt)⟩

/-! ### Commands one after the other -/

/-- The answers to commands given in turn, and the queue behind the last of them. -/
def run {σ : Type} (step : σ → Command α → Answer α × σ) (s : σ) : List (Command α) → List (Answer α) × σ
  | [] => ([], s)
  | command :: rest =>
      let (answers, last) := run step (step s command).2 rest
      ((step s command).1 :: answers, last)

theorem HoldsOnly.run_onBuffer (h : b.HoldsOnly items) (commands : List (Command α)) :
    (run Command.onBuffer b commands).1 = (run (Command.onList capacity) items commands).1 ∧
      (run Command.onBuffer b commands).2.HoldsOnly (run (Command.onList capacity) items commands).2 := by
  induction commands generalizing b items with
  | nil => exact ⟨rfl, h⟩
  | cons command rest ih =>
      obtain ⟨hanswer, hnext⟩ := h.onBuffer command
      obtain ⟨hanswers, hlast⟩ := ih hnext
      refine ⟨?_, hlast⟩
      simp only [run]
      rw [hanswer, hanswers]

theorem filterMap_getElem?_range (items : List α) : (List.range items.length).filterMap (items[·]?) = items := by
  induction items with
  | nil => rfl
  | cons first rest ih =>
      rw [List.length_cons, List.range_succ_eq_map, List.filterMap_cons, List.getElem?_cons_zero, List.filterMap_map]
      exact congrArg (first :: ·) ih

theorem HoldsOnly.toList_eq (h : b.HoldsOnly items) : b.toList = items := by
  rw [toList, funext h.get?_eq, h.size_eq, filterMap_getElem?_range]

theorem HoldsOnly.isEmpty_eq (h : b.HoldsOnly items) : b.isEmpty = items.isEmpty := by
  rw [isEmpty, h.size_eq]
  cases items <;> rfl

theorem HoldsOnly.get_eq_error_iff (h : b.HoldsOnly items) (i : Nat) (f : Fault) :
    b.get i = .error f ↔ b.get? i = none ∧ f = .beyondLookahead i b.size := by
  rw [h.get?_eq, h.size_eq]
  cases hitem : items[i]? with
  | none => simp [h.get_eq_error hitem, eq_comm]
  | some item => simp [h.get_eq_ok hitem]

/-- **A ring buffer is a bounded queue.** A new buffer with room for an item answers any commands as an empty list does:
a push puts the item last, and first takes out the oldest, which it returns, if there are as many as there may be; a pop
takes out the oldest; the places behind the oldest are read off the list, and there is nothing at any other; and a place
that is taken to have an item is a fault exactly if there is nothing. Afterwards the buffer reads as the list, is as
long, and is empty or full if the list is. Its head is a slot, it has no more items than slots, and the filled slots are
those from the head on, around the ring, as many as there are items. No sum of a head and a place reaches twice the
capacity. -/
theorem run_is_bounded_queue (hcapacity : 0 < capacity) (commands : List (Command α)) :
    create α capacity = .ok empty ∧ ∃ (answers : List (Answer α)) (b : RingBuffer α capacity) (items : List α),
      run Command.onBuffer empty commands = (answers, b) ∧
        run (Command.onList capacity) [] commands = (answers, items) ∧
        (b.toList = items ∧ b.size = items.length ∧ b.isEmpty = items.isEmpty ∧
          b.isFull = (items.length == capacity)) ∧
        (∀ i, b.get? i = items[i]? ∧ ∀ f, b.get i = .error f ↔ b.get? i = none ∧ f = .beyondLookahead i b.size) ∧
        (b.head < capacity ∧ b.size ≤ capacity ∧ ∀ i ≤ b.size, b.head + i < 2 * capacity) ∧
        (∀ i < b.size, b.slots[(b.head + i) % capacity]? = some items[i]?) ∧
        ∀ j (hj : j < capacity), b.slots[j].isSome = true ↔ ∃ i < b.size, j = (b.head + i) % capacity := by
  obtain ⟨hanswers, h⟩ := (HoldsOnly.empty hcapacity).run_onBuffer commands
  have hsize := h.size_eq
  have hhead := h.head_lt
  have hle := h.length_le
  refine ⟨if_neg (Nat.ne_of_gt hcapacity), _, _, _, rfl, Prod.ext hanswers.symm rfl,
    ⟨h.toList_eq, hsize, h.isEmpty_eq, ?_⟩, ?_, ?_, ?_, ?_⟩
  · rw [isFull, hsize]
  · intro i
    exact ⟨h.get?_eq i, h.get_eq_error_iff i⟩
  · exact ⟨hhead, by omega, fun i hi => by omega⟩
  · intro i hi
    exact h.slots_eq (by omega)
  · intro j hj
    exact h.isSome_iff hj

/-- With room for two, the third item puts out the first, there is nothing to take behind the third, and a pop leaves
the third alone. -/
theorem third_push_puts_out_first :
    ∃ b : RingBuffer Nat 2,
      run Command.onBuffer empty [.push 1, .push 2, .push 3, .get 1, .index 2, .pop] =
        ([.item none, .item none, .item (some 1), .item (some 3), .indexed (.error (.beyondLookahead 2 2)),
          .item (some 2)], b) ∧
        b.size = 1 ∧ b.isFull = false ∧ b.get? 0 = some 3 ∧ b.get? 1 = none := by
  obtain ⟨-, answers, b, items, hrun, hlist, ⟨-, hsize, -, hfull⟩, hget, -⟩ :=
    run_is_bounded_queue (show 0 < 2 by decide) [.push 1, .push 2, .push 3, .get 1, .index 2, .pop]
  obtain ⟨rfl, rfl⟩ := Prod.mk.inj (hlist.symm.trans rfl)
  exact ⟨b, hrun, hsize, hfull, (hget 0).1, (hget 1).1⟩

end LineScript.RingBuffer
