import LineScript.Fault
/-!
# Ring buffers

A queue of bounded length in a fixed number of slots. The oldest item stands at `head`, the others follow it
around the ring, and a full buffer gives up its oldest item for a new one. `toList` reads the items, oldest
first.
-/

namespace LineScript

structure RingBuffer (α : Type) (capacity : Nat) where
  slots : Vector (Option α) capacity
  head : Nat
  size : Nat

namespace RingBuffer

variable {α : Type} {capacity : Nat}

def empty : RingBuffer α capacity :=
  ⟨Vector.replicate capacity none, 0, 0⟩

/-- An empty buffer, which needs a slot to be of any use. -/
def create (α : Type) (capacity : Nat) : Except Fault (RingBuffer α capacity) :=
  if capacity = 0 then .error .noSlots else .ok empty

def isEmpty (b : RingBuffer α capacity) : Bool :=
  b.size == 0

def isFull (b : RingBuffer α capacity) : Bool :=
  b.size == capacity

/-- The slot that lies `i` steps from the head. -/
def slot (b : RingBuffer α capacity) (i : Nat) : Nat :=
  (b.head + i) % capacity

/-- The item `i` places behind the oldest; there is none beyond the newest. -/
def get? (b : RingBuffer α capacity) (i : Nat) : Option α :=
  if i < b.size then (b.slots[b.slot i]?).join else none

def head? (b : RingBuffer α capacity) : Option α :=
  b.get? 0

/-- The item `i` places behind the oldest, which the caller knows to be there. -/
def get (b : RingBuffer α capacity) (i : Nat) : Except Fault α :=
  match b.get? i with
  | some item => .ok item
  | none => .error (.beyondLookahead i b.size)

/-- Appends an item. A full buffer first gives up its oldest one, which is returned. -/
def push (b : RingBuffer α capacity) (item : α) : Option α × RingBuffer α capacity :=
  if b.isFull then
    (b.get? 0, ⟨b.slots.setIfInBounds b.head (some item), b.slot 1, b.size⟩)
  else
    (none, ⟨b.slots.setIfInBounds (b.slot b.size) (some item), b.head, b.size + 1⟩)

/-- Removes the oldest item. -/
def pop (b : RingBuffer α capacity) : Option α × RingBuffer α capacity :=
  if b.isEmpty then (none, b)
  else (b.get? 0, ⟨b.slots.setIfInBounds b.head none, b.slot 1, b.size - 1⟩)

def clear (_ : RingBuffer α capacity) : RingBuffer α capacity :=
  empty

def toList (b : RingBuffer α capacity) : List α :=
  (List.range b.size).filterMap b.get?

end RingBuffer

end LineScript
