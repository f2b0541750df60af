/-!
# Bounded queues

A first-in first-out queue with room for a fixed number of items. The bound is part of the type, so
whoever holds a queue knows that it is kept.
-/

namespace BatteryCare

/-- A queue of at most `capacity` items, the oldest first. -/
structure Fifo (α : Type) where
  capacity : Nat
  toList : List α
  length_le : toList.length ≤ capacity

namespace Fifo

variable {α : Type}

/-- The queue without items. -/
def empty (capacity : Nat) : Fifo α := ⟨capacity, [], Nat.zero_le capacity⟩

/-- Items waiting. -/
def length (q : Fifo α) : Nat := q.toList.length

/-- Appends an item, unless the queue is full. -/
def push? (q : Fifo α) (a : α) : Option (Fifo α) :=
  if h : q.toList.length < q.capacity then
    some ⟨q.capacity, q.toList ++ [a], by rw [List.length_append]; exact h⟩
  else none

/-- Takes the first `n` items off, or all where there are fewer. -/
def take (q : Fifo α) (n : Nat) : List α × Fifo α :=
  (q.toList.take n,
    ⟨q.capacity, q.toList.drop n, Nat.le_trans (by simp) q.length_le⟩)

/-- Takes the oldest item off. -/
def pop? (q : Fifo α) : Option (α × Fifo α) :=
  match h : q.toList with
  | [] => none
  | a :: rest => some (a, ⟨q.capacity, rest, by have := q.length_le; simp [h] at this; omega⟩)

/-- Takes every item off. -/
def clear (q : Fifo α) : Fifo α := empty q.capacity

/-! ## What the operations do to the items -/

@[simp] theorem toList_empty (capacity : Nat) : (empty capacity : Fifo α).toList = [] := rfl

theorem push?_eq_none_iff {q : Fifo α} {a : α} : q.push? a = none ↔ q.length = q.capacity := by
  have := q.length_le
  unfold push? length
  split <;> simp <;> omega

theorem toList_push? {q r : Fifo α} {a : α} (h : q.push? a = some r) :
    r.toList = q.toList ++ [a] ∧ r.capacity = q.capacity := by
  unfold push? at h
  split at h
  · cases h; exact ⟨rfl, rfl⟩
  · cases h

theorem take_append_toList (q : Fifo α) (n : Nat) :
    (q.take n).1 ++ (q.take n).2.toList = q.toList :=
  List.take_append_drop n q.toList

end Fifo

end BatteryCare
