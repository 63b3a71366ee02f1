/-
Bounded queues between tasks.

A queue has one receiver and any number of senders. A sender that does
not wait (`trySend`) is told whether there was room; the receiver takes
the oldest item, waits for one, or learns that no sender is left and
that nothing is queued. When the receiver goes away what is queued goes
with it, and nothing is accepted any more.

That there are never more items than the capacity is part of the type.
-/
import Mathlib.Tactic.Common
import Mathlib.Data.List.Basic

namespace FactoryCacher

/-- A queue of at most `capacity` items, and which ends are there. -/
structure BoundedQueue (α : Type) (capacity : Nat) where
  items : List α
  /-- the receiver has not been dropped -/
  receiving : Bool
  /-- a sender has not been dropped -/
  sending : Bool
  bounded : items.length ≤ capacity

namespace BoundedQueue

variable {α : Type} {capacity : Nat}

/-- Both ends are there, and nothing is queued. -/
def new : BoundedQueue α capacity where
  items := []
  receiving := true
  sending := true
  bounded := Nat.zero_le _

/-- Whether an item would be accepted. -/
def Accepts (q : BoundedQueue α capacity) : Prop :=
  q.receiving = true ∧ q.items.length < capacity

instance (q : BoundedQueue α capacity) : Decidable q.Accepts :=
  inferInstanceAs (Decidable (_ ∧ _))

/-- `try_send`; an item that is not accepted is dropped. -/
def trySend (q : BoundedQueue α capacity) (item : α) :
    BoundedQueue α capacity :=
  if h : q.Accepts then
    { q with items := q.items ++ [item]
             bounded := by
               rw [List.length_append]
               exact h.2 }
  else q

/-- What a receiver gets. -/
inductive Received (α : Type) (capacity : Nat)
  | item (item : α) (rest : BoundedQueue α capacity)
  /-- no sender is left -/
  | ended
  /-- it goes on waiting -/
  | waits

/-- `recv`. -/
def recv (q : BoundedQueue α capacity) : Received α capacity :=
  match q with
  | ⟨item :: rest, receiving, sending, bounded⟩ =>
      .item item ⟨rest, receiving, sending,
        Nat.le_trans (Nat.le_succ _) bounded⟩
  | ⟨[], _, true, _⟩ => .waits
  | ⟨[], _, false, _⟩ => .ended

/-- The receiver is dropped. -/
def close (q : BoundedQueue α capacity) : BoundedQueue α capacity :=
  { q with items := [], receiving := false, bounded := Nat.zero_le _ }

/-- The last sender is dropped. -/
def dropSender (q : BoundedQueue α capacity) : BoundedQueue α capacity :=
  { q with sending := false }

-- =============================================================== the lemmas

/-- Sending adds the item behind the others, or drops it. -/
theorem items_trySend (q : BoundedQueue α capacity) (item : α) :
    (q.trySend item).items
      = if q.Accepts then q.items ++ [item] else q.items := by
  unfold trySend
  by_cases h : q.Accepts
  · rw [dif_pos h, if_pos h]
  · rw [dif_neg h, if_neg h]

/-- The receiver is not touched by it. -/
@[simp] theorem receiving_trySend (q : BoundedQueue α capacity) (item : α) :
    (q.trySend item).receiving = q.receiving := by
  unfold trySend
  by_cases h : q.Accepts
  · rw [dif_pos h]
  · rw [dif_neg h]

/-- The item that was received was the oldest. -/
theorem items_of_recv {q rest : BoundedQueue α capacity} {item : α}
    (h : q.recv = .item item rest) : q.items = item :: rest.items := by
  obtain ⟨_ | ⟨first, items⟩, receiving, sending, bounded⟩ := q
  · cases sending with
    | true => cases h
    | false => cases h
  · cases h
    rfl

/-- Receiving is not the end of receiving. -/
theorem receiving_of_recv {q rest : BoundedQueue α capacity} {item : α}
    (h : q.recv = .item item rest) : rest.receiving = q.receiving := by
  obtain ⟨_ | ⟨first, items⟩, receiving, sending, bounded⟩ := q
  · cases sending with
    | true => cases h
    | false => cases h
  · cases h
    rfl

/-- The items and the receiver of the other operations. -/
@[simp] theorem items_new :
    (new : BoundedQueue α capacity).items = [] := rfl

/-- What is queued goes with the receiver. -/
@[simp] theorem items_close (q : BoundedQueue α capacity) :
    q.close.items = [] := rfl

@[simp] theorem receiving_close (q : BoundedQueue α capacity) :
    q.close.receiving = false := rfl

/-- A sender that goes leaves what it sent. -/
@[simp] theorem items_dropSender (q : BoundedQueue α capacity) :
    q.dropSender.items = q.items := rfl

@[simp] theorem receiving_dropSender (q : BoundedQueue α capacity) :
    q.dropSender.receiving = q.receiving := rfl

end BoundedQueue

end FactoryCacher
