/-
Lossy paths: what may happen to messages between two ends.

A message that was sent is on its way, waits in a queue at the other
end, or was delivered; it may be lost on the way or dropped from the
queue, and overtaken at any point. `Move` lists what can happen to one
message, `Moves` to any number. Nothing in it makes a message up or
delivers one twice (`conserved_of_moves`): whatever a path does, what is
on it and what was delivered were sent.

Messages are counted in multisets, since no order is kept.
-/
import Mathlib.Algebra.Order.Group.Multiset
import Mathlib.Logic.Relation

namespace FactoryCacher

/-- A path: everything ever sent, and where it is. -/
@[ext] structure Path (α : Type) where
  sent : Multiset α
  inFlight : Multiset α
  queued : Multiset α
  delivered : Multiset α

namespace Path

variable {α : Type}

/-- Nothing was sent. -/
def unused : Path α := ⟨0, 0, 0, 0⟩

/-- What can happen to one message. -/
inductive Move : Path α → Path α → Prop
  | send {sent inFlight queued delivered : Multiset α} (a : α) :
      Move ⟨sent, inFlight, queued, delivered⟩
        ⟨a ::ₘ sent, a ::ₘ inFlight, queued, delivered⟩
  | lose {sent rest queued delivered : Multiset α} (a : α) :
      Move ⟨sent, a ::ₘ rest, queued, delivered⟩
        ⟨sent, rest, queued, delivered⟩
  | arrive {sent rest queued delivered : Multiset α} (a : α) :
      Move ⟨sent, a ::ₘ rest, queued, delivered⟩
        ⟨sent, rest, a ::ₘ queued, delivered⟩
  | drop {sent inFlight rest delivered : Multiset α} (a : α) :
      Move ⟨sent, inFlight, a ::ₘ rest, delivered⟩
        ⟨sent, inFlight, rest, delivered⟩
  | deliver {sent inFlight rest delivered : Multiset α} (a : α) :
      Move ⟨sent, inFlight, a ::ₘ rest, delivered⟩
        ⟨sent, inFlight, rest, a ::ₘ delivered⟩

abbrev Moves : Path α → Path α → Prop := Relation.ReflTransGen Move

theorem Moves.of_eq {p p' : Path α} (h : p = p') : Moves p p' := by
  rw [h]

/-- Several messages are sent. -/
theorem moves_sends (sent inFlight queued delivered : Multiset α)
    (l : List α) :
    Moves ⟨sent, inFlight, queued, delivered⟩
      ⟨sent + l, inFlight + l, queued, delivered⟩ := by
  induction l generalizing sent inFlight with
  | nil => exact .of_eq (by simp)
  | cons a l ih =>
      have hrest := ih (a ::ₘ sent) (a ::ₘ inFlight)
      rw [← Multiset.cons_coe, Multiset.add_cons, Multiset.add_cons,
        ← Multiset.cons_add, ← Multiset.cons_add]
      exact .head (.send a) hrest

/-- Several messages are dropped. -/
theorem moves_drops (sent inFlight rest delivered : Multiset α)
    (l : List α) :
    Moves ⟨sent, inFlight, rest + l, delivered⟩
      ⟨sent, inFlight, rest, delivered⟩ := by
  induction l with
  | nil => exact .of_eq (by simp)
  | cons a l ih =>
      rw [← Multiset.cons_coe, Multiset.add_cons]
      exact .head (.drop a) ih

/-- Several messages are delivered. -/
theorem moves_delivers (sent inFlight rest delivered : Multiset α)
    (l : List α) :
    Moves ⟨sent, inFlight, rest + l, delivered⟩
      ⟨sent, inFlight, rest, delivered + l⟩ := by
  induction l generalizing delivered with
  | nil => exact .of_eq (by simp)
  | cons a l ih =>
      rw [← Multiset.cons_coe, Multiset.add_cons, Multiset.add_cons,
        ← Multiset.cons_add a delivered]
      exact .head (.deliver a) (ih (a ::ₘ delivered))

/-- What is on its way, queued or delivered was sent. -/
def Conserved (p : Path α) : Prop :=
  p.inFlight + p.queued + p.delivered ≤ p.sent

theorem Move.conserved {p p' : Path α} (hmove : Move p p')
    (h : p.Conserved) : p'.Conserved := by
  unfold Conserved at h ⊢
  cases hmove with
  | send a =>
      simp only [Multiset.cons_add]
      exact Multiset.cons_le_cons a h
  | lose a =>
      simp only [Multiset.cons_add] at h
      exact le_trans (Multiset.le_cons_self _ a) h
  | arrive a =>
      simp only [Multiset.cons_add, Multiset.add_cons] at h ⊢
      exact h
  | drop a =>
      simp only [Multiset.cons_add, Multiset.add_cons] at h
      exact le_trans (Multiset.le_cons_self _ a) h
  | deliver a =>
      simp only [Multiset.cons_add, Multiset.add_cons] at h ⊢
      exact h

/-- Whatever happens on a path, what was delivered was sent, and no
oftener. -/
theorem conserved_of_moves {p : Path α} (h : Moves unused p) :
    p.Conserved := by
  induction h with
  | refl => exact le_refl _
  | tail _ hmove ih => exact hmove.conserved ih

theorem delivered_le {p : Path α} (h : Moves unused p) :
    p.delivered ≤ p.sent :=
  le_trans (Multiset.le_add_left _ _) (conserved_of_moves h)

end Path

end FactoryCacher
