/-
Polynomial hashes of a sliding window, and the ring buffer that holds
the window.

# The hash

The hash of a sequence of terms, newest first, is the sum of every term
times a power of the multiplier that grows with its age (`polyHash`,
`polyHash_eq_sum`). Over a ring the hash of a window of `w` terms can be
kept up to date: add the new term, multiply, and take away what the
oldest term has become (`polyHash_slide`). Before the window is full
there is no oldest term, and zero stands in for it.

# The window

A ring buffer has a slot that is written next. The slot right before it
holds the newest term, and so on around (`slotAge`). `Latest` says that
the buffer holds the latest terms of a sequence, and a default where the
sequence is too short. The age is an `if` and no remainder, so index
goals are linear.
-/
import Mathlib.Tactic.Ring
import Mathlib.Tactic.Common
import Mathlib.Algebra.BigOperators.Group.List.Basic

namespace FactoryCacher

-- ================================================================= the hash

section Hash

variable {R : Type}

/-- The hash of a sequence of terms, newest first. -/
def polyHash [Semiring R] (m : R) : List R → R
  | [] => 0
  | a :: as => (a + polyHash m as) * m

/-- Older terms behind newer ones. -/
theorem polyHash_append [CommSemiring R] (m : R) (xs ys : List R) :
    polyHash m (xs ++ ys)
      = polyHash m xs + polyHash m ys * m ^ xs.length := by
  induction xs with
  | nil => simp [polyHash]
  | cons a xs ih =>
      simp only [List.cons_append, polyHash, ih, List.length_cons]
      ring

/-- The hash is a sum over the terms and their ages. -/
theorem polyHash_eq_sum [CommSemiring R] (m : R) (xs : List R) (n : Nat) :
    polyHash m xs * m ^ n
      = ((xs.zipIdx n).map fun (a, age) => a * m ^ (age + 1)).sum := by
  induction xs generalizing n with
  | nil => simp [polyHash]
  | cons a xs ih =>
      rw [List.zipIdx_cons, List.map_cons, List.sum_cons, ← ih (n + 1)]
      simp only [polyHash]
      ring

/-- One more term enters a window of `w`: the term that was the oldest
leaves. -/
theorem polyHash_slide [CommRing R] (m a : R) (xs : List R) {w : Nat}
    (hw : 0 < w) :
    polyHash m ((a :: xs).take w)
      = (a + polyHash m (xs.take w)) * m
        - xs.getD (w - 1) 0 * m ^ (w + 1) := by
  obtain ⟨n, rfl⟩ : ∃ n, w = n + 1 := ⟨w - 1, by omega⟩
  rw [List.take_succ_cons, List.take_add_one, polyHash_append]
  simp only [polyHash, Nat.add_sub_cancel, List.getD_eq_getElem?_getD]
  by_cases hn : n < xs.length
  · have hlen : (xs.take n).length = n := by
      rw [List.length_take]
      omega
    simp only [List.getElem?_eq_getElem hn, Option.toList_some,
      Option.getD_some, polyHash, hlen]
    ring
  · simp only [List.getElem?_eq_none (not_lt.1 hn), Option.toList_none,
      Option.getD_none, polyHash]
    ring

end Hash

-- =============================================================== the window

section Window

variable {α : Type} {w : Nat}

/-- How many terms were written after the one in slot `k`, if `pos` is
written next. -/
def slotAge (w pos k : Nat) : Nat :=
  if k < pos then pos - 1 - k else pos + w - 1 - k

/-- The buffer holds the latest terms of `xs`, newest first in `xs`. -/
def Latest (window : Vector α w) (pos : Nat) (xs : List α) (default : α) :
    Prop :=
  ∀ k (hk : k < w), window[k] = xs.getD (slotAge w pos k) default

/-- A buffer nothing was written to. -/
theorem latest_replicate (default : α) :
    Latest (Vector.replicate w default) 0 [] default := by
  intro k hk
  simp

/-- The slot written next holds the oldest term. -/
theorem Latest.oldest {window : Vector α w} {pos : Nat} {xs : List α}
    {default : α} (h : Latest window pos xs default) (hpos : pos < w) :
    window[pos] = xs.getD (w - 1) default := by
  have hage : slotAge w pos pos = w - 1 := by
    unfold slotAge
    rw [if_neg (lt_irrefl pos)]
    omega
  rw [h pos hpos, hage]

/-- The age of a slot after `pos` was written: none for `pos`, one more
for the others. -/
theorem slotAge_next {pos k : Nat} (hpos : pos < w) (hk : k < w) :
    slotAge w ((pos + 1) % w) k
      = if k = pos then 0 else slotAge w pos k + 1 := by
  unfold slotAge
  by_cases hlast : pos + 1 = w
  · rw [hlast, Nat.mod_self]
    split_ifs <;> omega
  · rw [Nat.mod_eq_of_lt (by omega)]
    split_ifs <;> omega

/-- Writing a term and moving on. -/
theorem Latest.push {window : Vector α w} {pos : Nat} {xs : List α}
    {default : α} (h : Latest window pos xs default) (hpos : pos < w)
    (a : α) :
    Latest (window.set pos a) ((pos + 1) % w) (a :: xs) default := by
  intro k hk
  rw [slotAge_next hpos hk]
  by_cases hkp : k = pos
  · subst hkp
    simp
  · rw [if_neg hkp, List.getD_cons_succ, ← h k hk,
      Vector.getElem_set_ne _ _ (Ne.symm hkp)]

end Window

end FactoryCacher
