/-
Programs that wait for others, and that they end.

# Waiting

A program waits by looking at a state again and again while others act
on it. The actions that will happen are part of what it runs on
(`Scheduled`): `waitFor` looks, takes the next action, and looks again.
It leaves the actions it did not wait for to whoever comes after it.

# A logic

How long a program waits is not known beforehand, so it is run on an
endless schedule, of which it takes a finite part. `Settles` says that
from a state at some time there is such a part, and that with it the
program ends as it should whatever comes after: the rest of the schedule
is universally quantified, which is what makes one program's part and the
next one's part of the schedule fit together (`upcoming_add`).

It is a logic of Lib/Faults.lean with nothing left open: a program meets
its specification only if it returns. The one way out is a state that
the others can bring about and in which nobody can be expected to go on
(`Bad`): a program that is still at it there, or failed there, is
excused.

The schedule may sit anywhere in what a program runs on; `embed` says
where.
-/
import Mathlib.Data.Nat.Find
import FactoryCacher.Lib.Faults
import FactoryCacher.Lib.LeadsTo

namespace FactoryCacher

/-- A state and the actions still to come. -/
structure Scheduled (σ ι : Type) where
  state : σ
  schedule : List ι

/-- Look at the state, and as long as there is no result take the next
action. `starved` is the fault of a schedule that ends first. -/
def waitFor {ε σ ι α : Type} (starved : ε)
    (poll : σ → Option (Except ε α)) (next : σ → ι → σ) :
    List ι → σ → Except ε α × Scheduled σ ι
  | [], s =>
      match poll s with
      | some result => (result, ⟨s, []⟩)
      | none => (.error starved, ⟨s, []⟩)
  | action :: schedule, s =>
      match poll s with
      | some result => (result, ⟨s, action :: schedule⟩)
      | none => waitFor starved poll next schedule (next s action)

-- =============================================================== schedules

section Schedules

variable {σ ι : Type} (schedule : Nat → ι)

/-- The next `k` actions from time `n` on. -/
def upcoming (n k : Nat) : List ι :=
  (List.range' n k).map schedule

theorem upcoming_add (n j k : Nat) :
    upcoming schedule n (j + k)
      = upcoming schedule n j ++ upcoming schedule (n + j) k := by
  unfold upcoming
  rw [← List.map_append, ← List.range'_append_1]

/-- The states of a run that starts at time `n`. -/
def statesAfter (next : σ → ι → σ) (s : σ) (n : Nat) : Nat → σ :=
  statesFrom next s fun j => schedule (n + j)

end Schedules

namespace Settling

open Faults

variable {ε σ ι ρ ω α : Type}

/-- From `s` at time `n` the program takes some actions of the schedule
and ends in `ok` or `err`; or after some of them the state is bad, and it
has not returned. -/
def Settles (embed : σ → List ι → ρ) (schedule : Nat → ι)
    (Bad : σ → Prop) (x : ExceptT ε (StateM ρ) α)
    (ok : α → σ × Nat → Prop) (err : ε → Prop) (s : σ) (n : Nat) : Prop :=
  (∃ k result s', (∀ rest, x.run (embed s (upcoming schedule n k ++ rest))
      = (result, embed s' rest))
    ∧ Ends ok err (result, (s', n + k)))
  ∨ ∃ k e s', x.run (embed s (upcoming schedule n k))
      = (.error e, embed s' []) ∧ Bad s'

/-- A program that takes no action. -/
theorem settles_at_once {embed : σ → List ι → ρ} {schedule : Nat → ι}
    {Bad : σ → Prop} {x : ExceptT ε (StateM ρ) α}
    {ok : α → σ × Nat → Prop} {err : ε → Prop} {s s' : σ} {n : Nat}
    {result : Except ε α}
    (hrun : ∀ rest, x.run (embed s rest) = (result, embed s' rest))
    (hends : Ends ok err (result, (s', n))) :
    Settles embed schedule Bad x ok err s n :=
  Or.inl ⟨0, result, s', hrun, hends⟩

/-- Programs that end. -/
def logic (ε : Type) (embed : σ → List ι → ρ) (schedule : Nat → ι)
    (Bad : σ → Prop) : Logic ε (σ × Nat) (ExceptT ε (StateM ρ)) where
  Meets pre x ok err := ∀ s n, pre (s, n) →
    Settles embed schedule Bad x ok err s n
  pure h s n hs := settles_at_once (fun _ => rfl) (h (s, n) hs)
  throw {_ _ e _ _} h s n _ :=
    Or.inl ⟨0, .error e, s, fun _ => rfl, h⟩
  bind {_ _ _ x _ f _ _} hx hf s n hs := by
    rcases hx s n hs with ⟨k, result, s', hrun, hends⟩ | ⟨k, e, s', hrun, hbad⟩
    · cases result with
      | error e =>
          refine Or.inl ⟨k, .error e, s', fun rest => ?_, hends⟩
          rw [run_bind, hrun]
      | ok a =>
          rcases hf a s' (n + k) hends with
            ⟨j, result', s'', hrun', hends'⟩ | ⟨j, e, s'', hrun', hbad⟩
          · refine Or.inl ⟨k + j, result', s'', fun rest => ?_, ?_⟩
            · rw [upcoming_add, List.append_assoc, run_bind_ok (hrun _),
                hrun']
            · rwa [← Nat.add_assoc]
          · refine Or.inr ⟨k + j, e, s'', ?_, hbad⟩
            rw [upcoming_add, run_bind_ok (hrun _), hrun']
    · refine Or.inr ⟨k, e, s', ?_, hbad⟩
      rw [run_bind, hrun]
  mono hpre hok h s n hs := by
    rcases h s n (hpre _ hs) with ⟨k, result, s', hrun, hends⟩ | hbad
    · exact Or.inl ⟨k, result, s', hrun, hends.mono hok⟩
    · exact Or.inr hbad
  cases h s n hs := by
    obtain ⟨i, hi⟩ := hs
    exact h i s n hi

end Settling

end FactoryCacher
