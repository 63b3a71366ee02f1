/-
Endless runs and what they lead to.

# Runs

A run is a start, a total step and a schedule: an input for every number.
`LeadsTo P Q` says that every state of the run with `P` is followed, at
once or later, by one with `Q`.

# Rules

A property that a step keeps or exchanges for another is walked along the
run (`walk`). With a schedule in which certain inputs come again and
again, a property that holds until such an input comes leads to what
that input brings (`leadsTo_of_fair`). Where more than one of them is
needed, `leadsTo_of_work` counts them: what is left to do lies in a part
of the state (`view`); a step that leaves that part alone is not the one
waited for, and any other leaves less to do. Finitely many things that
stay once they are there are there together at some time
(`leadsTo_forall`).
-/
import Mathlib.Order.WellFounded
import Mathlib.Order.Lattice

namespace FactoryCacher

/-- The states of an endless run. -/
def statesFrom {σ ι : Type} (next : σ → ι → σ) (start : σ)
    (schedule : Nat → ι) : Nat → σ
  | 0 => start
  | n + 1 => next (statesFrom next start schedule n) (schedule n)

/-- Inputs with `A` come again and again. -/
def Recurs {ι : Type} (schedule : Nat → ι) (A : ι → Prop) : Prop :=
  ∀ n, ∃ m, n ≤ m ∧ A (schedule m)

/-- Also later on. -/
theorem Recurs.later {ι : Type} {schedule : Nat → ι} {A : ι → Prop}
    (h : Recurs schedule A) (n : Nat) :
    Recurs (fun j => schedule (n + j)) A := by
  intro j
  obtain ⟨m, hm, hA⟩ := h (n + j)
  refine ⟨m - n, by omega, ?_⟩
  show A (schedule (n + (m - n)))
  rwa [Nat.add_sub_cancel' (by omega)]

/-- After `P` there is `Q`, at once or later. -/
def LeadsTo {σ : Type} (states : Nat → σ) (P Q : σ → Prop) : Prop :=
  ∀ n, P (states n) → ∃ m, n ≤ m ∧ Q (states m)

section Rules

variable {σ ι : Type} {states : Nat → σ} {P Q R : σ → Prop}

theorem LeadsTo.trans (hpq : LeadsTo states P Q) (hqr : LeadsTo states Q R) :
    LeadsTo states P R := by
  intro n hp
  obtain ⟨m, hm, hq⟩ := hpq n hp
  obtain ⟨k, hk, hr⟩ := hqr m hq
  exact ⟨k, le_trans hm hk, hr⟩

theorem LeadsTo.mono {Q' : σ → Prop} (h : LeadsTo states P Q)
    (hq : ∀ n, Q (states n) → Q' (states n)) : LeadsTo states P Q' := by
  intro n hp
  obtain ⟨m, hm, hm'⟩ := h n hp
  exact ⟨m, hm, hq m hm'⟩

/-- From one of two. -/
theorem LeadsTo.or {P' : σ → Prop} (h : LeadsTo states P Q)
    (h' : LeadsTo states P' Q) :
    LeadsTo states (fun s => P s ∨ P' s) Q := by
  intro n hp
  rcases hp with hp | hp
  · exact h n hp
  · exact h' n hp

/-- What is there already. -/
theorem leadsTo_of_imp (h : ∀ n, P (states n) → Q (states n)) :
    LeadsTo states P Q :=
  fun n hp => ⟨n, le_refl n, h n hp⟩

/-- What a step keeps, or exchanges for `Q`, is still there or was
exchanged. -/
theorem walk (hstep : ∀ n, P (states n) →
      P (states (n + 1)) ∨ Q (states (n + 1)))
    {n m : Nat} (hle : n ≤ m) (hp : P (states n)) :
    P (states m) ∨ ∃ k, n ≤ k ∧ k ≤ m ∧ Q (states k) := by
  induction m, hle using Nat.le_induction with
  | base => exact Or.inl hp
  | succ m hle ih =>
      rcases ih with hp | ⟨k, hnk, hkm, hq⟩
      · rcases hstep m hp with hp | hq
        · exact Or.inl hp
        · exact Or.inr ⟨m + 1, by omega, le_refl _, hq⟩
      · exact Or.inr ⟨k, hnk, by omega, hq⟩

/-- What every step keeps stays. -/
theorem stays (hstep : ∀ n, P (states n) → P (states (n + 1)))
    {n m : Nat} (hle : n ≤ m) (hp : P (states n)) : P (states m) := by
  induction m, hle using Nat.le_induction with
  | base => exact hp
  | succ m hle ih => exact hstep m ih

section Fair

variable {schedule : Nat → ι}

/-- `P` stays until an input with `A` comes, which brings `Q`. -/
theorem leadsTo_of_fair {A : ι → Prop} (hfair : Recurs schedule A)
    (hstep : ∀ n, P (states n) →
      Q (states (n + 1)) ∨ P (states (n + 1)) ∧ ¬ A (schedule n)) :
    LeadsTo states P Q := by
  intro n hp
  obtain ⟨m, hm, ha⟩ := hfair n
  have hkeep : ∀ n, P (states n) →
      P (states (n + 1)) ∨ Q (states (n + 1)) := by
    intro k hk
    rcases hstep k hk with hq | ⟨hp, -⟩
    · exact Or.inr hq
    · exact Or.inl hp
  rcases walk hkeep hm hp with hp | ⟨k, hk, -, hq⟩
  · rcases hstep m hp with hq | ⟨-, hna⟩
    · exact ⟨m + 1, by omega, hq⟩
    · exact absurd ha hna
  · exact ⟨k, hk, hq⟩

/-- Nothing is left to do at some time. `helper` says which inputs the
part of the state in `view` waits for. -/
theorem leadsTo_of_work {κ ν ω : Type} [LT ω] [WellFoundedLT ω]
    {A : κ → ι → Prop} (hfair : ∀ k, Recurs schedule (A k))
    (view : σ → ν) (work : ν → ω) (helper : ν → κ)
    (hstep : ∀ n, P (states n) → Q (states (n + 1))
      ∨ P (states (n + 1))
        ∧ (work (view (states (n + 1))) < work (view (states n))
          ∨ view (states (n + 1)) = view (states n)
            ∧ ¬ A (helper (view (states n))) (schedule n))) :
    LeadsTo states P Q := by
  -- by what is left to do
  suffices hall : ∀ w : ω, ∀ n, work (view (states n)) = w → P (states n) →
      ∃ m, n ≤ m ∧ Q (states m) from fun n => hall _ n rfl
  intro w
  induction w using WellFoundedLT.induction with
  | ind w ih =>
      intro n hw hp
      -- until the part of the state changes, the same inputs are needed
      have hround : LeadsTo states
          (fun s => P s ∧ view s = view (states n))
          (fun s => Q s ∨ P s ∧ work (view s) < w) := by
        apply leadsTo_of_fair (hfair (helper (view (states n))))
        intro k hk
        obtain ⟨hpk, hview⟩ := hk
        rcases hstep k hpk with hq | ⟨hp', hless | ⟨hsame, hnot⟩⟩
        · exact Or.inl (Or.inl hq)
        · rw [hview, hw] at hless
          exact Or.inl (Or.inr ⟨hp', hless⟩)
        · rw [hview] at hnot
          exact Or.inr ⟨⟨hp', hsame.trans hview⟩, hnot⟩
      obtain ⟨m, hm, hq | ⟨hpm, hless⟩⟩ := hround n ⟨hp, rfl⟩
      · exact ⟨m, hm, hq⟩
      · obtain ⟨k, hk, hq⟩ := ih _ hless m rfl hpm
        exact ⟨k, le_trans hm hk, hq⟩

end Fair

/-- Finitely many things that stay, each of which comes unless `R`, are
there together unless `R`. -/
theorem leadsTo_forall {α : Type} (xs : List α) {T : α → σ → Prop}
    (hkeep : ∀ n, P (states n) → P (states (n + 1)) ∨ R (states (n + 1)))
    (hstay : ∀ x n, T x (states n) → T x (states (n + 1)))
    (hcomes : ∀ x ∈ xs, LeadsTo states P (fun s => T x s ∨ R s)) :
    LeadsTo states P (fun s => (P s ∧ ∀ x ∈ xs, T x s) ∨ R s) := by
  induction xs with
  | nil => exact leadsTo_of_imp fun n hp => Or.inl ⟨hp, nofun⟩
  | cons x xs ih =>
      obtain ⟨hx, hxs⟩ := List.forall_mem_cons.1 hcomes
      intro n hp
      obtain ⟨m, hm, ht | hr⟩ := hx n hp
      · rcases walk hkeep hm hp with hpm | ⟨k, hk, -, hr⟩
        · obtain ⟨l, hl, ⟨hpl, hall⟩ | hr⟩ := ih hxs m hpm
          · have htl := stays (hstay x) hl ht
            exact ⟨l, le_trans hm hl,
              Or.inl ⟨hpl, List.forall_mem_cons.2 ⟨htl, hall⟩⟩⟩
          · exact ⟨l, le_trans hm hl, Or.inr hr⟩
        · exact ⟨k, hk, Or.inr hr⟩
      · exact ⟨m, hm, Or.inr hr⟩

end Rules

end FactoryCacher
