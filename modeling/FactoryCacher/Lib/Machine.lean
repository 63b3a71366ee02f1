/-
State machines driven by inputs.

A machine is a function `step : σ → ι → Option (σ × List ο)`: from a
state and an input to the next state and what it emits, or `none` where
the program panics. `run` feeds it a list of inputs and collects what
was emitted, in order; a panic ends the run.

# The rule

`run_induction` is the one way runs are reasoned about: a property of
the state, the inputs and everything emitted so far that every step
establishes again, under a condition on the step, holds at the end of
every run whose steps all meet the condition (`StepsMeet`), and such a
run does not panic. The condition may look at the state the step starts
from, so "no such input arrives in such a state" is expressible;
`stepsMeet_of` is the case of a condition on the inputs alone.
`stepsMeet_iff` is for conditions that are exact: where every step emits
something bad just when it fails the condition, so does the run.
`run_simulates` compares two machines step by step.
-/
import Mathlib.Tactic.Common

namespace FactoryCacher

namespace Machine

variable {σ ι ο : Type} (step : σ → ι → Option (σ × List ο))

/-- Feed the inputs one after another. -/
def run : σ → List ι → Option (σ × List ο)
  | s, [] => some (s, [])
  | s, i :: rest =>
      match step s i with
      | none => none
      | some (s, out) =>
          match run s rest with
          | none => none
          | some (s, more) => some (s, out ++ more)

/-- Every step of the run from `s` meets `C`. -/
def StepsMeet (C : σ → ι → Prop) : σ → List ι → Prop
  | _, [] => True
  | s, i :: rest =>
      C s i ∧ ∀ s' out, step s i = some (s', out) → StepsMeet C s' rest

/-- A condition every input meets in every state. -/
theorem stepsMeet_of {C : σ → ι → Prop} {inputs : List ι}
    (h : ∀ i ∈ inputs, ∀ s, C s i) (s : σ) :
    StepsMeet step C s inputs := by
  induction inputs generalizing s with
  | nil => trivial
  | cons i rest ih =>
      refine ⟨h i (List.mem_cons_self ..) s, ?_⟩
      intro s' out _
      apply ih
      intro j hj
      exact h j (List.mem_cons_of_mem i hj)

variable {step}

/-- A step and the run after it. -/
theorem run_cons {s s₁ s' : σ} {i : ι} {rest : List ι} {out more : List ο}
    (hstep : step s i = some (s₁, out))
    (hrest : run step s₁ rest = some (s', more)) :
    run step s (i :: rest) = some (s', out ++ more) := by
  rw [run, hstep]
  dsimp only
  rw [hrest]

/-- A run that did not panic is such a step and such a run. -/
theorem run_cons_eq_some {s s' : σ} {i : ι} {rest : List ι} {all : List ο}
    (hrun : run step s (i :: rest) = some (s', all)) :
    ∃ s₁ out more, step s i = some (s₁, out)
      ∧ run step s₁ rest = some (s', more) ∧ all = out ++ more := by
  rw [run] at hrun
  cases hs : step s i with
  | none =>
      rw [hs] at hrun
      cases hrun
  | some next =>
      obtain ⟨s₁, out⟩ := next
      rw [hs] at hrun
      dsimp only at hrun
      cases hr : run step s₁ rest with
      | none =>
          rw [hr] at hrun
          cases hrun
      | some last =>
          obtain ⟨s₂, more⟩ := last
          rw [hr] at hrun
          cases hrun
          exact ⟨s₁, out, more, rfl, hr, rfl⟩

/-- A run and one step after it. -/
theorem run_snoc {s s' s'' : σ} {inputs : List ι} {i : ι}
    {out more : List ο} (hrun : run step s inputs = some (s', out))
    (hstep : step s' i = some (s'', more)) :
    run step s (inputs ++ [i]) = some (s'', out ++ more) := by
  induction inputs generalizing s out with
  | nil =>
      cases hrun
      have hlast := run_cons hstep (show run step s'' [] = some (s'', [])
        from rfl)
      rwa [List.append_nil] at hlast
  | cons j rest ih =>
      obtain ⟨s₁, out₁, out₂, hj, hrest, rfl⟩ := run_cons_eq_some hrun
      rw [List.cons_append, List.append_assoc]
      exact run_cons hj (ih hrest)

/-- One step more. -/
theorem stepsMeet_cons {C : σ → ι → Prop} {s s' : σ} {i : ι}
    {rest : List ι} {out : List ο} (hstep : step s i = some (s', out))
    (hi : C s i) (hrest : StepsMeet step C s' rest) :
    StepsMeet step C s (i :: rest) := by
  refine ⟨hi, fun s₁ out₁ hs₁ => ?_⟩
  rw [hstep] at hs₁
  cases hs₁
  exact hrest

/-- The invariant rule. `past` is every input before `s`, `emitted`
everything emitted. -/
theorem run_induction (Inv : σ → List ι → List ο → Prop)
    {C : σ → ι → Prop}
    (hstep : ∀ s past emitted i, Inv s past emitted → C s i →
      ∃ s' out, step s i = some (s', out)
        ∧ Inv s' (past ++ [i]) (emitted ++ out))
    {inputs : List ι} {s : σ} (hmeet : StepsMeet step C s inputs)
    (h : Inv s [] []) :
    ∃ s' out, run step s inputs = some (s', out) ∧ Inv s' inputs out := by
  -- the induction is on the inputs still ahead
  suffices hgeneral : ∀ (inputs : List ι) (s : σ) (past : List ι)
      (emitted : List ο), StepsMeet step C s inputs → Inv s past emitted →
      ∃ s' out, run step s inputs = some (s', out)
        ∧ Inv s' (past ++ inputs) (emitted ++ out) from
    hgeneral inputs s [] [] hmeet h
  intro inputs
  induction inputs with
  | nil =>
      intro s past emitted _ h
      exact ⟨s, [], rfl, by rwa [List.append_nil, List.append_nil]⟩
  | cons i rest ih =>
      intro s past emitted hmeet h
      obtain ⟨hi, hrest⟩ := hmeet
      obtain ⟨s₁, out, hs₁, h₁⟩ := hstep s past emitted i h hi
      obtain ⟨s', more, hrun, h'⟩ := ih s₁ _ _ (hrest s₁ out hs₁) h₁
      refine ⟨s', out ++ more, run_cons hs₁ hrun, ?_⟩
      rwa [List.append_assoc, List.append_assoc] at h'

/-- Two machines on the same inputs, whose steps match and emit the
same, run alike. -/
theorem run_simulates {τ : Type} {step' : τ → ι → Option (τ × List ο)}
    (R : σ → τ → Prop) {C : ι → Prop}
    (hstep : ∀ s t i, R s t → C i → ∃ s' t' out,
      step s i = some (s', out) ∧ step' t i = some (t', out) ∧ R s' t')
    {inputs : List ι} (hinputs : ∀ i ∈ inputs, C i) {s : σ} {t : τ}
    (h : R s t) :
    ∃ s' t' out, run step s inputs = some (s', out)
      ∧ run step' t inputs = some (t', out) ∧ R s' t' := by
  induction inputs generalizing s t with
  | nil => exact ⟨s, t, [], rfl, rfl, h⟩
  | cons i rest ih =>
      obtain ⟨hi, hrest⟩ := List.forall_mem_cons.1 hinputs
      obtain ⟨s₁, t₁, out, hs, ht, h₁⟩ := hstep s t i h hi
      obtain ⟨s', t', more, hs', ht', h'⟩ := ih hrest h₁
      exact ⟨s', t', out ++ more, run_cons hs hs', run_cons ht ht', h'⟩

/-- The rule for runs that did not panic. -/
theorem run_history {Inv : σ → List ι → List ο → Prop}
    (hstep : ∀ s past emitted i s' out, Inv s past emitted →
      step s i = some (s', out) → Inv s' (past ++ [i]) (emitted ++ out))
    {inputs : List ι} {s s' : σ} {out : List ο} (h : Inv s [] [])
    (hrun : run step s inputs = some (s', out)) : Inv s' inputs out := by
  suffices hgeneral : ∀ (inputs : List ι) (s s' : σ) (out : List ο)
      (past : List ι) (emitted : List ο), Inv s past emitted →
      run step s inputs = some (s', out) →
      Inv s' (past ++ inputs) (emitted ++ out) from
    hgeneral inputs s s' out [] [] h hrun
  intro inputs
  induction inputs with
  | nil =>
      intro s s' out past emitted h hrun
      cases hrun
      rwa [List.append_nil, List.append_nil]
  | cons i rest ih =>
      intro s s' out past emitted h hrun
      obtain ⟨s₁, out₁, more, hs, hr, rfl⟩ := run_cons_eq_some hrun
      have hrest := ih s₁ s' more _ _
        (hstep s past emitted i s₁ out₁ h hs) hr
      rwa [List.append_assoc, List.append_assoc] at hrest

/-- The rule for their states alone. -/
theorem run_invariant {Inv : σ → Prop}
    (hstep : ∀ s i s' out, Inv s → step s i = some (s', out) → Inv s')
    {inputs : List ι} {s s' : σ} {out : List ο} (h : Inv s)
    (hrun : run step s inputs = some (s', out)) : Inv s' := by
  have hhistory : ∀ (s : σ) (past : List ι) (emitted : List ο) (i : ι)
      (s' : σ) (out : List ο), Inv s → step s i = some (s', out) → Inv s' :=
    fun s _ _ i s' out => hstep s i s' out
  exact run_history hhistory h hrun

/-- An exact condition of every step is an exact condition of the
run. -/
theorem stepsMeet_iff {Inv : σ → Prop} {C : σ → ι → Prop} {Bad : ο → Prop}
    (hstep : ∀ s i, Inv s → ∃ s' out, step s i = some (s', out) ∧ Inv s'
      ∧ (C s i ↔ ∀ o ∈ out, ¬ Bad o))
    {s : σ} (h : Inv s) (inputs : List ι) :
    ∃ s' out, run step s inputs = some (s', out)
      ∧ (StepsMeet step C s inputs ↔ ∀ o ∈ out, ¬ Bad o) := by
  induction inputs generalizing s with
  | nil => exact ⟨s, [], rfl, by simp [StepsMeet]⟩
  | cons i rest ih =>
      obtain ⟨s₁, out, hs₁, h₁, hout⟩ := hstep s i h
      obtain ⟨s', more, hrun, hmore⟩ := ih h₁
      refine ⟨s', out ++ more, run_cons hs₁ hrun, ?_⟩
      have hnext : (∀ s' out, step s i = some (s', out) →
          StepsMeet step C s' rest) ↔ StepsMeet step C s₁ rest := by
        constructor
        · intro hall
          exact hall s₁ out hs₁
        · intro hone s' out' hs'
          rw [hs₁] at hs'
          cases hs'
          exact hone
      rw [StepsMeet, hnext, hout, hmore, ← List.forall_mem_append]

/-- The same for a property of states that is never regained once lost:
it holds at the end just when every step met the condition. -/
theorem stepsMeet_iff_final {Inv Good : σ → Prop} {C : σ → ι → Prop}
    (hstep : ∀ s i s' out, Inv s → step s i = some (s', out) →
      Inv s' ∧ (Good s → (C s i ↔ Good s')) ∧ (¬ Good s → ¬ Good s'))
    {inputs : List ι} {s s' : σ} {out : List ο} (h : Inv s)
    (hgood : Good s) (hrun : run step s inputs = some (s', out)) :
    StepsMeet step C s inputs ↔ Good s' := by
  induction inputs generalizing s out with
  | nil =>
      cases hrun
      exact iff_of_true trivial hgood
  | cons i rest ih =>
      obtain ⟨s₁, out₁, more, hs, hr, -⟩ := run_cons_eq_some hrun
      obtain ⟨h₁, hkeep, -⟩ := hstep s i s₁ out₁ h hs
      by_cases hgood₁ : Good s₁
      · rw [← ih h₁ hgood₁ hr]
        constructor
        · intro hmeet
          exact hmeet.2 s₁ out₁ hs
        · exact stepsMeet_cons hs ((hkeep hgood).2 hgood₁)
      · -- lost in this step, and never regained
        have hbad : ∀ s i s' out, Inv s ∧ ¬ Good s →
            step s i = some (s', out) → Inv s' ∧ ¬ Good s' := by
          intro s i s' out hboth hs
          obtain ⟨h', -, hlost⟩ := hstep s i s' out hboth.1 hs
          exact ⟨h', hlost hboth.2⟩
        have hlost := run_invariant hbad ⟨h₁, hgood₁⟩ hr
        refine iff_of_false ?_ hlost.2
        intro hmeet
        exact hgood₁ ((hkeep hgood).1 hmeet.1)

end Machine

end FactoryCacher
