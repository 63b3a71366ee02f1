/-
Computations with a state and faults.

`ExceptT ε (StateM σ)` is a program that changes a state and may stop
with a fault, keeping the state it had reached. `run_bind` is the one
equation a sequence is reasoned about with; `run_bind_ok` goes through a
sequence whose parts are known, `run_bind_eq_ok` takes one that
succeeded apart.

# A logic

`Logic` is what it takes to reason about programs with faults from
before to after: `Meets pre x ok err` says that from every state in
`pre` the program `x` ends with a value and a state in `ok` or with a
fault in `err`. It has a rule for each way a program is put together.
Programs with a state are a case of it, and so are the programs of any
case with a buffer on top (`StateT ρ`, `Logic.buffered`), so a program
that is generic in its monad is reasoned about once.

`alwaysLogic` carries something along that is true however a program
ends, also where that is a fault.

`beside` runs a program next to a state it does not touch.

`foldlM_history` is the rule for a loop over a list whose body may fail
but, where the invariant holds, does not.
-/
import Mathlib.Tactic.Common

namespace FactoryCacher

namespace Faults

variable {ε σ ρ α β : Type}

/-- The loop rule; `done` is what the loop has gone through. -/
theorem foldlM_history {f : σ → α → Option σ} (Inv : List α → σ → Prop)
    (hstep : ∀ done s a, Inv done s →
      ∃ s', f s a = some s' ∧ Inv (done ++ [a]) s')
    (todo : List α) :
    ∀ {done : List α} {s : σ}, Inv done s →
      ∃ s', todo.foldlM f s = some s' ∧ Inv (done ++ todo) s' := by
  induction todo with
  | nil =>
      intro done s h
      refine ⟨s, rfl, ?_⟩
      rwa [List.append_nil]
  | cons a todo ih =>
      intro done s h
      obtain ⟨mid, hmid, hinv⟩ := hstep done s a h
      obtain ⟨s', hrest, hfinal⟩ := ih hinv
      refine ⟨s', ?_, ?_⟩
      · rw [List.foldlM_cons, hmid]
        exact hrest
      · rwa [List.append_assoc] at hfinal

/-- A sequence runs its first part and goes on where that succeeds. -/
theorem run_bind (x : ExceptT ε (StateM σ) α)
    (f : α → ExceptT ε (StateM σ) β) (s : σ) :
    (x >>= f).run s
      = match x.run s with
        | (.ok a, s') => (f a).run s'
        | (.error e, s') => (.error e, s') := by
  show (ExceptT.bindCont f (x.run s).1 : StateM σ (Except ε β)) (x.run s).2
    = _
  rcases x.run s with ⟨e | a, s'⟩ <;> rfl

theorem run_bind_ok {x : ExceptT ε (StateM σ) α}
    {f : α → ExceptT ε (StateM σ) β} {s s' : σ} {a : α}
    (h : x.run s = (.ok a, s')) : (x >>= f).run s = (f a).run s' := by
  rw [run_bind, h]

/-- A sequence that succeeds did so in both parts. -/
theorem run_bind_eq_ok {x : ExceptT ε (StateM σ) α}
    {f : α → ExceptT ε (StateM σ) β} {s s'' : σ} {b : β}
    (h : (x >>= f).run s = (.ok b, s'')) :
    ∃ a s', x.run s = (.ok a, s') ∧ (f a).run s' = (.ok b, s'') := by
  rw [run_bind] at h
  rcases hx : x.run s with ⟨e | a, s'⟩
  · rw [hx] at h
    cases h
  · rw [hx] at h
    exact ⟨a, s', rfl, h⟩

end Faults

-- ================================================================== a logic

/-- A logic of programs in `m`, over states `τ`. -/
structure Logic (ε τ : Type) (m : Type → Type) [Monad m]
    [MonadExceptOf ε m] where
  Meets : {α : Type} → (τ → Prop) → m α → (α → τ → Prop) → (ε → Prop) → Prop
  pure : ∀ {α : Type} {pre : τ → Prop} {a : α} {ok : α → τ → Prop}
    {err : ε → Prop}, (∀ t, pre t → ok a t) → Meets pre (pure a) ok err
  throw : ∀ {α : Type} {pre : τ → Prop} {e : ε} {ok : α → τ → Prop}
    {err : ε → Prop}, err e → Meets pre (throw e) ok err
  bind : ∀ {α β : Type} {pre : τ → Prop} {x : m α} {mid : α → τ → Prop}
    {f : α → m β} {ok : β → τ → Prop} {err : ε → Prop},
    Meets pre x mid err → (∀ a, Meets (mid a) (f a) ok err) →
    Meets pre (x >>= f) ok err
  mono : ∀ {α : Type} {pre pre' : τ → Prop} {x : m α}
    {ok ok' : α → τ → Prop} {err : ε → Prop},
    (∀ t, pre' t → pre t) → (∀ a t, ok a t → ok' a t) →
    Meets pre x ok err → Meets pre' x ok' err
  /-- a choice among the states is made before the program -/
  cases : ∀ {α ι : Type} {pre : ι → τ → Prop} {x : m α}
    {ok : α → τ → Prop} {err : ε → Prop},
    (∀ i, Meets (pre i) x ok err) → Meets (fun t => ∃ i, pre i t) x ok err

/-- What does not depend on the state is a hypothesis. -/
theorem Logic.assume {ε τ α : Type} {m : Type → Type} [Monad m]
    [MonadExceptOf ε m] (L : Logic ε τ m) {P : Prop} {pre : τ → Prop}
    {x : m α} {ok : α → τ → Prop} {err : ε → Prop}
    (h : P → L.Meets pre x ok err) :
    L.Meets (fun t => P ∧ pre t) x ok err := by
  by_cases hP : P
  · exact L.mono (fun _ ht => ht.2) (fun _ _ ht => ht) (h hP)
  · have hnever : L.Meets (fun t => ∃ i : Empty, (fun _ _ => True) i t) x
        ok err := L.cases nofun
    exact L.mono (fun _ ht => (hP ht.1).elim) (fun _ _ ht => ht) hnever

/-- It stays what it was. -/
theorem Logic.frame {ε τ α : Type} {m : Type → Type} [Monad m]
    [MonadExceptOf ε m] (L : Logic ε τ m) {P : Prop} {pre : τ → Prop}
    {x : m α} {ok : α → τ → Prop} {err : ε → Prop}
    (h : L.Meets pre x ok err) :
    L.Meets (fun t => P ∧ pre t) x (fun a t => P ∧ ok a t) err :=
  L.assume fun hP => L.mono (fun _ ht => ht) (fun _ _ ht => ⟨hP, ht⟩) h

/-- A logic of programs is one of programs with a buffer on top. -/
def Logic.buffered {ε τ : Type} {m : Type → Type} [Monad m]
    [MonadExceptOf ε m] (L : Logic ε τ m) (ρ : Type) :
    Logic ε (ρ × τ) (StateT ρ m) where
  Meets pre x ok err := ∀ buf, L.Meets (fun t => pre (buf, t)) (x buf)
    (fun r t => ok r.1 (r.2, t)) err
  pure h buf := L.pure fun t ht => h (buf, t) ht
  throw h _ := L.bind (L.throw h) fun _ => L.pure fun _ => False.elim
  bind hx hf buf := L.bind (hx buf) fun r => hf r.1 r.2
  mono hpre hok h buf := L.mono (fun t ht => hpre (buf, t) ht)
    (fun r t hr => hok r.1 (r.2, t) hr) (h buf)
  cases h buf := L.cases fun i => h i buf

/-- A call from under the buffer. -/
theorem Logic.buffered_lift {ε τ ρ α : Type} {m : Type → Type} [Monad m]
    [MonadExceptOf ε m] (L : Logic ε τ m) {pre : ρ × τ → Prop} {x : m α}
    {ok : α → ρ × τ → Prop} {err : ε → Prop}
    (h : ∀ buf, L.Meets (fun t => pre (buf, t)) x
      (fun a t => ok a (buf, t)) err) :
    (L.buffered ρ).Meets pre (StateT.lift x) ok err := by
  show ∀ buf, L.Meets _ _ _ _
  intro buf
  exact L.bind (h buf) fun a => L.pure fun t ht => ht

namespace Faults

variable {ε σ ρ ω α β : Type}

/-- How a program may end. -/
def Ends (ok : α → σ → Prop) (err : ε → Prop) : Except ε α × σ → Prop
  | (.ok a, s) => ok a s
  | (.error e, _) => err e

theorem Ends.mono {ok ok' : α → σ → Prop} {err : ε → Prop}
    (h : ∀ a s, ok a s → ok' a s) :
    ∀ {r : Except ε α × σ}, Ends ok err r → Ends ok' err r
  | (.ok a, s), hr => h a s hr
  | (.error _, _), hr => hr

/-- Programs with a state. -/
def logic (ε σ : Type) : Logic ε σ (ExceptT ε (StateM σ)) where
  Meets pre x ok err := ∀ s, pre s → Ends ok err (x.run s)
  pure h s hs := h s hs
  throw h _ _ := h
  bind {_ _ _ x _ f _ _} hx hf s hs := by
    have hends := hx s hs
    rw [run_bind]
    rcases hr : x.run s with ⟨e | a, s'⟩
    · rw [hr] at hends
      exact hends
    · rw [hr] at hends
      exact hf a s' hends
  mono hpre hok h s hs := (h s (hpre s hs)).mono hok
  cases h s hs := by
    obtain ⟨i, hi⟩ := hs
    exact h i s hi

/-- Programs with a state that keep `Q` however they end. -/
def alwaysLogic (ε : Type) {σ : Type} (Q : σ → Prop) :
    Logic ε σ (ExceptT ε (StateM σ)) where
  Meets pre x ok err := ∀ s, Q s → pre s →
    Q (x.run s).2 ∧ Ends ok err (x.run s)
  pure h s hQ hs := ⟨hQ, h s hs⟩
  throw h _ hQ _ := ⟨hQ, h⟩
  bind {_ _ _ x _ f _ _} hx hf s hQ hs := by
    obtain ⟨hQ', hends⟩ := hx s hQ hs
    rw [run_bind]
    rcases hr : x.run s with ⟨e | a, s'⟩
    · rw [hr] at hQ' hends
      exact ⟨hQ', hends⟩
    · rw [hr] at hQ' hends
      exact hf a s' hQ' hends
  mono hpre hok h s hQ hs :=
    ⟨(h s hQ (hpre s hs)).1, (h s hQ (hpre s hs)).2.mono hok⟩
  cases h s hQ hs := by
    obtain ⟨i, hi⟩ := hs
    exact h i s hQ hi

/-- A program next to a state it does not touch. -/
def beside (ω : Type) (x : ExceptT ε (StateM σ) α) :
    ExceptT ε (StateM (σ × ω)) α :=
  ExceptT.mk fun s => ((x.run s.1).1, ((x.run s.1).2, s.2))

theorem meets_beside {pre : σ × ω → Prop} {x : ExceptT ε (StateM σ) α}
    {ok : α → σ × ω → Prop} {err : ε → Prop}
    (h : ∀ o, (logic ε σ).Meets (fun s => pre (s, o)) x
      (fun a s => ok a (s, o)) err) :
    (logic ε (σ × ω)).Meets pre (beside ω x) ok err := by
  show ∀ s, _ → Ends _ _ _
  rintro ⟨s, o⟩ hs
  have hends := h o s hs
  show Ends _ _ ((x.run s).1, ((x.run s).2, o))
  rcases hr : x.run s with ⟨e | a, s'⟩
  · rw [hr] at hends
    exact hends
  · rw [hr] at hends
    exact hends

/-- What a run that succeeded has met. -/
theorem ok_of_meets {pre : σ → Prop} {x : ExceptT ε (StateM σ) α}
    {ok : α → σ → Prop} {err : ε → Prop}
    (h : (logic ε σ).Meets pre x ok err) {s s' : σ} {a : α} (hs : pre s)
    (hrun : x.run s = (.ok a, s')) : ok a s' := by
  have hends := h s hs
  rwa [hrun] at hends

/-- A program is known by its runs that succeed, where nothing is asked
of the others. -/
theorem meets_of_ok {pre : σ → Prop} {x : ExceptT ε (StateM σ) α}
    {ok : α → σ → Prop} {err : ε → Prop} (herr : ∀ e, err e)
    (h : ∀ s a s', pre s → x.run s = (.ok a, s') → ok a s') :
    (logic ε σ).Meets pre x ok err := by
  show ∀ s, _ → Ends _ _ _
  intro s hs
  rcases hr : x.run s with ⟨e | a, s'⟩
  · exact herr e
  · exact h s a s' hs hr

end Faults

end FactoryCacher
