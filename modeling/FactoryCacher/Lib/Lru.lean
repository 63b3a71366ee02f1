/-
Least-recently-used stores with a limit on the total size.

This is what such a store is for, without how it is done: a list of
entries, least recently used first. Whatever is used goes to the back,
and after an insertion the longest suffix that fits is what is left
(`longestFitting`). A value that is too large for the limit is not left
either, and nothing else is then: only the empty suffix fits.

`longestFitting` looks through the suffixes from the longest on, so it
mentions no counter and no eviction one by one. `LongestSuffix` says what
it finds, and `LongestSuffix.longestFitting_eq` is how a store is
compared with it. A suffix that fits behind one more entry was one that
fit before, so a store that evicts early loses nothing
(`LongestSuffix.snoc`).
-/
import Mathlib.Data.List.Infix
import Mathlib.Algebra.Order.Ring.Nat
import Mathlib.Tactic.Common

namespace FactoryCacher

namespace Lru

variable {κ ν : Type} (size : ν → Nat) (limit : Nat)

/-- The total size of some entries. -/
def weight (entries : List (κ × ν)) : Nat :=
  (entries.map fun e => size e.2).sum

theorem weight_append (xs ys : List (κ × ν)) :
    weight size (xs ++ ys) = weight size xs + weight size ys := by
  simp [weight]

/-- The longest suffix that is not over the limit. -/
def longestFitting (entries : List (κ × ν)) : List (κ × ν) :=
  (entries.tails.find? fun suffix => weight size suffix ≤ limit).getD []

/-- The suffix of `all` that fits and has every other that fits as a
suffix. -/
structure LongestSuffix (all kept : List (κ × ν)) : Prop where
  suffix : kept <:+ all
  fits : weight size kept ≤ limit
  longest : ∀ other, other <:+ all → weight size other ≤ limit →
    other <:+ kept

/-- Both ends of an append that has `kept` as a suffix. -/
theorem suffix_append_cases {α : Type} {kept xs ys : List α}
    (h : kept <:+ xs ++ ys) :
    kept <:+ ys ∨ ∃ front, kept = front ++ ys ∧ front <:+ xs := by
  rcases List.suffix_or_suffix_of_suffix h (List.suffix_append xs ys) with
    hys | ⟨front, rfl⟩
  · exact Or.inl hys
  · obtain ⟨before, hbefore⟩ := h
    rw [← List.append_assoc] at hbefore
    exact Or.inr ⟨front, rfl, before, List.append_cancel_right hbefore⟩

namespace LongestSuffix

variable {size limit} {all kept : List (κ × ν)}

theorem nil : LongestSuffix size limit ([] : List (κ × ν)) [] :=
  ⟨List.suffix_refl _, Nat.zero_le _, fun _ h _ => h⟩

/-- One entry more. -/
theorem snoc {kept' : List (κ × ν)} {e : κ × ν}
    (h : LongestSuffix size limit all kept)
    (hnext : LongestSuffix size limit (kept ++ [e]) kept') :
    LongestSuffix size limit (all ++ [e]) kept' := by
  refine ⟨hnext.suffix.trans ?_, hnext.fits, ?_⟩
  · obtain ⟨front, hfront⟩ := h.suffix
    exact ⟨front, by rw [← List.append_assoc, hfront]⟩
  · intro other hother hsize
    refine hnext.longest other ?_ hsize
    rcases suffix_append_cases hother with hlast | ⟨front, rfl, hfront⟩
    · exact hlast.trans (List.suffix_append _ _)
    · have hfront' : front <:+ kept := by
        refine h.longest front hfront ?_
        rw [weight_append] at hsize
        omega
      obtain ⟨before, hbefore⟩ := hfront'
      exact ⟨before, by rw [← List.append_assoc, hbefore]⟩

/-- Where everything fits, it is everything. -/
theorem eq_all (h : LongestSuffix size limit all kept)
    (hfits : weight size all ≤ limit) : kept = all :=
  h.suffix.eq_of_length_le
    (h.longest all (List.suffix_refl _) hfits).length_le

/-- There is one such suffix. -/
theorem longestFitting_eq (h : LongestSuffix size limit all kept) :
    longestFitting size limit all = kept := by
  obtain ⟨hsuffix, hfits, hlongest⟩ := h
  unfold longestFitting
  induction all with
  | nil =>
      rw [List.suffix_nil.1 hsuffix]
      rfl
  | cons e rest ih =>
      rw [List.tails_cons, List.find?_cons]
      by_cases hall : weight size (e :: rest) ≤ limit
      · have hback := hlongest _ (List.suffix_refl _) hall
        rw [decide_eq_true hall, hsuffix.eq_of_length_le hback.length_le]
        rfl
      · rw [decide_eq_false hall]
        have hrest : kept <:+ rest := by
          rcases List.suffix_cons_iff.1 hsuffix with heq | hrest
          · rw [heq] at hfits
            exact absurd hfits hall
          · exact hrest
        exact ih hrest fun other hother =>
          hlongest other (hother.trans (List.suffix_cons ..))

end LongestSuffix

/-- What a store is asked for. -/
inductive Call (κ ν : Type)
  | insert (key : κ) (value : ν)
  | get (key : κ)

variable [DecidableEq κ]

/-- The entries under other keys. -/
def others (key : κ) (entries : List (κ × ν)) : List (κ × ν) :=
  entries.filter fun e => e.1 ≠ key

/-- One call: the entries afterwards, and what a lookup finds. -/
def step (entries : List (κ × ν)) :
    Call κ ν → Option (List (κ × ν) × List (Option ν))
  | .insert key value =>
      some (longestFitting size limit (others key entries ++ [(key, value)]),
        [])
  | .get key =>
      match entries.find? fun e => e.1 = key with
      | none => some (entries, [none])
      | some e => some (others key entries ++ [e], [some e.2])

variable {size limit} {entries : List (κ × ν)} {key : κ}

/-- A lookup that finds nothing. -/
theorem step_get_none (h : entries.find? (fun e => e.1 = key) = none) :
    step size limit entries (.get key) = some (entries, [none]) := by
  simp only [step, h]

/-- A lookup that finds an entry. -/
theorem step_get_some {e : κ × ν}
    (h : entries.find? (fun e => e.1 = key) = some e) :
    step size limit entries (.get key)
      = some (others key entries ++ [e], [some e.2]) := by
  simp only [step, h]

end Lru

end FactoryCacher
