/-
Parties that act one at a time, and what each of them has seen.

A system of parties leaves one trace, in which the events of all of them
are mixed; an event is about at most one party, named by a key. What a
party is now should depend on its own events and on no others. Such a
property is a predicate `H` of a party and the events about it, and
`Histories` says that every party of a list has it.

# The rules

One rule for each way a step can change the list: one party changes and
the step's events are about it (`Histories.set`), a party is added
(`Histories.snoc`), every party changes and nothing is seen
(`Histories.map`), only the trace grows, by events about nobody
(`Histories.quiet`). What the step means to the other parties is settled
here, once: their keys differ, so they see nothing of it.
-/
import Mathlib.Tactic.Common

namespace FactoryCacher

-- ========================================================== lists of parties

section Lists

variable {α β : Type} {l : List α} {a b c : α}
  {i j : Nat}

theorem getElem?_set_cases (h : (l.set i a)[j]? = some b) :
    (j = i ∧ b = a) ∨ (j ≠ i ∧ l[j]? = some b) := by
  rw [List.getElem?_set] at h
  by_cases hij : i = j
  · rw [if_pos hij] at h
    split at h
    case isTrue =>
      cases h
      exact Or.inl ⟨hij.symm, rfl⟩
    case isFalse => cases h
  · rw [if_neg hij] at h
    exact Or.inr ⟨fun hji => hij hji.symm, h⟩

theorem getElem?_snoc_iff :
    (l ++ [a])[j]? = some b ↔ l[j]? = some b ∨ (j = l.length ∧ b = a) := by
  by_cases hj : j < l.length
  · rw [List.getElem?_append_left hj]
    refine ⟨Or.inl, ?_⟩
    intro h
    rcases h with h | ⟨rfl, -⟩
    · exact h
    · omega
  · rw [List.getElem?_append_right (by omega)]
    have hnone : l[j]? = none := List.getElem?_eq_none (by omega)
    by_cases heq : j = l.length
    · subst heq
      simp [eq_comm]
    · obtain ⟨k, hk⟩ : ∃ k, j - l.length = k + 1 :=
        ⟨j - l.length - 1, by omega⟩
      simp [hk, hnone, heq]

/-- A change of one entry that `f` does not see. -/
theorem map_set_of_eq {f : α → β} (h : l[i]? = some a) (hf : f b = f a) :
    (l.set i b).map f = l.map f := by
  rw [List.map_set, hf]
  apply List.ext_getElem?
  intro j
  rw [List.getElem?_set]
  by_cases hij : i = j
  · subst hij
    have hlt : i < (l.map f).length := by
      rw [List.length_map]
      exact (List.getElem?_eq_some_iff.1 h).1
    rw [if_pos rfl, if_pos hlt, List.getElem?_map, h]
    rfl
  · rw [if_neg hij]

theorem mem_set_of_nodup {f : α → β} (hnodup : (l.map f).Nodup)
    (h : l[i]? = some a) (hb : b ∈ l.set i c) :
    b = c ∨ (b ∈ l ∧ f b ≠ f a) := by
  obtain ⟨j, hj⟩ := List.mem_iff_getElem?.1 hb
  rcases getElem?_set_cases hj with ⟨-, rfl⟩ | ⟨hij, hold⟩
  · exact Or.inl rfl
  · refine Or.inr ⟨List.mem_of_getElem? hold, ?_⟩
    intro heq
    apply hij
    have hlt : j < (l.map f).length := by
      rw [List.length_map]
      exact (List.getElem?_eq_some_iff.1 hold).1
    refine (List.getElem?_inj hlt hnodup).1 ?_
    rw [List.getElem?_map, List.getElem?_map, hold, h]
    exact congrArg some heq

end Lists

-- ================================================================= histories

section Histories

variable {π ε κ : Type}

/-- Events that are all about a party, or about nobody. -/
def OnlyAbout (about : ε → Option κ) (k : κ) (events : List ε) : Prop :=
  ∀ event ∈ events, ∀ k', about event = some k' → k' = k

theorem onlyAbout_of_forall {about : ε → Option κ} {k : κ}
    {events : List ε} (h : ∀ event ∈ events, about event = some k) :
    OnlyAbout about k events := by
  intro event hevent k' hk'
  rw [h event hevent] at hk'
  exact (Option.some.inj hk').symm

variable [DecidableEq κ]

/-- The events about one party. -/
def eventsOf (about : ε → Option κ) (k : κ) (trace : List ε) : List ε :=
  trace.filter fun event => about event = some k

theorem eventsOf_append (about : ε → Option κ) (k : κ)
    (trace events : List ε) :
    eventsOf about k (trace ++ events)
      = eventsOf about k trace ++ eventsOf about k events :=
  List.filter_append ..

/-- Nothing is about a party that no event names. -/
theorem eventsOf_eq_nil {about : ε → Option κ} {k : κ} {events : List ε}
    (h : ∀ event ∈ events, about event ≠ some k) :
    eventsOf about k events = [] := by
  rw [eventsOf, List.filter_eq_nil_iff]
  intro event hevent
  rw [decide_eq_true_iff]
  exact h event hevent

theorem eventsOf_eq_self {about : ε → Option κ} {k : κ} {events : List ε}
    (h : ∀ event ∈ events, about event = some k) :
    eventsOf about k events = events := by
  rw [eventsOf, List.filter_eq_self]
  intro event hevent
  rw [decide_eq_true_iff]
  exact h event hevent

theorem OnlyAbout.eventsOf_eq_nil {about : ε → Option κ} {k k' : κ}
    {events : List ε} (h : OnlyAbout about k events) (hne : k' ≠ k) :
    eventsOf about k' events = [] := by
  apply FactoryCacher.eventsOf_eq_nil
  intro event hevent habout
  exact hne (h event hevent k' habout)

/-- Every party has a history, and every event is about one of them or
about nobody. -/
structure Histories (key : π → κ) (about : ε → Option κ)
    (H : List ε → π → Prop) (parties : List π) (trace : List ε) : Prop where
  known : ∀ event ∈ trace, ∀ k, about event = some k →
    k ∈ parties.map key
  each : ∀ party ∈ parties, H (eventsOf about (key party) trace) party

namespace Histories

variable {key : π → κ} {about : ε → Option κ} {H : List ε → π → Prop}
  {parties : List π} {trace events : List ε} {party next : π} {i : Nat}

theorem nil : Histories key about H [] [] := ⟨nofun, nofun⟩

/-- Events about nobody. -/
theorem quiet (h : Histories key about H parties trace)
    (hevents : ∀ event ∈ events, about event = none) :
    Histories key about H parties (trace ++ events) where
  known := by
    intro event hevent k hk
    rcases List.mem_append.1 hevent with hold | hnew
    · exact h.known event hold k hk
    · rw [hevents event hnew] at hk
      cases hk
  each := by
    intro party hparty
    have hnone : eventsOf about (key party) events = [] := by
      apply eventsOf_eq_nil
      intro event hevent hk
      rw [hevents event hevent] at hk
      cases hk
    rw [eventsOf_append, hnone, List.append_nil]
    exact h.each party hparty

/-- One party changes, and what is seen is about it. -/
theorem set (h : Histories key about H parties trace)
    (hnodup : (parties.map key).Nodup)
    (hparty : parties[i]? = some party) (hkey : key next = key party)
    (hevents : OnlyAbout about (key party) events)
    (hnext : H (eventsOf about (key party) trace) party →
      H (eventsOf about (key party) trace
        ++ eventsOf about (key party) events) next) :
    Histories key about H (parties.set i next) (trace ++ events) where
  known := by
    intro event hevent k hk
    rw [map_set_of_eq hparty hkey]
    rcases List.mem_append.1 hevent with hold | hnew
    · exact h.known event hold k hk
    · rw [hevents event hnew k hk]
      exact List.mem_map_of_mem (List.mem_of_getElem? hparty)
  each := by
    intro other hother
    rw [eventsOf_append]
    rcases mem_set_of_nodup hnodup hparty hother with rfl | ⟨hold, hne⟩
    · rw [hkey]
      exact hnext (h.each party (List.mem_of_getElem? hparty))
    · rw [hevents.eventsOf_eq_nil hne, List.append_nil]
      exact h.each other hold

/-- A party is added, under a key that nobody has. -/
theorem snoc (h : Histories key about H parties trace)
    (hfresh : key next ∉ parties.map key) (hnext : H [] next) :
    Histories key about H (parties ++ [next]) trace where
  known := by
    intro event hevent k hk
    rw [List.map_append]
    exact List.mem_append_left _ (h.known event hevent k hk)
  each := by
    intro party hparty
    rcases List.mem_append.1 hparty with hold | hnew
    · exact h.each party hold
    · cases List.mem_singleton.1 hnew
      have hnone : eventsOf about (key next) trace = [] := by
        apply eventsOf_eq_nil
        intro event hevent hk
        exact hfresh (h.known event hevent _ hk)
      rw [hnone]
      exact hnext

/-- Every party changes, and nothing is seen. -/
theorem map (h : Histories key about H parties trace) {f : π → π}
    (hkey : ∀ party, key (f party) = key party)
    (hnext : ∀ events party, H events party → H events (f party)) :
    Histories key about H (parties.map f) trace where
  known := by
    have hkeys : (parties.map f).map key = parties.map key := by
      rw [List.map_map]
      exact List.map_congr_left fun party _ => hkey party
    rw [hkeys]
    exact h.known
  each := by
    intro next hnext'
    obtain ⟨party, hparty, rfl⟩ := List.mem_map.1 hnext'
    rw [hkey]
    exact hnext _ party (h.each party hparty)

end Histories

end Histories

end FactoryCacher
