/-
A sequence cut where a running test says so.

`cut stop cur l` goes through `l`, with what was read since the last cut
in `cur`, and cuts behind an element if `stop` holds of everything since
the last cut, that element included. It returns the segments that were
closed and what is still open; `segments` closes that too.

# Nothing crosses a cut

The test sees what was read since the last cut and nothing else. Behind
a cut the segments are therefore those of the rest alone
(`segments_append_of_closed`). A place where a segment ends in the whole
is a cut or the end of the whole, so the same is true there
(`segments_append_of_boundary`): two sequences with a common rest that
both have a boundary in front of it have the same segments from there
on.

# One segment at a time

A program that finds its segments one after another is an instance if it
finds the first one (`segments_eq_cons`).
-/
import Mathlib.Tactic.Common
import Mathlib.Data.List.Basic
import Mathlib.Data.List.Flatten

namespace FactoryCacher

namespace Segments

variable {α : Type} (stop : List α → Bool)

-- ================================================================== cutting

/-- The segments closed and what is open, from `cur` on. -/
def cut (cur : List α) : List α → List (List α) × List α
  | [] => ([], cur)
  | a :: rest =>
      if stop (cur ++ [a]) then
        ((cur ++ [a]) :: (cut [] rest).1, (cut [] rest).2)
      else cut (cur ++ [a]) rest

/-- What is open is closed, unless it is empty. -/
def closeLast : List α → List (List α)
  | [] => []
  | a :: l => [a :: l]

/-- The segments of a sequence. -/
def segments (l : List α) : List (List α) :=
  (cut stop [] l).1 ++ closeLast (cut stop [] l).2

variable {stop} {cur l xs ys : List α}

theorem closeLast_of_ne_nil (h : l ≠ []) : closeLast l = [l] := by
  cases l with
  | nil => exact absurd rfl h
  | cons a l => rfl

theorem mem_closeLast : l ∈ closeLast cur ↔ cur ≠ [] ∧ l = cur := by
  cases cur <;> simp [closeLast]

@[simp] theorem segments_nil : segments stop [] = [] := rfl

/-- Cutting goes on where it was. -/
theorem cut_append (cur xs ys : List α) :
    cut stop cur (xs ++ ys)
      = ((cut stop cur xs).1 ++ (cut stop (cut stop cur xs).2 ys).1,
          (cut stop (cut stop cur xs).2 ys).2) := by
  induction xs generalizing cur with
  | nil => rfl
  | cons a xs ih =>
      rw [List.cons_append, cut, cut]
      split
      case isTrue => simp [ih]
      case isFalse => exact ih _

/-- Nothing is lost. -/
theorem flatten_cut (cur l : List α) :
    (cut stop cur l).1.flatten ++ (cut stop cur l).2 = cur ++ l := by
  induction l generalizing cur with
  | nil => simp [cut]
  | cons a l ih =>
      rw [cut]
      split
      case isTrue => simp [ih []]
      case isFalse => simp [ih (cur ++ [a])]

/-- No segment is empty. -/
theorem nil_notMem_cut : [] ∉ (cut stop cur l).1 := by
  induction l generalizing cur with
  | nil => simp [cut]
  | cons a l ih =>
      rw [cut]
      split
      case isTrue => simp [ih]
      case isFalse => exact ih

theorem nil_notMem_segments (l : List α) : [] ∉ segments stop l := by
  rw [segments, List.mem_append, not_or]
  refine ⟨nil_notMem_cut, ?_⟩
  cases (cut stop [] l).2 <;> simp [closeLast]

-- ============================================================= at a boundary

/-- Behind a cut. -/
theorem segments_append_of_closed (h : (cut stop [] xs).2 = [])
    (ys : List α) :
    segments stop (xs ++ ys) = segments stop xs ++ segments stop ys := by
  simp only [segments, cut_append, h, closeLast, List.append_nil,
    List.append_assoc]

/-- What is open ends up in front of a longer segment. -/
theorem cut_open (cur : List α) (h : ys ≠ []) :
    ∃ first rest, (cut stop cur ys).1 ++ closeLast (cut stop cur ys).2
        = first :: rest ∧ cur.length < first.length := by
  induction ys generalizing cur with
  | nil => exact absurd rfl h
  | cons a ys ih =>
      have hlonger : cur.length < (cur ++ [a]).length := by simp
      rw [cut]
      split
      case isTrue => exact ⟨_, _, rfl, hlonger⟩
      case isFalse =>
        by_cases hys : ys = []
        · subst hys
          refine ⟨cur ++ [a], [], ?_, hlonger⟩
          exact closeLast_of_ne_nil (List.append_ne_nil_of_right_ne_nil _
            (List.cons_ne_nil _ _))
        · obtain ⟨first, rest, heq, hlt⟩ := ih (cur ++ [a]) hys
          exact ⟨first, rest, heq, Nat.lt_trans hlonger hlt⟩

theorem length_flatten_le {front : List (List α)} {all : List (List α)}
    (h : front <+: all) : front.flatten.length ≤ all.flatten.length := by
  obtain ⟨rest, rfl⟩ := h
  rw [List.flatten_append, List.length_append]
  exact Nat.le_add_right _ _

/-- Where a segment ends in front of something, it is a cut. -/
theorem closed_of_boundary {front : List (List α)} (hys : ys ≠ [])
    (hfront : front <+: segments stop (xs ++ ys))
    (hlen : front.flatten.length = xs.length) :
    (cut stop [] xs).2 = [] := by
  obtain ⟨first, rest, hrest, hlonger⟩ := cut_open (cut stop [] xs).2 hys
  have hall : segments stop (xs ++ ys)
      = (cut stop [] xs).1 ++ first :: rest := by
    rw [segments, cut_append, List.append_assoc, hrest]
  have hxs : (cut stop [] xs).1.flatten.length + (cut stop [] xs).2.length
      = xs.length := by
    rw [← List.length_append, flatten_cut, List.nil_append]
  rw [hall] at hfront
  rcases List.prefix_or_prefix_of_prefix hfront
    (List.prefix_append (cut stop [] xs).1 (first :: rest)) with hle | hge
  · -- all of `xs` is in closed segments
    have hshort := length_flatten_le hle
    exact List.eq_nil_of_length_eq_zero (by omega)
  · obtain ⟨more, rfl⟩ := hge
    have hmore := (List.prefix_append_right_inj _).mp hfront
    rw [List.flatten_append, List.length_append] at hlen
    cases more with
    | nil =>
        rw [List.flatten_nil, List.length_nil] at hlen
        exact List.eq_nil_of_length_eq_zero (by omega)
    | cons next more =>
        -- it would be longer than `xs`
        obtain ⟨rfl, -⟩ := List.cons_prefix_cons.mp hmore
        rw [List.flatten_cons, List.length_append] at hlen
        omega

/-- At any boundary. -/
theorem segments_append_of_boundary {front : List (List α)}
    (hfront : front <+: segments stop (xs ++ ys))
    (hlen : front.flatten.length = xs.length) :
    segments stop (xs ++ ys) = segments stop xs ++ segments stop ys := by
  by_cases hys : ys = []
  · subst hys
    rw [List.append_nil, segments_nil, List.append_nil]
  · exact segments_append_of_closed (closed_of_boundary hys hfront hlen) ys

/-- A boundary has one number of segments in front of it. -/
theorem eq_of_length_flatten {all front front' : List (List α)}
    (hall : [] ∉ all) (h : front <+: all) (h' : front' <+: all)
    (hlen : front.flatten.length = front'.flatten.length) :
    front = front' := by
  wlog hle : front <+: front' generalizing front front'
  · have hge := (List.prefix_or_prefix_of_prefix h h').resolve_left hle
    exact (this h' h hlen.symm hge).symm
  obtain ⟨more, rfl⟩ := hle
  rw [List.flatten_append, List.length_append] at hlen
  have hnil : more.flatten = [] :=
    List.eq_nil_of_length_eq_zero (by omega)
  cases more with
  | nil => rw [List.append_nil]
  | cons first more =>
      rw [List.flatten_cons, List.append_eq_nil_iff] at hnil
      obtain ⟨rfl, -⟩ := hnil
      exact absurd (h'.subset (by simp)) hall

-- ========================================================= the first segment

/-- Nothing stops it. -/
theorem cut_of_open
    (h : ∀ k, 0 < k → k ≤ l.length → stop (cur ++ l.take k) = false) :
    cut stop cur l = ([], cur ++ l) := by
  induction l generalizing cur with
  | nil => rw [cut, List.append_nil]
  | cons a l ih =>
      have hfirst := h 1 Nat.one_pos (by simp)
      rw [List.take_succ_cons, List.take_zero] at hfirst
      rw [cut, hfirst, if_neg Bool.false_ne_true, ih]
      · rw [List.append_assoc, List.singleton_append]
      · intro k hk hle
        rw [List.append_assoc, List.singleton_append, ← List.take_succ_cons]
        exact h (k + 1) (Nat.succ_pos k) (Nat.succ_le_succ hle)

/-- The first segment ends where the test first holds, or at the end. -/
theorem segments_eq_cons {n : Nat} (hpos : 0 < n) (hle : n ≤ l.length)
    (hearlier : ∀ k, 0 < k → k < n → stop (l.take k) = false)
    (hstop : n < l.length → stop (l.take n) = true) :
    segments stop l = l.take n :: segments stop (l.drop n) := by
  have hlen : (l.take n).length = n := List.length_take_of_le hle
  by_cases hn : stop (l.take n) = true
  · -- up to its last element it is open, and there it is closed
    obtain ⟨m, rfl⟩ : ∃ m, n = m + 1 := ⟨n - 1, by omega⟩
    have hlast : l.take (m + 1) = l.take m ++ [l.get ⟨m, hle⟩] := by
      rw [List.take_succ_eq_append_getElem hle]
      rfl
    have hopen : cut stop [] (l.take m) = ([], l.take m) := by
      refine cut_of_open fun k hk hkm => ?_
      rw [List.length_take_of_le (by omega)] at hkm
      rw [List.nil_append, List.take_take, Nat.min_eq_left hkm]
      exact hearlier k hk (by omega)
    have hclosed : cut stop [] (l.take (m + 1)) = ([l.take (m + 1)], []) := by
      rw [hlast, cut_append, hopen]
      rw [hlast] at hn
      simp only [cut, hn, if_true, List.nil_append]
    have happend := segments_append_of_closed
      (congrArg Prod.snd hclosed) (l.drop (m + 1))
    rw [List.take_append_drop] at happend
    rw [happend, segments, hclosed]
    rfl
  · have hall : n = l.length := by
      by_contra hne
      exact hn (hstop (by omega))
    subst hall
    have hopen : cut stop [] l = ([], l) := by
      refine cut_of_open fun k hk hkn => ?_
      rcases Nat.lt_or_eq_of_le hkn with hlt | rfl
      · exact hearlier k hk hlt
      · exact Bool.eq_false_iff.mpr hn
    rw [List.take_length, List.drop_length, segments_nil, segments, hopen]
    exact closeLast_of_ne_nil (List.ne_nil_of_length_pos hpos)

end Segments

end FactoryCacher
