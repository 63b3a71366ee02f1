/-
Multiway trees that are built from the bottom, level by level.

A node has keys and a name. On the lowest level the keys are given; on
every other level they are the names of the nodes of the level below, in
order. So a tree is its levels, from the lowest up to the root
(`LevelTree`), and all its leaf nodes are equally deep.

# Growing

While keys come in, every level has nodes that are complete and one that
is not; the highest level has only the latter (`Growing`). Three things
happen: a key is pushed on a level (`Growing.push`); a node is complete,
and its name is a key one level up (`Growing.complete`); and when no key
comes in any more, the nodes that are not complete are closed from the
bottom up (`Growing.close_level`, or `Growing.close_empty` where there is
nothing to close).

# Bounds

A complete node has between `lo` and `hi` keys, any other at most
`hi - 1`, so with the one key more that closing the tree pushes on it,
it has at most `hi`. A level above another is only there once a node
below was complete, so every level multiplies the keys by `lo` at least
(`Growing.pow_le`).
-/
import Mathlib.Tactic.Common
import Mathlib.Algebra.Order.Ring.Nat
import Mathlib.Algebra.BigOperators.Group.List.Basic

namespace FactoryCacher

/-- What is seen of a node. -/
structure NodeView (κ ν : Type) where
  leaf : ν → Bool
  keys : ν → List κ
  name : ν → κ

variable {κ ν : Type} {view : NodeView κ ν}

-- =========================================================== finished trees

/-- The levels of a tree over some keys, from the lowest up, and its
root. -/
inductive LevelTree (view : NodeView κ ν) :
    List κ → List (List ν) → ν → Prop
  | root (r : ν) : LevelTree view (view.keys r) [[r]] r
  | level {nodes : List ν} {levels : List (List ν)} {r : ν}
      (above : LevelTree view (nodes.map view.name) levels r) :
      LevelTree view (nodes.flatMap view.keys) (nodes :: levels) r

/-- The flags and sizes of the nodes on the levels of a tree; the nodes
on the lowest level have the flag `leaf`. -/
structure Shaped (view : NodeView κ ν) (lo hi : Nat) (leaf : Bool)
    (levels : List (List ν)) : Prop where
  flags : ∀ i nodes, levels[i]? = some nodes →
    ∀ n ∈ nodes, view.leaf n = (leaf && i == 0)
  most : ∀ nodes ∈ levels, ∀ n ∈ nodes, (view.keys n).length ≤ hi
  least : ∀ nodes ∈ levels, ∀ n ∈ nodes.dropLast,
    lo ≤ (view.keys n).length

variable {lo hi : Nat} {leaf : Bool}

/-- A tree of one node. -/
theorem shaped_root {r : ν} (hleaf : view.leaf r = leaf)
    (hmost : (view.keys r).length ≤ hi) :
    Shaped view lo hi leaf [[r]] := by
  refine ⟨?_, ?_, ?_⟩
  · intro i nodes hi n hn
    cases i with
    | zero =>
        cases hi
        rw [List.mem_singleton.1 hn, hleaf]
        simp
    | succ i => cases hi
  · intro nodes hnodes n hn
    rw [List.mem_singleton.1 hnodes] at hn
    rwa [List.mem_singleton.1 hn]
  · intro nodes hnodes n hn
    rw [List.mem_singleton.1 hnodes] at hn
    cases hn

/-- One level more below. -/
theorem Shaped.cons {nodes : List ν} {levels : List (List ν)}
    (h : Shaped view lo hi false levels)
    (hleaf : ∀ n ∈ nodes, view.leaf n = leaf)
    (hmost : ∀ n ∈ nodes, (view.keys n).length ≤ hi)
    (hleast : ∀ n ∈ nodes.dropLast, lo ≤ (view.keys n).length) :
    Shaped view lo hi leaf (nodes :: levels) := by
  refine ⟨?_, ?_, ?_⟩
  · intro i nodes' hi n hn
    cases i with
    | zero =>
        cases hi
        simp [hleaf n hn]
    | succ i =>
        have habove := h.flags i nodes' hi n hn
        simpa using habove
  · exact List.forall_mem_cons.2 ⟨hmost, h.most⟩
  · exact List.forall_mem_cons.2 ⟨hleast, h.least⟩

-- ============================================================ growing trees

/-- A complete node of a level with the flag `leaf`. -/
structure FullNode (view : NodeView κ ν) (lo hi : Nat) (leaf : Bool)
    (n : ν) : Prop where
  leaf : view.leaf n = leaf
  least : lo ≤ (view.keys n).length
  most : (view.keys n).length ≤ hi

/-- A tree that grows over `keys`, seen from one of its levels up: the
nodes that are not complete, and for every level the complete ones. The
lowest node seen may have up to `max` keys. -/
inductive Growing (view : NodeView κ ν) (lo hi : Nat) :
    Bool → Nat → List κ → List ν → List (List ν) → Prop
  | top {leaf : Bool} {max : Nat} {cur : ν} (hleaf : view.leaf cur = leaf)
      (hmax : (view.keys cur).length ≤ max) :
      Growing view lo hi leaf max (view.keys cur) [cur] [[]]
  | level {leaf : Bool} {max : Nat} {cur : ν} {above done : List ν}
      {dones : List (List ν)} (hleaf : view.leaf cur = leaf)
      (hmax : (view.keys cur).length ≤ max) (hne : done ≠ [])
      (hdone : ∀ n ∈ done, FullNode view lo hi leaf n)
      (habove : Growing view lo hi false (hi - 1) (done.map view.name)
        above dones) :
      Growing view lo hi leaf max
        (done.flatMap view.keys ++ view.keys cur) (cur :: above)
        (done :: dones)

/-- The keys of complete nodes. -/
theorem length_flatMap_complete {done : List ν}
    (hdone : ∀ n ∈ done, FullNode view lo hi leaf n) :
    lo * done.length ≤ (done.flatMap view.keys).length := by
  induction done with
  | nil => exact Nat.zero_le _
  | cons n done ih =>
      obtain ⟨hn, hrest⟩ := List.forall_mem_cons.1 hdone
      have hleast := hn.least
      have hlow := ih hrest
      rw [List.flatMap_cons, List.length_append, List.length_cons,
        Nat.mul_succ]
      omega

namespace Growing

variable {max : Nat} {keys : List κ} {cur : ν} {above levels : List ν}
  {done : List ν} {dones : List (List ν)}

/-- The bound may be raised. -/
theorem raise {max' : Nat}
    (h : Growing view lo hi leaf max keys levels dones)
    (hle : max ≤ max') : Growing view lo hi leaf max' keys levels dones := by
  cases h with
  | top hleaf hmax => exact top hleaf (hmax.trans hle)
  | level hleaf hmax hne hdone habove =>
      exact level hleaf (hmax.trans hle) hne hdone habove

/-- The bound of the lowest node. -/
theorem narrow {max' : Nat}
    (h : Growing view lo hi leaf max keys (cur :: above) dones)
    (hle : (view.keys cur).length ≤ max') :
    Growing view lo hi leaf max' keys (cur :: above) dones := by
  cases h with
  | top hleaf _ => exact top hleaf hle
  | level hleaf _ hne hdone habove => exact level hleaf hle hne hdone habove

/-- The lowest node seen. -/
theorem cur_spec (h : Growing view lo hi leaf max keys (cur :: above) dones) :
    view.leaf cur = leaf ∧ (view.keys cur).length ≤ max := by
  cases h with
  | top hleaf hmax => exact ⟨hleaf, hmax⟩
  | level hleaf hmax => exact ⟨hleaf, hmax⟩

/-- The levels above the lowest one seen. -/
theorem above_spec {next : ν}
    (h : Growing view lo hi leaf max keys (cur :: next :: above) dones) :
    ∃ done upper, dones = done :: upper
      ∧ Growing view lo hi false (hi - 1) (done.map view.name)
        (next :: above) upper := by
  cases h with
  | level _ _ _ _ habove => exact ⟨_, _, rfl, habove⟩

/-- There is always a level. -/
theorem length_pos (h : Growing view lo hi leaf max keys levels dones) :
    0 < levels.length := by
  cases h with
  | top => exact Nat.one_pos
  | level => exact Nat.succ_pos _

/-- One key more. -/
theorem push {cur' : ν} {k : κ}
    (h : Growing view lo hi leaf max keys (cur :: above) dones)
    (hleaf : view.leaf cur' = view.leaf cur)
    (hkeys : view.keys cur' = view.keys cur ++ [k]) :
    Growing view lo hi leaf (max + 1) (keys ++ [k]) (cur' :: above)
      dones := by
  have hlen : (view.keys cur').length = (view.keys cur).length + 1 := by
    rw [hkeys, List.length_append, List.length_singleton]
  cases h with
  | top hcur hmax =>
      rw [← hkeys]
      exact top (hleaf.trans hcur) (by omega)
  | level hcur hmax hne hdone habove =>
      rw [List.append_assoc, ← hkeys]
      exact level (hleaf.trans hcur) (by omega) hne hdone habove

/-- The lowest node is complete; a fresh one takes its place, and the
tree goes on growing one level up. -/
theorem complete {fresh : ν} {rest : List ν} {dones' : List (List ν)}
    (h : Growing view lo hi leaf hi keys (cur :: above) (done :: dones))
    (hlo : lo ≤ (view.keys cur).length)
    (hleaf : view.leaf fresh = leaf) (hkeys : view.keys fresh = [])
    (hrest : Growing view lo hi false (hi - 1)
      ((done ++ [cur]).map view.name) rest dones') :
    Growing view lo hi leaf max keys (fresh :: rest)
      ((done ++ [cur]) :: dones') := by
  obtain ⟨hcur, hmost⟩ := h.cur_spec
  have hone : FullNode view lo hi leaf cur := ⟨hcur, hlo, hmost⟩
  have hfresh : (view.keys fresh).length ≤ max := by
    rw [hkeys]
    exact Nat.zero_le _
  have hflat : keys
      = (done ++ [cur]).flatMap view.keys ++ view.keys fresh := by
    rw [hkeys, List.append_nil, List.flatMap_append]
    cases h with
    | top => simp
    | level => simp
  have hdone : ∀ n ∈ done ++ [cur], FullNode view lo hi leaf n := by
    intro n hn
    rcases List.mem_append.1 hn with hn | hn
    · cases h with
      | top => cases hn
      | level _ _ _ hdone => exact hdone n hn
    · rwa [List.mem_singleton.1 hn]
  rw [hflat]
  exact level hleaf hfresh (by simp) hdone hrest

/-- Every level multiplies the keys by `lo` at least. -/
theorem pow_le (h : Growing view lo hi leaf max keys levels dones)
    (hkeys : levels.length = 1 → keys ≠ []) :
    lo ^ (levels.length - 1) ≤ keys.length := by
  induction h with
  | top => exact List.length_pos_iff.2 (hkeys rfl)
  | @level leaf max cur above done dones _ _ hne hdone habove ih =>
      have hup : lo ^ (above.length - 1) ≤ done.length := by
        simpa using ih (fun _ => by simpa using hne)
      have hlow := length_flatMap_complete hdone
      have hpos := habove.length_pos
      calc lo ^ ((cur :: above).length - 1)
          = lo * lo ^ (above.length - 1) := by
            rw [← pow_succ', List.length_cons]
            congr 1
            omega
        _ ≤ lo * done.length := Nat.mul_le_mul_left lo hup
        _ ≤ (done.flatMap view.keys ++ view.keys cur).length := by
            rw [List.length_append]
            omega

-- ================================================================== closing

/-- Of a finished tree, what the growing one promises. -/
structure Closed (view : NodeView κ ν) (lo hi : Nat) (leaf : Bool)
    (keys : List κ) (levels : List (List ν)) (r : ν) : Prop where
  tree : LevelTree view keys levels r
  shaped : Shaped view lo hi leaf levels
  nonempty : keys ≠ [] → view.keys r ≠ []

/-- The highest node is the root. -/
theorem close_top (h : Growing view lo hi leaf hi keys [cur] dones) :
    Closed view lo hi leaf keys [[cur]] cur ∧ dones = [[]] := by
  obtain ⟨hleaf, hmost⟩ := h.cur_spec
  cases h with
  | top => exact ⟨⟨.root cur, shaped_root hleaf hmost, id⟩, rfl⟩
  | level _ _ _ _ habove =>
      exact absurd habove.length_pos (Nat.lt_irrefl 0)

/-- A level whose last node has no keys is finished as it is. -/
theorem close_empty {levels : List (List ν)} {r : ν}
    (h : Growing view lo hi leaf max keys (cur :: above) (done :: dones))
    (habove : above ≠ []) (hempty : view.keys cur = [])
    (hrest : Closed view lo hi false (done.map view.name) levels r) :
    Closed view lo hi leaf keys (done :: levels) r := by
  cases h with
  | top => exact absurd rfl habove
  | level _ _ hne hdone _ =>
      have hleast : ∀ n ∈ done.dropLast, lo ≤ (view.keys n).length :=
        fun n hn => (hdone n ((List.dropLast_sublist done).subset hn)).least
      rw [hempty, List.append_nil]
      exact ⟨.level hrest.tree,
        hrest.shaped.cons (fun n hn => (hdone n hn).leaf)
          (fun n hn => (hdone n hn).most) hleast,
        fun _ => hrest.nonempty (by simpa using hne)⟩

/-- Any other is finished with its last node. -/
theorem close_level {levels : List (List ν)} {r : ν}
    (h : Growing view lo hi leaf hi keys (cur :: above) (done :: dones))
    (hrest : Closed view lo hi false ((done ++ [cur]).map view.name)
      levels r) :
    Closed view lo hi leaf keys ((done ++ [cur]) :: levels) r := by
  obtain ⟨hleaf, hmost⟩ := h.cur_spec
  have hdone : ∀ n ∈ done, FullNode view lo hi leaf n := by
    cases h with
    | top => nofun
    | level _ _ _ hdone => exact hdone
  have hflat : keys = (done ++ [cur]).flatMap view.keys := by
    cases h with
    | top => simp
    | level => simp
  have hall : ∀ n ∈ done ++ [cur],
      view.leaf n = leaf ∧ (view.keys n).length ≤ hi := by
    intro n hn
    rcases List.mem_append.1 hn with hn | hn
    · exact ⟨(hdone n hn).leaf, (hdone n hn).most⟩
    · rw [List.mem_singleton.1 hn]
      exact ⟨hleaf, hmost⟩
  have hleast : ∀ n ∈ (done ++ [cur]).dropLast,
      lo ≤ (view.keys n).length := by
    intro n hn
    rw [List.dropLast_concat] at hn
    exact (hdone n hn).least
  rw [hflat]
  exact ⟨.level hrest.tree, hrest.shaped.cons (fun n hn => (hall n hn).1)
    (fun n hn => (hall n hn).2) hleast, fun _ => hrest.nonempty (by simp)⟩

end Growing

end FactoryCacher
