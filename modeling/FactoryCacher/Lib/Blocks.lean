/-
A list cut into blocks of one size.

`block size l k` is the `k`-th block, short or empty past the end. The
blocks in order concatenate to the list (`flatten_blocks`), and a block
that is complete stays what it is when the list grows
(`block_append_of_le`).

`chop size l` takes complete blocks off the front as long as there are
any, the way a buffered writer does, and says what is left. What is left
and new data chop as the whole would have (`chop_append`): where the
data was cut does not show.
-/
import Mathlib.Tactic.Common
import Mathlib.Data.List.Basic

namespace FactoryCacher

variable {α : Type}

/-- The `k`-th block of `size` elements. -/
def block (size : Nat) (l : List α) (k : Nat) : List α :=
  (l.drop (size * k)).take size

/-- A complete block does not see what is appended. -/
theorem block_append_of_le {size k : Nat} {l : List α}
    (h : size * (k + 1) ≤ l.length) (more : List α) :
    block size (l ++ more) k = block size l k := by
  rw [Nat.mul_add, Nat.mul_one] at h
  unfold block
  rw [List.drop_append_of_le_length (by omega),
    List.take_append_of_le_length (by rw [List.length_drop]; omega)]

/-- The first `n` blocks in order. -/
theorem flatten_blocks (size n : Nat) (l : List α) :
    ((List.range n).map (block size l)).flatten = l.take (size * n) := by
  induction n with
  | zero => simp
  | succ n ih =>
      rw [List.range_succ, List.map_append, List.flatten_append, ih,
        Nat.mul_add, Nat.mul_one, List.take_add]
      simp [block]

-- ================================================================= chopping

/-- The complete blocks of a list, and the rest. -/
def chop (size : Nat) (l : List α) : List (List α) × List α :=
  if 0 < size ∧ size ≤ l.length then
    (l.take size :: (chop size (l.drop size)).1,
      (chop size (l.drop size)).2)
  else ([], l)
termination_by l.length
decreasing_by
  all_goals
    rw [List.length_drop]
    omega

theorem chop_of_lt {size : Nat} {l : List α} (h : l.length < size) :
    chop size l = ([], l) := by
  rw [chop, if_neg (by omega)]

theorem chop_of_le {size : Nat} {l : List α} (hsize : 0 < size)
    (h : size ≤ l.length) :
    chop size l = (l.take size :: (chop size (l.drop size)).1,
      (chop size (l.drop size)).2) := by
  rw [chop, if_pos ⟨hsize, h⟩]

/-- One block off the front, or nothing to take off: the induction along
`chop`. -/
theorem chop_induction {size : Nat} (hsize : 0 < size)
    {motive : List α → Prop} (short : ∀ l, l.length < size → motive l)
    (long : ∀ l, size ≤ l.length → motive (l.drop size) → motive l)
    (l : List α) : motive l := by
  induction hn : l.length using Nat.strongRecOn generalizing l with
  | _ n ih =>
      by_cases h : l.length < size
      · exact short l h
      · refine long l (by omega) (ih _ ?_ _ rfl)
        rw [List.length_drop]
        omega

/-- Nothing is lost. -/
theorem flatten_chop {size : Nat} (hsize : 0 < size) (l : List α) :
    (chop size l).1.flatten ++ (chop size l).2 = l := by
  induction l using chop_induction hsize with
  | short l h => rw [chop_of_lt h, List.flatten_nil, List.nil_append]
  | long l h ih =>
      rw [chop_of_le hsize h, List.flatten_cons, List.append_assoc, ih,
        List.take_append_drop]

/-- The blocks are complete. -/
theorem length_of_mem_chop {size : Nat} (hsize : 0 < size) (l : List α) :
    ∀ b ∈ (chop size l).1, b.length = size := by
  induction l using chop_induction hsize with
  | short l h => simp [chop_of_lt h]
  | long l h ih =>
      rw [chop_of_le hsize h]
      exact List.forall_mem_cons.mpr
        ⟨by rw [List.length_take]; omega, ih⟩

/-- What is left is less than a block. -/
theorem length_chop_snd {size : Nat} (hsize : 0 < size) (l : List α) :
    (chop size l).2.length < size := by
  induction l using chop_induction hsize with
  | short l h => rwa [chop_of_lt h]
  | long l h ih => rwa [chop_of_le hsize h]

/-- The blocks and the rest make up the length. -/
theorem length_chop {size : Nat} (hsize : 0 < size) (l : List α) :
    size * (chop size l).1.length + (chop size l).2.length = l.length := by
  have hflat := congrArg List.length (flatten_chop hsize l)
  rwa [List.length_append, List.length_flatten, List.map_congr_left
    (length_of_mem_chop hsize l), List.map_const', List.sum_replicate_nat,
    Nat.mul_comm] at hflat

/-- More data: the blocks so far, then those of what was left and the
new data. -/
theorem chop_append {size : Nat} (hsize : 0 < size) (l more : List α) :
    chop size (l ++ more)
      = ((chop size l).1 ++ (chop size ((chop size l).2 ++ more)).1,
        (chop size ((chop size l).2 ++ more)).2) := by
  induction l using chop_induction hsize with
  | short l h => rw [chop_of_lt h, List.nil_append]
  | long l h ih =>
      have hmore : size ≤ (l ++ more).length := by
        rw [List.length_append]
        omega
      rw [chop_of_le hsize hmore, chop_of_le hsize h,
        List.take_append_of_le_length h, List.drop_append_of_le_length h,
        ih, List.cons_append]

end FactoryCacher
