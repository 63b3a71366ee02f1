/-
Search and replace in a byte string.

`findIter` goes through a text from the left and lists the places where
it finds a needle; after a match it goes on behind it. So the matches it
lists do not overlap (`findIter_apart`), and of the places where the
needle stands it misses only those that overlap a match further left
(`mem_findIter`).

`overwrite` copies a replacement over a match. `replaceAll` does so for
all matches of a search; with a replacement of the needle's length it
keeps the length of the text, puts the replacement under every match
(`getElem?_replaceAll_of_match`), and changes nothing where the needle
and the replacement agree or no match is (`getElem?_replaceAll_of_agree`).

# One place

Somebody who means one place of the needle gets what they mean just when
the search reports that place and no other, or when nothing is replaced
at all (`replaceAll_eq_overwrite_iff`). A match that overlaps the place
does not do by accident what was meant: two places of a needle that
overlap make it repeat itself with their distance, so does the
replacement that stands right at both, and they start alike, so they are
the same (`eq_of_shifted`).
-/
import Mathlib.Tactic.Common
import FactoryCacher.Lib.Bytes

namespace FactoryCacher

-- ================================================================ searching

/-- `memmem::Finder::find_iter`: the positions of the needle, leftmost
first and not overlapping. `skip` counts the bytes of the last match
still ahead. -/
def findIter (needle : Bytes) : Nat → Nat → Bytes → List Nat
  | _, _, [] => []
  | pos, skip + 1, _ :: rest => findIter needle (pos + 1) skip rest
  | pos, 0, b :: rest =>
      if needle.isPrefixOf (b :: rest) then
        pos :: findIter needle (pos + 1) (needle.length - 1) rest
      else findIter needle (pos + 1) 0 rest

variable {needle : Bytes}

/-- What is found is there, and ahead. -/
theorem findIter_sound {text : Bytes} {pos skip q : Nat}
    (h : q ∈ findIter needle pos skip text) :
    pos + skip ≤ q ∧ needle <+: text.drop (q - pos) := by
  induction text generalizing pos skip with
  | nil => cases h
  | cons b rest ih =>
      -- one position further, the rest of the text is the same
      have hnext : ∀ {skip' : Nat},
          q ∈ findIter needle (pos + 1) skip' rest →
          pos + 1 + skip' ≤ q
            ∧ needle <+: (b :: rest).drop (q - pos) := by
        intro skip' hq
        obtain ⟨hle, hmatch⟩ := ih hq
        have hdrop : q - pos = q - (pos + 1) + 1 := by omega
        rw [hdrop, List.drop_succ_cons]
        exact ⟨hle, hmatch⟩
      cases skip with
      | succ skip =>
          rw [findIter] at h
          obtain ⟨hle, hmatch⟩ := hnext h
          exact ⟨by omega, hmatch⟩
      | zero =>
          rw [findIter] at h
          by_cases hfound : needle.isPrefixOf (b :: rest) = true
          · rw [if_pos hfound] at h
            rcases List.mem_cons.mp h with rfl | h
            · rw [Nat.sub_self, List.drop_zero]
              exact ⟨le_rfl, List.isPrefixOf_iff_prefix.mp hfound⟩
            · obtain ⟨hle, hmatch⟩ := hnext h
              exact ⟨by omega, hmatch⟩
          · rw [if_neg hfound] at h
            obtain ⟨hle, hmatch⟩ := hnext h
            exact ⟨by omega, hmatch⟩

/-- Matches do not overlap. -/
theorem findIter_apart (hneedle : needle ≠ []) (text : Bytes)
    (pos skip : Nat) :
    (findIter needle pos skip text).Pairwise
      fun a b => a + needle.length ≤ b := by
  induction text generalizing pos skip with
  | nil => exact List.Pairwise.nil
  | cons b rest ih =>
      cases skip with
      | succ skip =>
          rw [findIter]
          exact ih _ _
      | zero =>
          rw [findIter]
          split
          · refine List.pairwise_cons.mpr ⟨?_, ih _ _⟩
            intro q hq
            have hle := (findIter_sound hq).1
            have hlen := List.length_pos_iff.mpr hneedle
            omega
          · exact ih _ _

/-- A place where the needle stands is found, unless a match further left
overlaps it. -/
theorem mem_findIter (hneedle : needle ≠ []) {text : Bytes}
    {pos skip p : Nat} (hp : pos + skip ≤ p)
    (hmatch : needle <+: text.drop (p - pos))
    (hfree : ∀ q ∈ findIter needle pos skip text, q < p →
      q + needle.length ≤ p) :
    p ∈ findIter needle pos skip text := by
  induction text generalizing pos skip with
  | nil =>
      rw [List.drop_nil] at hmatch
      exact absurd (List.prefix_nil.mp hmatch) hneedle
  | cons b rest ih =>
      have hnext : pos < p →
          needle <+: rest.drop (p - (pos + 1)) := by
        intro hlt
        have hdrop : p - pos = p - (pos + 1) + 1 := by omega
        rwa [hdrop, List.drop_succ_cons] at hmatch
      cases skip with
      | succ skip =>
          rw [findIter] at hfree ⊢
          exact ih (by omega) (hnext (by omega)) hfree
      | zero =>
          rw [findIter] at hfree ⊢
          by_cases hfound : needle.isPrefixOf (b :: rest) = true
          · rw [if_pos hfound] at hfree ⊢
            by_cases hhere : p = pos
            · rw [hhere]
              exact List.mem_cons_self ..
            · have hlt : pos < p := by omega
              have hafter := hfree pos (List.mem_cons_self ..) hlt
              have hlen := List.length_pos_iff.mpr hneedle
              refine List.mem_cons_of_mem _ (ih (by omega) (hnext hlt) ?_)
              intro q hq
              exact hfree q (List.mem_cons_of_mem _ hq)
          · rw [if_neg hfound] at hfree ⊢
            have hlt : pos < p := by
              by_contra hge
              have hhere : p - pos = 0 := by omega
              rw [hhere, List.drop_zero] at hmatch
              exact hfound (List.isPrefixOf_iff_prefix.mpr hmatch)
            exact ih (by omega) (hnext hlt) hfree

-- ================================================================ replacing

/-- `copy_from_slice` into the packet at `pos`. -/
def overwrite (packet replaceWith : Bytes) (pos : Nat) : Bytes :=
  packet.take pos ++ replaceWith ++ packet.drop (pos + replaceWith.length)

/-- Over one match after another. -/
def overwriteAll (replaceWith : Bytes) (positions : List Nat)
    (packet : Bytes) : Bytes :=
  positions.foldl (fun packet pos => overwrite packet replaceWith pos) packet

/-- Every match of a search. -/
def replaceAll (needle replaceWith packet : Bytes) : Bytes :=
  overwriteAll replaceWith (findIter needle 0 0 packet) packet

variable {packet replaceWith : Bytes}

theorem length_overwrite {pos : Nat}
    (h : pos + replaceWith.length ≤ packet.length) :
    (overwrite packet replaceWith pos).length = packet.length := by
  simp only [overwrite, List.length_append, List.length_take,
    List.length_drop]
  omega

/-- Under the match. -/
theorem getElem?_overwrite_of_match {pos i : Nat}
    (h : pos + replaceWith.length ≤ packet.length) (hle : pos ≤ i)
    (hlt : i < pos + replaceWith.length) :
    (overwrite packet replaceWith pos)[i]? = replaceWith[i - pos]? := by
  have htake : (packet.take pos).length = pos := by
    rw [List.length_take]
    omega
  rw [overwrite, List.getElem?_append_left (by simp; omega),
    List.getElem?_append_right (by omega), htake]

/-- Anywhere else. -/
theorem getElem?_overwrite_of_none {pos i : Nat}
    (h : pos + replaceWith.length ≤ packet.length)
    (hout : i < pos ∨ pos + replaceWith.length ≤ i) :
    (overwrite packet replaceWith pos)[i]? = packet[i]? := by
  have htake : (packet.take pos ++ replaceWith).length
      = pos + replaceWith.length := by
    rw [List.length_append, List.length_take]
    omega
  rcases hout with hout | hout
  · rw [overwrite, List.getElem?_append_left (by omega),
      List.getElem?_append_left (by rw [List.length_take]; omega),
      List.getElem?_take_of_lt hout]
  · rw [overwrite, List.getElem?_append_right (by omega), htake,
      List.getElem?_drop]
    congr 1
    omega

/-- The middle of three parts. -/
theorem overwrite_append {front old back : Bytes}
    (h : replaceWith.length = old.length) :
    overwrite (front ++ (old ++ back)) replaceWith front.length
      = front ++ (replaceWith ++ back) := by
  rw [overwrite, List.take_left, h, List.append_assoc, ← List.drop_drop,
    List.drop_left, List.drop_left]

/-- A text that holds `part` at `pos`, cut there. -/
theorem drop_eq_append {text part : Bytes} {pos : Nat}
    (h : ∀ j < part.length, text[pos + j]? = part[j]?) :
    text.drop pos = part ++ text.drop (pos + part.length) := by
  have hpart : (text.drop pos).take part.length = part := by
    apply List.ext_getElem?
    intro j
    by_cases hj : j < part.length
    · rw [List.getElem?_take_of_lt hj, List.getElem?_drop, h j hj]
    · rw [List.getElem?_take_eq_none (by omega),
        List.getElem?_eq_none (by omega)]
  rw [← List.drop_drop]
  nth_rewrite 1 [← List.take_append_drop part.length (text.drop pos)]
  rw [hpart]

theorem length_overwriteAll {positions : List Nat} :
    ∀ {packet : Bytes},
      (∀ q ∈ positions, q + replaceWith.length ≤ packet.length) →
      (overwriteAll replaceWith positions packet).length
        = packet.length := by
  induction positions with
  | nil =>
      intro packet _
      rfl
  | cons pos positions ih =>
      intro packet hin
      obtain ⟨hpos, hrest⟩ := List.forall_mem_cons.mp hin
      have hlen := length_overwrite hpos
      have hrest' : ∀ q ∈ positions, q + replaceWith.length
          ≤ (overwrite packet replaceWith pos).length := by
        rwa [hlen]
      exact (ih hrest').trans hlen

/-- Where there is no match the text is as before. -/
theorem getElem?_overwriteAll_of_none {positions : List Nat} {i : Nat} :
    ∀ {packet : Bytes},
      (∀ q ∈ positions, q + replaceWith.length ≤ packet.length) →
      (∀ q ∈ positions, i < q ∨ q + replaceWith.length ≤ i) →
      (overwriteAll replaceWith positions packet)[i]? = packet[i]? := by
  induction positions with
  | nil =>
      intro packet _ _
      rfl
  | cons pos positions ih =>
      intro packet hin hout
      obtain ⟨hpos, hrest⟩ := List.forall_mem_cons.mp hin
      obtain ⟨hhere, hothers⟩ := List.forall_mem_cons.mp hout
      have hrest' : ∀ q ∈ positions, q + replaceWith.length
          ≤ (overwrite packet replaceWith pos).length := by
        rwa [length_overwrite hpos]
      exact (ih hrest' hothers).trans
        (getElem?_overwrite_of_none hpos hhere)

/-- Under a match it is the replacement. -/
theorem getElem?_overwriteAll_of_match {positions : List Nat} {q i : Nat}
    (hle : q ≤ i) (hlt : i < q + replaceWith.length) :
    ∀ {packet : Bytes},
      (∀ q ∈ positions, q + replaceWith.length ≤ packet.length) →
      positions.Pairwise (fun a b => a + replaceWith.length ≤ b) →
      q ∈ positions →
      (overwriteAll replaceWith positions packet)[i]?
        = replaceWith[i - q]? := by
  induction positions with
  | nil =>
      intro packet _ _ hq
      cases hq
  | cons pos positions ih =>
      intro packet hin hapart hq
      obtain ⟨hpos, hrest⟩ := List.forall_mem_cons.mp hin
      obtain ⟨hafter, hothers⟩ := List.pairwise_cons.mp hapart
      have hrest' : ∀ q ∈ positions, q + replaceWith.length
          ≤ (overwrite packet replaceWith pos).length := by
        rwa [length_overwrite hpos]
      rcases List.mem_cons.mp hq with rfl | hq
      · -- the later matches do not reach back to this one
        have hkept := getElem?_overwriteAll_of_none hrest' (i := i)
          fun q' hq' => Or.inl (by have := hafter q' hq'; omega)
        exact hkept.trans (getElem?_overwrite_of_match hpos hle hlt)
      · exact ih hrest' hothers hq

/-- Where the needle stands, the text is the needle. -/
theorem getElem?_of_isPrefix_drop {text : Bytes} {q i : Nat}
    (h : needle <+: text.drop q) (hle : q ≤ i)
    (hlt : i < q + needle.length) : text[i]? = needle[i - q]? := by
  obtain ⟨rest, hrest⟩ := h
  have hi : i = q + (i - q) := by omega
  rw [hi, ← List.getElem?_drop, ← hrest,
    List.getElem?_append_left (by omega), Nat.add_sub_cancel_left]

section ReplaceAll

variable (hlen : replaceWith.length = needle.length)

include hlen

theorem match_le_length {q : Nat}
    (hq : q ∈ findIter needle 0 0 packet) (hneedle : needle ≠ []) :
    q + replaceWith.length ≤ packet.length := by
  have hle := (findIter_sound hq).2.length_le
  have hpos := List.length_pos_iff.mpr hneedle
  rw [Nat.sub_zero, List.length_drop] at hle
  omega

theorem length_replaceAll (hneedle : needle ≠ []) :
    (replaceAll needle replaceWith packet).length = packet.length :=
  length_overwriteAll fun _ hq => match_le_length hlen hq hneedle

/-- Under a match stands the replacement. -/
theorem getElem?_replaceAll_of_match (hneedle : needle ≠ []) {q i : Nat}
    (hq : q ∈ findIter needle 0 0 packet) (hle : q ≤ i)
    (hlt : i < q + needle.length) :
    (replaceAll needle replaceWith packet)[i]? = replaceWith[i - q]? := by
  have hapart := findIter_apart hneedle packet 0 0
  rw [← hlen] at hlt hapart
  exact getElem?_overwriteAll_of_match hle hlt
    (fun _ hq => match_le_length hlen hq hneedle) hapart hq

/-- Where the replacement is as the needle under every match, the text
is as before. -/
theorem getElem?_replaceAll_of_agree (hneedle : needle ≠ []) {i : Nat}
    (h : ∀ q ∈ findIter needle 0 0 packet, q ≤ i → i < q + needle.length →
      replaceWith[i - q]? = needle[i - q]?) :
    (replaceAll needle replaceWith packet)[i]? = packet[i]? := by
  by_cases hunder : ∃ q ∈ findIter needle 0 0 packet,
      q ≤ i ∧ i < q + needle.length
  · obtain ⟨q, hq, hle, hlt⟩ := hunder
    have htext : packet[i]? = needle[i - q]? :=
      getElem?_of_isPrefix_drop (findIter_sound hq).2 hle hlt
    rw [getElem?_replaceAll_of_match hlen hneedle hq hle hlt, htext]
    exact h q hq hle hlt
  · have hnone : ∀ q ∈ findIter needle 0 0 packet,
        i < q ∨ q + replaceWith.length ≤ i := by
      intro q hq
      by_contra hcon
      exact hunder ⟨q, hq, by omega, by omega⟩
    exact getElem?_overwriteAll_of_none
      (fun _ hq => match_le_length hlen hq hneedle) hnone

end ReplaceAll

/-- Replacing the needle by itself changes nothing. -/
theorem replaceAll_self (hneedle : needle ≠ []) :
    replaceAll needle needle packet = packet :=
  List.ext_getElem? fun _ =>
    getElem?_replaceAll_of_agree rfl hneedle fun _ _ _ _ => rfl

/-- Nor does overwriting one place of it. -/
theorem overwrite_self {p : Nat} (h : needle <+: packet.drop p) :
    overwrite packet needle p = packet := by
  obtain ⟨rest, hrest⟩ := h
  rw [overwrite, ← List.drop_drop, ← hrest, List.drop_left,
    List.append_assoc, hrest, List.take_append_drop]

-- =============================================================== one place

section OnePlace

variable (hlen : replaceWith.length = needle.length)

include hlen

/-- A replacement that starts as the needle does, and repeats itself with
the distance with which the needle does, is the needle. -/
theorem eq_of_shifted {d : Nat} (hd : 0 < d)
    (hstart : ∀ j < d, replaceWith[j]? = needle[j]?)
    (hneedle : ∀ j, j + d < needle.length → needle[j + d]? = needle[j]?)
    (hreplace : ∀ j, j + d < needle.length →
      replaceWith[j + d]? = replaceWith[j]?) :
    replaceWith = needle := by
  apply List.ext_getElem?
  intro i
  induction i using Nat.strong_induction_on with
  | h i ih =>
      by_cases hi : i < d
      · exact hstart i hi
      · have hback : i = i - d + d := by omega
        by_cases hin : i < needle.length
        · rw [hback, hreplace _ (by omega), hneedle _ (by omega)]
          exact ih (i - d) (by omega)
        · rw [List.getElem?_eq_none (by omega),
            List.getElem?_eq_none (by omega)]

/-- A match further left than the place that was meant, or behind it,
spoils the text, unless the replacement is the needle. -/
theorem eq_of_replaceAll_eq_overwrite (hneedle : needle ≠ []) {p q : Nat}
    (hplace : needle <+: packet.drop p)
    (hq : q ∈ findIter needle 0 0 packet)
    (hother : q < p ∨ p + needle.length ≤ q)
    (hsame : replaceAll needle replaceWith packet
      = overwrite packet replaceWith p) :
    replaceWith = needle := by
  have hpos := List.length_pos_iff.mpr hneedle
  have hroom : p + replaceWith.length ≤ packet.length := by
    have := hplace.length_le
    rw [List.length_drop] at this
    omega
  have hfound : needle <+: packet.drop q := (findIter_sound hq).2
  -- under the match the overwritten text is the replacement too
  have hunder : ∀ j < needle.length,
      (overwrite packet replaceWith p)[q + j]? = replaceWith[j]? := by
    intro j hj
    rw [← hsame, getElem?_replaceAll_of_match hlen hneedle hq (by omega)
      (by omega), Nat.add_sub_cancel_left]
  have hneedleAt : ∀ j < needle.length, packet[q + j]? = needle[j]? := by
    intro j hj
    rw [getElem?_of_isPrefix_drop hfound (by omega) (by omega),
      Nat.add_sub_cancel_left]
  by_cases hapart : q + needle.length ≤ p ∨ p + needle.length ≤ q
  · -- and it is the text as it was, which there is the needle
    apply List.ext_getElem?
    intro j
    by_cases hj : j < needle.length
    · rw [← hunder j hj, getElem?_overwrite_of_none hroom (by omega),
        hneedleAt j hj]
    · rw [List.getElem?_eq_none (by omega),
        List.getElem?_eq_none (by omega)]
  · -- the place starts `d` bytes into the match
    obtain ⟨d, hd, hp⟩ : ∃ d, 0 < d ∧ p = q + d := ⟨p - q, by omega,
      by omega⟩
    subst hp
    refine eq_of_shifted hlen hd ?_ ?_ ?_
    · intro j hj
      rw [← hunder j (by omega),
        getElem?_overwrite_of_none hroom (by omega),
        hneedleAt j (by omega)]
    · intro j hj
      rw [← hneedleAt (j + d) hj,
        getElem?_of_isPrefix_drop hplace (by omega) (by omega)]
      congr 1
      omega
    · intro j hj
      rw [← hunder (j + d) hj,
        getElem?_overwrite_of_match hroom (by omega) (by omega)]
      congr 1
      omega

/-- Searching for the needle and replacing it everywhere is overwriting
one place of it just when that is the place the search reports, or the
replacement is the needle. -/
theorem replaceAll_eq_overwrite_iff (hneedle : needle ≠ []) {p : Nat}
    (hplace : needle <+: packet.drop p) :
    replaceAll needle replaceWith packet = overwrite packet replaceWith p
      ↔ replaceWith = needle ∨ findIter needle 0 0 packet = [p] := by
  constructor
  · intro hsame
    by_cases heq : replaceWith = needle
    · exact Or.inl heq
    right
    have hnone : ∀ q ∈ findIter needle 0 0 packet,
        ¬ (q < p ∨ p + needle.length ≤ q) := fun q hq hother =>
      heq (eq_of_replaceAll_eq_overwrite hlen hneedle hplace hq hother hsame)
    -- nothing is reported further left, so the place is reported
    have hmem : p ∈ findIter needle 0 0 packet :=
      mem_findIter hneedle (Nat.zero_le _) hplace fun q hq hlt =>
        absurd (Or.inl hlt) (hnone q hq)
    have hapart := findIter_apart hneedle packet 0 0
    have hpos := List.length_pos_iff.mpr hneedle
    obtain ⟨before, after, hsplit⟩ := List.append_of_mem hmem
    rw [hsplit] at hnone hapart ⊢
    have hbefore : before = [] := by
      refine List.eq_nil_iff_forall_not_mem.mpr fun q hq => ?_
      have hle := (List.pairwise_append.mp hapart).2.2 q hq p
        (List.mem_cons_self ..)
      exact hnone q (List.mem_append_left _ hq) (Or.inl (by omega))
    have hafter : after = [] := by
      refine List.eq_nil_iff_forall_not_mem.mpr fun q hq => ?_
      have hle := List.rel_of_pairwise_cons
        (List.pairwise_append.mp hapart).2.1 hq
      exact hnone q (List.mem_append_right _ (List.mem_cons_of_mem _ hq))
        (Or.inr hle)
    rw [hbefore, hafter]
    rfl
  · intro h
    rcases h with rfl | hone
    · rw [replaceAll_self hneedle, overwrite_self hplace]
    · rw [replaceAll, hone]
      rfl

end OnePlace

end FactoryCacher
