/-
The chunker: where it cuts, and that the rolling hash is the hash of the
window.

# The hash

`windowHash` is the hash as one would compute it from scratch: the last
32 bytes, each with a power of the multiplier that grows with its age.
The rolling hash agrees with it whatever it was fed since the last reset
(`Fed.feed`). The invariant (`Fed`) is about all three fields: the
window holds the latest terms, the position is the slot of the oldest,
and the hash is that of the window, over the ring of `u32`. What an
update takes away is the oldest term, or zero before the window is full.

# The cuts

Whether a chunk ends depends on its own bytes (`chunkEnds`), so the
chunker is an instance of Lib/Segments.lean (`chunksOf_eq_segments`). In
terms of the hash of the window: a chunk of the data that is left ends
at the first `n` past the minimum where the data may be cut (`Cut`), or
takes all of it (`ChunkEnd`).
-/
import FactoryCacher.Lib.RollingHash
import FactoryCacher.Lib.Segments
import FactoryCacher.Common.Chunker
import Mathlib.Data.UInt

namespace FactoryCacher

open Segments
open scoped UInt32.CommRing

-- ================================================================= the hash

/-- The hash of the last 32 bytes, computed directly: the newest byte
has age 0. -/
def windowHash (bytes : Bytes) : Nat :=
  ((bytes.reverse.take 32).zipIdx.map fun (byte, age) =>
    (byte.toNat + 31) * 0x08104225 ^ (age + 1)).sum % 2 ^ 32

/-- The term of a byte. -/
def hashTerm (byte : UInt8) : UInt32 := byte.toUInt32 + hashOffset

theorem hashTerm_toNat (byte : UInt8) :
    (hashTerm byte).toNat = byte.toNat + 31 := by
  have hlt := byte.toNat_lt
  unfold hashTerm hashOffset
  rw [UInt32.toNat_add, UInt8.toNat_toUInt32]
  show (byte.toNat + 31) % 2 ^ 32 = _
  omega

theorem wrappingPow_eq (x : UInt32) (n : Nat) : wrappingPow x n = x ^ n := by
  induction n with
  | zero => rw [wrappingPow, pow_zero]
  | succ n ih => rw [wrappingPow, ih, pow_succ]

/-- On `u32` the hash is the one on numbers, modulo the width. -/
theorem polyHash_toNat (m : UInt32) (xs : List UInt32) :
    (polyHash m xs).toNat
      = polyHash m.toNat (xs.map UInt32.toNat) % 2 ^ 32 := by
  induction xs with
  | nil => rfl
  | cons a xs ih =>
      simp only [polyHash, List.map_cons, UInt32.toNat_mul,
        UInt32.toNat_add, ih]
      rw [Nat.mod_mul_mod, ← Nat.mod_mul_mod (a.toNat + _ % _),
        Nat.add_mod_mod, Nat.mod_mul_mod]

theorem windowHash_eq (bytes : Bytes) :
    windowHash bytes
      = (polyHash hashMult ((bytes.reverse.map hashTerm).take 32)).toNat := by
  have hsum := polyHash_eq_sum hashMult.toNat
    ((bytes.reverse.take 32).map fun b => b.toNat + 31) 0
  rw [pow_zero, mul_one] at hsum
  have hterms : ((bytes.reverse.map hashTerm).take 32).map UInt32.toNat
      = (bytes.reverse.take 32).map fun b => b.toNat + 31 := by
    rw [← List.map_take, List.map_map]
    exact List.map_congr_left fun b _ => hashTerm_toNat b
  rw [polyHash_toNat, hterms, hsum, List.zipIdx_map, List.map_map]
  rfl

/-- A rolling hash that was fed `bytes` since it was reset. -/
structure Fed (h : RabinKarpHash) (bytes : Bytes) : Prop where
  hash : h.hash = polyHash hashMult ((bytes.reverse.map hashTerm).take 32)
  window : Latest h.window h.windowPos (bytes.reverse.map hashTerm) 0

theorem fed_new : Fed RabinKarpHash.new [] where
  hash := rfl
  window := latest_replicate 0

/-- One more byte. -/
theorem Fed.update {h : RabinKarpHash} {bytes : Bytes} (hfed : Fed h bytes)
    (byte : UInt8) : Fed (h.update byte) (bytes ++ [byte]) := by
  have hpos := h.windowPos.isLt
  have hterms : (bytes ++ [byte]).reverse.map hashTerm
      = hashTerm byte :: bytes.reverse.map hashTerm := by
    rw [List.reverse_append, List.reverse_singleton, List.singleton_append,
      List.map_cons]
  have hremoved : h.window.get h.windowPos
      = (bytes.reverse.map hashTerm).getD (32 - 1) 0 :=
    hfed.window.oldest hpos
  constructor
  case hash =>
    rw [hterms, polyHash_slide _ _ _ (by decide), ← hremoved, ← hfed.hash,
      ← wrappingPow_eq]
    show (h.hash + hashTerm byte) * hashMult - _ = _
    rw [add_comm h.hash]
    rfl
  case window =>
    rw [hterms]
    exact hfed.window.push hpos (hashTerm byte)

/-- Any bytes. -/
theorem Fed.feed {h : RabinKarpHash} {bytes : Bytes} (hfed : Fed h bytes)
    (more : Bytes) :
    Fed (more.foldl RabinKarpHash.update h) (bytes ++ more) := by
  induction more generalizing h bytes with
  | nil => rwa [List.append_nil]
  | cons byte more ih =>
      have hrest := ih (hfed.update byte)
      rwa [List.append_assoc, List.singleton_append] at hrest

theorem Fed.hash_toNat {h : RabinKarpHash} {bytes : Bytes}
    (hfed : Fed h bytes) : h.hash.toNat = windowHash bytes := by
  rw [hfed.hash, windowHash_eq]

/-- The mask picks the low eleven bits. -/
theorem and_chunkMask_eq_zero (hash : UInt32) :
    hash &&& chunkMask = 0 ↔ hash.toNat % 2048 = 0 := by
  have hand : (hash &&& chunkMask).toNat = hash.toNat % 2048 := by
    rw [UInt32.toNat_and]
    exact Nat.and_two_pow_sub_one_eq_mod hash.toNat 11
  rw [← UInt32.toNat_inj, hand]
  rfl

-- ============================================================== the chunker

/-- Whether a chunk ends behind `seen`, which is all of it so far. -/
def chunkEnds (seen : Bytes) : Bool :=
  decide (minChunkSize < seen.length)
    && (decide (((seen.drop minChunkSize).foldl RabinKarpHash.update
          RabinKarpHash.new).hash &&& chunkMask = 0)
      || decide (maxChunkSize ≤ seen.length))

/-- Where the scan stops: at the first byte behind which the hash or the
size closes the chunk, or at the end. -/
theorem scan_spec (h : RabinKarpHash) (chunkSize : Nat) (rest : Bytes) :
    ∃ n, (Chunker.scan h chunkSize rest).2 = chunkSize + n ∧ n ≤ rest.length
      ∧ (∀ k, 0 < k → k < n →
          ¬ (((rest.take k).foldl RabinKarpHash.update h).hash &&& chunkMask
            = 0 ∨ chunkSize + k ≥ maxChunkSize))
      ∧ (n < rest.length → 0 < n
          ∧ (((rest.take n).foldl RabinKarpHash.update h).hash &&& chunkMask
            = 0 ∨ chunkSize + n ≥ maxChunkSize)) := by
  induction rest generalizing h chunkSize with
  | nil =>
      exact ⟨0, rfl, Nat.le_refl _, fun k hk hlt => absurd hlt (by omega),
        fun hlt => absurd hlt (Nat.lt_irrefl _)⟩
  | cons byte rest ih =>
      rw [Chunker.scan]
      split
      case isTrue hends =>
        exact ⟨1, rfl, by simp, fun k hk hlt => absurd hlt (by omega),
          fun _ => ⟨Nat.one_pos, hends⟩⟩
      case isFalse hgoes =>
        obtain ⟨n, hn, hle, hearlier, hstop⟩ :=
          ih (h.update byte) (chunkSize + 1)
        refine ⟨n + 1, by rw [hn]; omega, by simpa using hle, ?_, ?_⟩
        · intro k hk hlt
          obtain ⟨k, rfl⟩ : ∃ j, k = j + 1 := ⟨k - 1, by omega⟩
          rw [List.take_succ_cons, List.foldl_cons]
          by_cases hzero : k = 0
          · subst hzero
            exact hgoes
          · have hk' := hearlier k (by omega) (by omega)
            rwa [show chunkSize + (k + 1) = chunkSize + 1 + k by omega]
        · intro hlt
          rw [List.take_succ_cons, List.foldl_cons,
            show chunkSize + (n + 1) = chunkSize + 1 + n by omega]
          exact ⟨Nat.succ_pos n, (hstop (by simpa using hlt)).2⟩

/-- Up to the minimum a chunk does not end. -/
theorem chunkEnds_of_short {seen : Bytes} (h : seen.length ≤ minChunkSize) :
    chunkEnds seen = false := by
  rw [chunkEnds, decide_eq_false (Nat.not_lt.mpr h), Bool.false_and]

/-- Past it, the bytes behind the minimum decide. -/
theorem chunkEnds_take {data : Bytes} {k : Nat}
    (hk : 0 < k) (hle : minChunkSize + k ≤ data.length) :
    chunkEnds (data.take (minChunkSize + k)) = true
      ↔ ((((data.drop minChunkSize).take k).foldl RabinKarpHash.update
          RabinKarpHash.new).hash &&& chunkMask = 0
        ∨ minChunkSize + k ≥ maxChunkSize) := by
  have hlen : (data.take (minChunkSize + k)).length = minChunkSize + k :=
    List.length_take_of_le hle
  have hdrop : (data.take (minChunkSize + k)).drop minChunkSize
      = (data.drop minChunkSize).take k := by
    rw [List.drop_take, Nat.add_sub_cancel_left]
  rw [chunkEnds, hlen, hdrop, decide_eq_true (by omega), Bool.true_and,
    Bool.or_eq_true, decide_eq_true_iff, decide_eq_true_iff]

/-- The first chunk. -/
theorem scanData_spec {data : Bytes} (hne : data ≠ []) {n : Nat}
    (hn : (Chunker.new data).scanData.2 = n) :
    0 < n ∧ n ≤ data.length
      ∧ (∀ k, 0 < k → k < n → chunkEnds (data.take k) = false)
      ∧ (n < data.length → chunkEnds (data.take n) = true) := by
  have hpos : 0 < n := hn ▸ Chunker.scanData_pos hne
  obtain ⟨m, hm, hle, hearlier, hstop⟩ := scan_spec RabinKarpHash.new
    (min minChunkSize data.length)
    (data.drop (min minChunkSize data.length))
  have hsize : n = min minChunkSize data.length + m := hn.symm.trans hm
  rw [List.length_drop] at hle hstop
  rcases Nat.le_total data.length minChunkSize with hshort | hlong
  · -- the scan has nothing to do
    rw [Nat.min_eq_right hshort] at hsize hle
    have hall : n = data.length := by omega
    refine ⟨hpos, by omega, ?_, by omega⟩
    intro k _ hk
    refine chunkEnds_of_short ?_
    rw [List.length_take]
    omega
  · rw [Nat.min_eq_left hlong] at hsize hle hearlier hstop
    refine ⟨hpos, by omega, ?_, ?_⟩
    · intro k _ hk
      by_cases hmin : k ≤ minChunkSize
      · refine chunkEnds_of_short ?_
        rw [List.length_take]
        omega
      · obtain ⟨j, rfl⟩ : ∃ j, k = minChunkSize + j :=
          ⟨k - minChunkSize, by omega⟩
        rw [Bool.eq_false_iff, Ne, chunkEnds_take (by omega) (by omega)]
        exact hearlier j (by omega) (by omega)
    · intro hlt
      obtain ⟨hmpos, hends⟩ := hstop (by omega)
      rw [hsize, chunkEnds_take hmpos (by omega)]
      exact hends

theorem chunksOf_cons {data : Bytes} (hne : data ≠ []) :
    chunksOf data = data.take (Chunker.new data).scanData.2
      :: chunksOf (data.drop (Chunker.new data).scanData.2) := by
  have hnext : (Chunker.new data).next
      = some (data.take (Chunker.new data).scanData.2,
          Chunker.new (data.drop (Chunker.new data).scanData.2)) := by
    have hemp : data.isEmpty = false := by simpa using hne
    rw [Chunker.next]
    simp only [Chunker.new, hemp]
    rfl
  exact Chunker.collect_of_some hnext

/-- The chunker cuts the data where `chunkEnds` says. -/
theorem chunksOf_eq_segments (data : Bytes) :
    chunksOf data = segments chunkEnds data := by
  induction hlen : data.length using Nat.strong_induction_on
    generalizing data with
  | _ n ih =>
      by_cases hne : data = []
      · subst hne
        rw [segments_nil]
        exact Chunker.collect_of_none rfl
      · obtain ⟨hpos, hle, hearlier, hstop⟩ := scanData_spec hne rfl
        rw [chunksOf_cons hne, segments_eq_cons hpos hle hearlier hstop]
        rw [ih _ _ _ rfl]
        rw [List.length_drop]
        omega

-- ================================================================= the cuts

/-- The data may be cut at `n`. -/
def Cut (data : Bytes) (n : Nat) : Prop :=
  513 ≤ n ∧ n ≤ data.length
    ∧ (n = 4096 ∨ windowHash ((data.take n).drop 512) % 2048 = 0)

/-- Where the first chunk of the data ends: at the first cut, or with
the data. -/
def ChunkEnd (data : Bytes) (n : Nat) : Prop :=
  (Cut data n ∧ ∀ k < n, ¬ Cut data k)
    ∨ ((∀ k, ¬ Cut data k) ∧ n = data.length)

/-- Up to the maximum, a chunk ends where the data may be cut. -/
theorem cut_iff_chunkEnds {data : Bytes} {k : Nat} (hlen : k ≤ data.length)
    (hmax : k ≤ 4096) :
    Cut data k ↔ chunkEnds (data.take k) = true := by
  have hhash := (fed_new.feed ((data.take k).drop minChunkSize)).hash_toNat
  rw [List.nil_append] at hhash
  unfold Cut chunkEnds
  rw [Bool.and_eq_true, Bool.or_eq_true, decide_eq_true_iff,
    decide_eq_true_iff, decide_eq_true_iff, and_chunkMask_eq_zero, hhash,
    List.length_take_of_le hlen]
  show _ ↔ 512 < k ∧ (windowHash ((data.take k).drop 512) % 2048 = 0
    ∨ 4096 ≤ k)
  constructor
  · intro hcut
    refine ⟨hcut.1, ?_⟩
    rcases hcut.2.2 with hend | hhash
    · exact Or.inr hend.ge
    · exact Or.inl hhash
  · intro hends
    refine ⟨hends.1, hlen, ?_⟩
    rcases hends.2 with hhash | hend
    · exact Or.inr hhash
    · exact Or.inl (le_antisymm hmax hend)

/-- The first chunk ends where it should, and is not too long. -/
theorem chunkEnd_first {data : Bytes} (hne : data ≠ []) {n : Nat}
    (hn : (Chunker.new data).scanData.2 = n) :
    ChunkEnd data n ∧ 0 < n ∧ n ≤ 4096 ∧ n ≤ data.length := by
  obtain ⟨hpos, hlen, hearlier, hstop⟩ := scanData_spec hne hn
  -- at 4096 it would have ended
  have hmax : n ≤ 4096 := by
    by_contra hgt
    have hgoes := hearlier 4096 (by omega) (by omega)
    have hcut : Cut data 4096 := ⟨by omega, by omega, Or.inl rfl⟩
    rw [(cut_iff_chunkEnds (by omega) (Nat.le_refl _)).1 hcut] at hgoes
    cases hgoes
  have hnone : ∀ k < n, ¬ Cut data k := by
    intro k hk hcut
    have hlow := hcut.1
    have hgoes := hearlier k (by omega) hk
    rw [(cut_iff_chunkEnds (by omega) (by omega)).1 hcut] at hgoes
    cases hgoes
  refine ⟨?_, hpos, hmax, hlen⟩
  by_cases hcut : Cut data n
  · exact Or.inl ⟨hcut, hnone⟩
  · have hall : n = data.length := by
      by_contra hmore
      exact hcut ((cut_iff_chunkEnds hlen hmax).2 (hstop (by omega)))
    refine Or.inr ⟨?_, hall⟩
    intro k hk
    by_cases hlt : k < n
    · exact hnone k hlt hk
    · have hle := hk.2.1
      rw [show n = k by omega] at hcut
      exact hcut hk

/-- Every chunk ends where it should, seen from the data that is left
when it begins. -/
theorem chunkEnd_of_chunksOf {data : Bytes} {before after : List Bytes}
    {chunk : Bytes} (h : chunksOf data = before ++ chunk :: after) :
    ChunkEnd (chunk ++ after.flatten) chunk.length
    ∧ chunk ≠ [] ∧ chunk.length ≤ 4096 := by
  induction before generalizing data with
  | nil =>
      have hne : data ≠ [] := by
        intro hnil
        rw [hnil, chunksOf, Chunker.collect_of_none rfl] at h
        cases h
      obtain ⟨hend, hpos, hmax, hlen⟩ := chunkEnd_first hne rfl
      rw [chunksOf_cons hne, List.nil_append] at h
      injection h with hchunk hafter
      have hsize : chunk.length = (Chunker.new data).scanData.2 := by
        rw [← hchunk, List.length_take_of_le hlen]
      have hdata : chunk ++ after.flatten = data := by
        rw [← hchunk, ← hafter, flatten_chunksOf, List.take_append_drop]
      refine ⟨by rwa [hdata, hsize], ?_, by omega⟩
      exact List.ne_nil_of_length_pos (by omega)
  | cons first before ih =>
      have hne : data ≠ [] := by
        intro hnil
        rw [hnil, chunksOf, Chunker.collect_of_none rfl] at h
        cases h
      rw [chunksOf_cons hne, List.cons_append] at h
      injection h with _ hafter
      exact ih hafter

/-- A chunk that ends before the data does has more than the minimum. -/
theorem ChunkEnd.le_of_more {data : Bytes} {n : Nat} (h : ChunkEnd data n)
    (hmore : n ≠ data.length) : 513 ≤ n := by
  rcases h with ⟨hcut, -⟩ | ⟨-, hall⟩
  · exact hcut.1
  · exact absurd hall hmore

-- ============================================================ the statement

/-- For all data: the chunks make up the data; none is empty or longer
than 4096 bytes, and only the last may be shorter than 513; each ends at
the first cut of the data that is left when it begins; and the rolling
hash, new or reset, is the hash of the window, whatever it is fed. -/
theorem chunker_spec (data : Bytes) :
    (chunksOf data).flatten = data
    ∧ (∀ chunk ∈ chunksOf data, chunk ≠ [] ∧ chunk.length ≤ 4096)
    ∧ (∀ chunk ∈ (chunksOf data).dropLast, 513 ≤ chunk.length)
    ∧ (∀ before chunk after, chunksOf data = before ++ chunk :: after →
      ChunkEnd (chunk ++ after.flatten) chunk.length)
    ∧ ∀ (used : RabinKarpHash) (fed : Bytes),
      (fed.foldl RabinKarpHash.update .new).hash.toNat = windowHash fed
      ∧ (fed.foldl RabinKarpHash.update used.reset).hash.toNat
        = windowHash fed := by
  refine ⟨flatten_chunksOf data, ?_, ?_, ?_, ?_⟩
  · intro chunk hchunk
    obtain ⟨before, after, hsplit⟩ := List.append_of_mem hchunk
    exact (chunkEnd_of_chunksOf hsplit).2
  · intro chunk hchunk
    obtain ⟨before, after, hinit⟩ := List.append_of_mem hchunk
    have hne : chunksOf data ≠ [] := by
      intro hnil
      rw [hnil] at hchunk
      cases hchunk
    have hsplit : chunksOf data = before ++ chunk
        :: (after ++ [(chunksOf data).getLast hne]) := by
      conv_lhs => rw [← List.dropLast_append_getLast hne, hinit]
      simp
    have hlast : (chunksOf data).getLast hne ≠ [] := by
      obtain ⟨b, a, hlast⟩ := List.append_of_mem (List.getLast_mem hne)
      exact (chunkEnd_of_chunksOf hlast).2.1
    refine (chunkEnd_of_chunksOf hsplit).1.le_of_more ?_
    have hpos := List.length_pos_iff.2 hlast
    simp only [List.length_append, List.flatten_append,
      List.flatten_singleton]
    omega
  · intro before chunk after hsplit
    exact (chunkEnd_of_chunksOf hsplit).1
  · intro used fed
    have hhash := (fed_new.feed fed).hash_toNat
    rw [List.nil_append] at hhash
    -- a reset hash is a new one
    exact ⟨hhash, hhash⟩

end FactoryCacher
