/-
A cache that is saved and loaded again.

Loading inserts the entries of the file one by one, and every insertion
evicts what does not fit any more. After any number of entries the cache
holds the longest suffix of them that fits (`LongestSuffix` of
Lib/Lru.lean). Nothing wraps: fewer than 2^32 chunks of at most 20,000,000
bytes are less than 2^64 bytes.

That the saved cache is the longest suffix of itself, and so comes back
whole under its own limit, is a property of the caches that `insert` and
`get` can make (`Reached`).
-/
import FactoryCacher.Common.Proofs.CacheOps

namespace FactoryCacher

-- ===================================================== what insertion leaves

namespace RawChunkCache

variable {c c' : RawChunkCache} {key : ChunkKey} {chunk : Bytes}

/-- The eviction loop ends at or under the limit. -/
theorem evictLoop_le {maxSize totalSize totalSize' : UInt64} {turns : Nat}
    {chunks chunks' : LinkedMap ChunkKey Bytes}
    (h : evictLoop maxSize turns chunks totalSize
      = some (chunks', totalSize')) : totalSize' ≤ maxSize := by
  induction turns generalizing chunks totalSize with
  | zero =>
      rw [evictLoop] at h
      split at h
      case isTrue => cases h
      case isFalse hle =>
        cases h
        exact UInt64.not_lt.mp hle
  | succ turns ih =>
      rw [evictLoop] at h
      split at h
      case isTrue =>
        split at h
        case h_1 => cases h
        case h_2 => exact ih h
      case isFalse hle =>
        cases h
        exact UInt64.not_lt.mp hle

/-- And so does an insertion. -/
theorem insert_le (h : c.insert key chunk = some c') :
    c'.totalSize ≤ c'.maxSize := by
  rw [insert] at h
  split at h
  case h_1 old chunks hinsert =>
    split at h
    case h_1 => cases h
    case h_2 hloop =>
      cases h
      exact evictLoop_le hloop

/-- Nothing wraps in a cache of this size. -/
theorem Sized.toNat_eq (h : c.Sized)
    (hbytes : bytesIn c.chunks.entries < 2 ^ 64) :
    c.totalSize.toNat = bytesIn c.chunks.entries := by
  rw [h]
  exact UInt64.toNat_ofNat_of_lt' hbytes

/-- A cache is its entries and its limit. -/
theorem Sized.ext (h' : c'.Sized) (h : c.Sized)
    (hentries : c'.chunks.entries = c.chunks.entries)
    (hmax : c'.maxSize = c.maxSize) : c' = c := by
  have htotal : c'.totalSize = c.totalSize := by rw [h', h, hentries]
  obtain ⟨⟨entries', _⟩, total', max'⟩ := c'
  obtain ⟨⟨entries, _⟩, total, max⟩ := c
  simp_all

/-- The caches that can come about. -/
inductive Reached : RawChunkCache → Prop
  | new (maxSize : UInt64) : Reached (RawChunkCache.new maxSize)
  | insert {c c' : RawChunkCache} {key : ChunkKey} {chunk : Bytes}
      (h : Reached c) (hinsert : c.insert key chunk = some c') : Reached c'
  | get {c : RawChunkCache} (h : Reached c) (key : ChunkKey) :
      Reached (c.get key).2

/-- Their total size is right and not over the limit. -/
theorem Reached.sized_le (h : Reached c) :
    c.Sized ∧ c.totalSize ≤ c.maxSize := by
  induction h with
  | new maxSize =>
      exact ⟨sized_new maxSize, UInt64.le_iff_toNat_le.mpr (Nat.zero_le _)⟩
  | @insert c c' key chunk _ hinsert ih =>
      obtain ⟨c₁, hc₁, hinserted⟩ := insert_spec ih.1 key chunk
      rw [hinsert] at hc₁
      cases hc₁
      exact ⟨hinserted.sized, insert_le hinsert⟩
  | @get c _ key ih =>
      have hre := reordered_get c key
      refine ⟨hre.sized ih.1, ?_⟩
      rw [hre.totalSize, hre.maxSize]
      exact ih.2

end RawChunkCache

-- ================================================================= loading

/-- The bytes of the entries of a file. -/
theorem bytesIn_le {entries : List (ChunkKey × Bytes)}
    (h : ∀ e ∈ entries, e.2.length ≤ cachedChunkLimit) :
    bytesIn entries ≤ entries.length * cachedChunkLimit := by
  induction entries with
  | nil => exact Nat.zero_le _
  | cons e entries ih =>
      obtain ⟨he, hentries⟩ := List.forall_mem_cons.mp h
      have := ih hentries
      rw [bytesIn_cons, List.length_cons, Nat.succ_mul]
      omega

theorem writeCacheEntry_eq {e : ChunkKey × Bytes}
    (hlen : e.2.length ≤ cachedChunkLimit) :
    writeCacheEntry e = some (e.1.bytes
      ++ putU32Le (UInt32.ofNat e.2.length) ++ e.2) := by
  unfold cachedChunkLimit at hlen
  exact if_pos (by omega)

/-- An entry that was written is read. -/
theorem readCacheEntry_append {e : ChunkKey × Bytes}
    (hlen : e.2.length ≤ cachedChunkLimit) (rest : Bytes) :
    readCacheEntry (e.1.bytes ++ putU32Le (UInt32.ofNat e.2.length) ++ e.2
      ++ rest) = .ok (e, rest) := by
  have hofNat : (UInt32.ofNat e.2.length).toNat = e.2.length := by
    unfold cachedChunkLimit at hlen
    rw [UInt32.toNat_ofNat']
    exact Nat.mod_eq_of_lt (by omega)
  simp only [readCacheEntry, List.append_assoc, run_tryGetKey_append,
    run_tryGetU32Le_append, hofNat, run_tryTake_append]
  rw [if_neg (by omega)]

namespace RawChunkCache

variable {c : RawChunkCache} {seen : List (ChunkKey × Bytes)}
  {e : ChunkKey × Bytes}

/-- Inserting a new entry keeps the longest suffix that fits. -/
theorem insert_longest (hsized : c.Sized)
    (hseen : Lru.LongestSuffix List.length c.maxSize.toNat seen
      c.chunks.entries)
    (hnew : e.1 ∉ seen.map Prod.fst)
    (hbytes : bytesIn (seen ++ [e]) < 2 ^ 64) :
    ∃ c', c.insert e.1 e.2 = some c' ∧ c'.Sized ∧ c'.maxSize = c.maxSize
      ∧ Lru.LongestSuffix List.length c.maxSize.toNat (seen ++ [e])
        c'.chunks.entries := by
  obtain ⟨c', hinsert, hinserted⟩ := insert_spec hsized e.1 e.2
  have hkey : e.1 ∉ c.chunks.keys := by
    intro hmem
    obtain ⟨e', he', heq⟩ := List.mem_map.mp hmem
    exact hnew (heq ▸ List.mem_map_of_mem (hseen.suffix.mem he'))
  have hentries : (c.chunks.putBack e.1 e.2).entries
      = c.chunks.entries ++ [e] := by
    rw [LinkedMap.entries_putBack, LinkedMap.others_of_not_mem hkey]
  have hsuffix := hinserted.subset
  have hkeeps := hinserted.keeps
  rw [hentries] at hsuffix hkeeps
  have hfits : bytesIn c'.chunks.entries ≤ c.maxSize.toNat := by
    have hall : bytesIn c'.chunks.entries ≤ bytesIn (seen ++ [e]) := by
      have hc' := bytesIn_suffix hsuffix
      have hc := bytesIn_suffix hseen.suffix
      rw [bytesIn_append] at hc' ⊢
      omega
    have hle := UInt64.le_iff_toNat_le.mp (insert_le hinsert)
    rwa [hinserted.sized.toNat_eq (by omega), hinserted.maxSize] at hle
  exact ⟨c', hinsert, hinserted.sized, hinserted.maxSize,
    hseen.snoc ⟨hsuffix, hfits, hkeeps⟩⟩

end RawChunkCache

/-- The entries of a file behind those already read. -/
theorem readCacheEntries_write {blake3 : Bytes → ChunkKey}
    {entries seen : List (ChunkKey × Bytes)} {c : RawChunkCache}
    (hsized : c.Sized)
    (hseen : Lru.LongestSuffix List.length c.maxSize.toNat seen
      c.chunks.entries)
    (hnodup : ((seen ++ entries).map Prod.fst).Nodup)
    (hbytes : bytesIn (seen ++ entries) < 2 ^ 64)
    (hintact : ∀ e ∈ entries, blake3 e.2 = e.1)
    (hlen : ∀ e ∈ entries, e.2.length ≤ cachedChunkLimit) :
    ∃ contents c', writeCacheEntries entries = some contents
      ∧ readCacheEntries blake3 entries.length contents c = .ok c'
      ∧ c'.Sized ∧ c'.maxSize = c.maxSize
      ∧ Lru.LongestSuffix List.length c.maxSize.toNat (seen ++ entries)
          c'.chunks.entries := by
  induction entries generalizing seen c with
  | nil =>
      refine ⟨[], c, rfl, rfl, hsized, rfl, ?_⟩
      rwa [List.append_nil]
  | cons e entries ih =>
      obtain ⟨he, hintact⟩ := List.forall_mem_cons.mp hintact
      obtain ⟨hshort, hlen⟩ := List.forall_mem_cons.mp hlen
      have hcons : seen ++ e :: entries = (seen ++ [e]) ++ entries := by
        rw [List.append_assoc, List.singleton_append]
      rw [hcons] at hnodup hbytes ⊢
      have hnew : e.1 ∉ seen.map Prod.fst := by
        rw [List.map_append, List.map_append] at hnodup
        have hdisjoint := List.disjoint_of_nodup_append
          (List.Nodup.of_append_left hnodup)
        exact fun hmem => hdisjoint hmem (List.mem_singleton_self _)
      have hfirst : bytesIn (seen ++ [e]) < 2 ^ 64 :=
        (bytesIn_append (seen ++ [e]) entries ▸ Nat.le_add_right _ _
          |>.trans_lt hbytes)
      obtain ⟨c₁, hinsert, hsized₁, hmax, hseen₁⟩ :=
        RawChunkCache.insert_longest hsized hseen hnew hfirst
      rw [← hmax] at hseen₁
      obtain ⟨contents, c', hwrite, hread, hc', hmax', hlongest⟩ :=
        ih hsized₁ hseen₁ hnodup hbytes hintact hlen
      refine ⟨e.1.bytes ++ putU32Le (UInt32.ofNat e.2.length) ++ e.2
        ++ contents, c', ?_, ?_, hc', hmax'.trans hmax, hmax ▸ hlongest⟩
      · rw [writeCacheEntries, writeCacheEntry_eq hshort, hwrite]
        rfl
      · rw [List.length_cons, readCacheEntries,
          readCacheEntry_append hshort]
        dsimp only
        rw [if_pos he, hinsert]
        exact hread

-- ============================================================ the statement

/-- Save a cache of fewer than 2^32 chunks of at most 20,000,000 bytes,
all under their hashes, and load it into an empty one: the longest suffix
of the entries that the new limit allows is there, in the old order, with
its total size. Under the limit it was saved with the cache is the same
again. -/
theorem cache_persistence {blake3 : Bytes → ChunkKey} {zstd : Zstd}
    (hzstd : zstd.Lossless) (compressionLevel : Int) {c : RawChunkCache}
    (hintact : c.Intact blake3)
    (hlen : ∀ e ∈ c.chunks.entries, e.2.length ≤ 20000000)
    (hcount : c.chunks.len < 2 ^ 32) (maxSize : UInt64) :
    ∃ file c', writeCacheFile zstd compressionLevel c = some file
      ∧ readCacheFile zstd blake3 file (.new maxSize) = .ok c'
      ∧ Lru.LongestSuffix List.length maxSize.toNat c.chunks.entries
        c'.chunks.entries
      ∧ c'.totalSize.toNat = bytesIn c'.chunks.entries
      ∧ c'.maxSize = maxSize
      ∧ (c.Reached → maxSize = c.maxSize → c' = c) := by
  have hbytes : bytesIn c.chunks.entries < 2 ^ 64 := by
    have hle := bytesIn_le hlen
    have hmul : c.chunks.entries.length * cachedChunkLimit
        ≤ 2 ^ 32 * cachedChunkLimit :=
      Nat.mul_le_mul_right _ (Nat.le_of_lt hcount)
    unfold cachedChunkLimit at hle hmul
    omega
  obtain ⟨contents, c', hwrite, hread, hsized, hmax, hlongest⟩ :=
    readCacheEntries_write (RawChunkCache.sized_new maxSize)
      Lru.LongestSuffix.nil c.chunks.nodup hbytes hintact hlen
  have hcontents : writeChunkCache c
      = some (putU32Le (UInt32.ofNat c.chunks.len) ++ contents) := by
    rw [writeChunkCache, if_pos hcount, hwrite]
    rfl
  have hofNat : (UInt32.ofNat c.chunks.len).toNat = c.chunks.len :=
    UInt32.toNat_ofNat_of_lt' hcount
  have hload : readChunkCache blake3
      (putU32Le (UInt32.ofNat c.chunks.len) ++ contents) (.new maxSize)
        = .ok c' := by
    simp only [readChunkCache, run_tryGetU32Le_append, hofNat]
    exact hread
  have hall : bytesIn c'.chunks.entries < 2 ^ 64 :=
    (bytesIn_suffix hlongest.suffix).trans_lt hbytes
  refine ⟨_, c', by rw [writeCacheFile, hcontents]; rfl, ?_, hlongest,
    hsized.toNat_eq hall, hmax, ?_⟩
  · rw [readCacheFile, hzstd]
    dsimp only
    rw [hload]
    rfl
  · rintro hreached rfl
    obtain ⟨hc, hle⟩ := hreached.sized_le
    rw [UInt64.le_iff_toNat_le, hc.toNat_eq hbytes] at hle
    exact hsized.ext hc (hlongest.eq_all hle) hmax

/-- A compression that keeps its input, behind a magic number. -/
def keptZstd : Zstd where
  encode _ contents := [0x28, 0xb5, 0x2f, 0xfd] ++ contents
  decode file :=
    if file.take 4 = [0x28, 0xb5, 0x2f, 0xfd] then some (file.drop 4)
    else none

/-- Two chunks, and room for no more. -/
def twoChunkCache : RawChunkCache where
  chunks := ⟨[(blake3Sample [0], [0]), (blake3Sample [0, 1], [0, 1])],
    by decide +kernel⟩
  totalSize := 3
  maxSize := 3

/-- Loaded with room for two bytes it has lost the older chunk; loaded
with room for three it is the same. -/
theorem cache_persistence_two_chunks :
    (∃ file c', writeCacheFile keptZstd 3 twoChunkCache = some file
      ∧ readCacheFile keptZstd blake3Sample file (.new 2) = .ok c'
      ∧ c'.chunks.entries = [(blake3Sample [0, 1], [0, 1])])
    ∧ ∃ file, writeCacheFile keptZstd 3 twoChunkCache = some file
      ∧ readCacheFile keptZstd blake3Sample file (.new 3)
        = .ok twoChunkCache := by
  have hzstd : keptZstd.Lossless := fun _ _ => rfl
  have hintact : twoChunkCache.Intact blake3Sample := by
    rintro e (_ | ⟨_, _ | ⟨_, ⟨⟩⟩⟩) <;> rfl
  have hlen : ∀ e ∈ twoChunkCache.chunks.entries, e.2.length ≤ 20000000 := by
    rintro e (_ | ⟨_, _ | ⟨_, ⟨⟩⟩⟩) <;> decide
  have hcount : twoChunkCache.chunks.len < 2 ^ 32 := by decide
  have hinserts : ∃ c, (RawChunkCache.new 3).insert (blake3Sample [0]) [0]
      = some c
      ∧ c.insert (blake3Sample [0, 1]) [0, 1] = some twoChunkCache :=
    ⟨_, rfl, rfl⟩
  obtain ⟨c, hfirst, hsecond⟩ := hinserts
  have hreached : twoChunkCache.Reached :=
    .insert (.insert (.new 3) hfirst) hsecond
  refine ⟨?_, ?_⟩
  · obtain ⟨file, c', hwrite, hread, hlongest, -⟩ :=
      cache_persistence hzstd 3 hintact hlen hcount 2
    refine ⟨file, c', hwrite, hread, ?_⟩
    have hnewer : [(blake3Sample [0, 1], [0, 1])] <:+ c'.chunks.entries :=
      hlongest.longest _ (List.suffix_cons _ _) (by decide)
    rcases List.suffix_cons_iff.mp hlongest.suffix with hboth | hsuffix
    · have hfits := hlongest.fits
      rw [hboth] at hfits
      exact absurd hfits (by decide)
    · exact hsuffix.eq_of_length_le hnewer.length_le
  · obtain ⟨file, c', hwrite, hread, -, -, -, hsame⟩ :=
      cache_persistence hzstd 3 hintact hlen hcount 3
    cases hsame hreached rfl
    exact ⟨file, hwrite, hread⟩

end FactoryCacher
