/-
The raw cache is a least-recently-used store, and its counter is exact.

`RawChunkCache` keeps its total size on `u64` and changes it in three
places. `Exact` says it is the size of the entries, as a number, and not
over the limit. An insertion starts from there, so the size in between
is at most the limit and one chunk more, which fits a `u64`: nothing
wraps, the chunk replaced is part of what is subtracted from, and the
eviction loop ends before the map is empty. That nothing wraps is said
of a second version of `insert`, in which every addition and subtraction
is checked (`insertChecked`); it does what `insert` does.

What is left afterwards is compared with Lib/Lru.lean, call by call
(`Machine.run_simulates`).
-/
import FactoryCacher.Lib.Lru
import FactoryCacher.Common.Proofs.CachePersistence

namespace FactoryCacher

-- ======================================================= checked arithmetic

/-- `+` with an overflow check. -/
def checkedAdd (a b : UInt64) : Option UInt64 :=
  if a.toNat + b.toNat < 2 ^ 64 then some (a + b) else none

/-- `-` with an overflow check. -/
def checkedSub (a b : UInt64) : Option UInt64 :=
  if b ≤ a then some (a - b) else none

namespace RawChunkCache

/-- The eviction loop of `insert`, checked. -/
def evictLoopChecked (maxSize : UInt64) :
    Nat → LinkedMap ChunkKey Bytes → UInt64 →
    Option (LinkedMap ChunkKey Bytes × UInt64)
  | 0, chunks, totalSize =>
      if totalSize > maxSize then none else some (chunks, totalSize)
  | turns + 1, chunks, totalSize =>
      if totalSize > maxSize then
        match chunks.popFront with
        | none => none
        | some (evicted, chunks) => do
            let totalSize ←
              checkedSub totalSize (UInt64.ofNat evicted.2.length)
            evictLoopChecked maxSize turns chunks totalSize
      else some (chunks, totalSize)

/-- The total size after an entry replaced `old`, checked. -/
def grownSizeChecked (totalSize : UInt64) (chunk : Bytes)
    (old : Option Bytes) : Option UInt64 := do
  let totalSize ← checkedAdd totalSize (UInt64.ofNat chunk.length)
  match old with
  | none => return totalSize
  | some oldChunk => checkedSub totalSize (UInt64.ofNat oldChunk.length)

/-- `insert`, with every addition and subtraction checked; `none` is a
failed check or the `unwrap` of `pop_front`. -/
def insertChecked (c : RawChunkCache) (key : ChunkKey) (chunk : Bytes) :
    Option RawChunkCache :=
  match c.chunks.insert key chunk with
  | (old, chunks) => do
      let totalSize ← grownSizeChecked c.totalSize chunk old
      let (chunks, totalSize) ←
        evictLoopChecked c.maxSize chunks.len chunks totalSize
      return { c with chunks := chunks, totalSize := totalSize }

-- ============================================================ the machines

/-- A call, with what a lookup finds. -/
def call (c : RawChunkCache) :
    Lru.Call ChunkKey Bytes → Option (RawChunkCache × List (Option Bytes))
  | .insert key chunk => (c.insert key chunk).map fun c => (c, [])
  | .get key => some ((c.get key).2, [(c.get key).1])

/-- A call, checked. -/
def callChecked (c : RawChunkCache) :
    Lru.Call ChunkKey Bytes → Option (RawChunkCache × List (Option Bytes))
  | .insert key chunk => (c.insertChecked key chunk).map fun c => (c, [])
  | .get key => some ((c.get key).2, [(c.get key).1])

-- ================================================================ one call

/-- The counter is the size of the entries, and not over the limit. -/
structure Exact (c : RawChunkCache) : Prop where
  size : c.totalSize.toNat = bytesIn c.chunks.entries
  fits : bytesIn c.chunks.entries ≤ c.maxSize.toNat

theorem exact_new (maxSize : UInt64) : (new maxSize).Exact where
  size := rfl
  fits := Nat.zero_le _

variable {c c' : RawChunkCache} {key : ChunkKey} {chunk : Bytes}

theorem Exact.sized (h : c.Exact) : c.Sized := by
  unfold Sized
  rw [← h.size, UInt64.ofNat_toNat]

/-- The size in between: everything that stays, and the new chunk. -/
theorem Exact.between (h : c.Exact)
    (hroom : c.maxSize.toNat + chunk.length < 2 ^ 64) :
    bytesIn (c.chunks.putBack key chunk).entries < 2 ^ 64 := by
  have hothers : bytesIn (c.chunks.others key) ≤ bytesIn c.chunks.entries :=
    bytesIn_sublist List.filter_sublist
  have hfits := h.fits
  simp only [LinkedMap.entries_putBack, bytesIn_append, bytesIn_cons,
    bytesIn_nil]
  omega

/-- An insertion keeps the counter exact and leaves what it should. -/
theorem Exact.insert (h : c.Exact)
    (hroom : c.maxSize.toNat + chunk.length < 2 ^ 64) :
    ∃ c', c.insert key chunk = some c' ∧ c'.Exact
      ∧ c'.maxSize = c.maxSize
      ∧ c'.chunks.entries = Lru.longestFitting List.length c.maxSize.toNat
          (Lru.others key c.chunks.entries ++ [(key, chunk)]) := by
  obtain ⟨c', hinsert, hinserted⟩ := insert_spec h.sized key chunk
  have hbytes := (bytesIn_suffix hinserted.subset).trans_lt
    (h.between hroom)
  have hsize := hinserted.sized.toNat_eq hbytes
  have hfits := UInt64.le_iff_toNat_le.1 (insert_le hinsert)
  rw [hsize] at hfits
  refine ⟨c', hinsert, ⟨hsize, hfits⟩, hinserted.maxSize, ?_⟩
  rw [hinserted.maxSize] at hfits
  have hlongest : Lru.LongestSuffix List.length c.maxSize.toNat
      (Lru.others key c.chunks.entries ++ [(key, chunk)])
      c'.chunks.entries := ⟨hinserted.subset, hfits, hinserted.keeps⟩
  exact hlongest.longestFitting_eq.symm

/-- Checking changes nothing in the loop: the entry evicted is part of
the total. -/
theorem evictLoopChecked_eq {maxSize totalSize : UInt64} {turns : Nat}
    {chunks : LinkedMap ChunkKey Bytes}
    (hsize : totalSize.toNat = bytesIn chunks.entries) :
    evictLoopChecked maxSize turns chunks totalSize
      = evictLoop maxSize turns chunks totalSize := by
  induction turns generalizing chunks totalSize with
  | zero => rfl
  | succ turns ih =>
      rw [evictLoopChecked, evictLoop]
      by_cases hover : totalSize > maxSize
      · rw [if_pos hover, if_pos hover]
        obtain ⟨entries, hnodup⟩ := chunks
        cases entries with
        | nil => rfl
        | cons evicted rest =>
            have hlt := totalSize.toNat_lt
            have htotal : totalSize.toNat
                = evicted.2.length + bytesIn rest := hsize
            have hlen : (UInt64.ofNat evicted.2.length).toNat
                = evicted.2.length :=
              UInt64.toNat_ofNat_of_lt' (by unfold UInt64.size; omega)
            have hle : UInt64.ofNat evicted.2.length ≤ totalSize := by
              rw [UInt64.le_iff_toNat_le, hlen]
              omega
            have hrest : (totalSize - UInt64.ofNat evicted.2.length).toNat
                = bytesIn rest := by
              rw [UInt64.toNat_sub_of_le _ _ hle, hlen]
              omega
            simp only [LinkedMap.popFront, checkedSub, if_pos hle]
            exact ih hrest
      · rw [if_neg hover, if_neg hover]

/-- Nor before it. -/
theorem Exact.grownSizeChecked_eq (h : c.Exact)
    (hroom : c.maxSize.toNat + chunk.length < 2 ^ 64) :
    grownSizeChecked c.totalSize chunk (c.chunks.find key)
      = some (grownSize c.totalSize chunk (c.chunks.find key)) := by
  have hlen : (UInt64.ofNat chunk.length).toNat = chunk.length :=
    UInt64.toNat_ofNat_of_lt' (by unfold UInt64.size; omega)
  have hsize := h.size
  have hfits := h.fits
  have hadd : c.totalSize.toNat + (UInt64.ofNat chunk.length).toNat
      < 2 ^ 64 := by omega
  unfold grownSizeChecked grownSize checkedAdd
  rw [if_pos hadd]
  cases hold : c.chunks.find key with
  | none => rfl
  | some old =>
      -- the chunk replaced is one of the entries
      have hle : bytesIn [(key, old)] ≤ bytesIn c.chunks.entries :=
        bytesIn_sublist
          (List.singleton_sublist.2 (LinkedMap.mem_of_find hold))
      simp only [bytesIn_cons, bytesIn_nil, Nat.add_zero] at hle
      have holdLen : (UInt64.ofNat old.length).toNat = old.length :=
        UInt64.toNat_ofNat_of_lt' (by unfold UInt64.size; omega)
      have hsum : (c.totalSize + UInt64.ofNat chunk.length).toNat
          = c.totalSize.toNat + chunk.length := by
        rw [UInt64.toNat_add, hlen]
        exact Nat.mod_eq_of_lt (by omega)
      have hsub : UInt64.ofNat old.length
          ≤ c.totalSize + UInt64.ofNat chunk.length := by
        rw [UInt64.le_iff_toNat_le, holdLen, hsum]
        omega
      exact if_pos hsub

/-- So nothing wraps in an insertion. -/
theorem Exact.insertChecked_eq (h : c.Exact)
    (hroom : c.maxSize.toNat + chunk.length < 2 ^ 64) :
    c.insertChecked key chunk = c.insert key chunk := by
  have hsize : (grownSize c.totalSize chunk (c.chunks.find key)).toNat
      = bytesIn (c.chunks.putBack key chunk).entries := by
    rw [grownSize_eq h.sized]
    exact UInt64.toNat_ofNat_of_lt' (h.between hroom)
  unfold insertChecked RawChunkCache.insert LinkedMap.insert
  simp only [h.grownSizeChecked_eq hroom, Option.bind_eq_bind,
    Option.bind_some, evictLoopChecked_eq hsize]
  cases evictLoop c.maxSize _ _ _ with
  | none => rfl
  | some last => rfl

/-- A lookup reorders the entries as it should. -/
theorem Exact.get (h : c.Exact) (key : ChunkKey) :
    (c.get key).2.Exact ∧ (c.get key).2.maxSize = c.maxSize
    ∧ Lru.step List.length c.maxSize.toNat c.chunks.entries (.get key)
      = some ((c.get key).2.chunks.entries, [(c.get key).1]) := by
  have hre := reordered_get c key
  have hbytes := bytesIn_perm hre.perm
  refine ⟨⟨?_, ?_⟩, hre.maxSize, ?_⟩
  · rw [hre.totalSize, hbytes, h.size]
  · rw [hre.maxSize, hbytes]
    exact h.fits
  · unfold RawChunkCache.get LinkedMap.toBack LinkedMap.find
    cases hfind : c.chunks.entries.find? fun e => e.1 = key with
    | none =>
        rw [Lru.step_get_none hfind, Option.map_none]
    | some e =>
        have hkey : e.1 = key := by simpa using List.find?_some hfind
        rw [Lru.step_get_some hfind, Option.map_some, ← hkey]
        rfl

-- ============================================================== every call

/-- The limit and a chunk to insert fit a `u64` together. -/
def Roomy (maxSize : UInt64) : Lru.Call ChunkKey Bytes → Prop
  | .insert _ chunk => maxSize.toNat + chunk.length < 2 ^ 64
  | .get _ => True

/-- One call on the cache, checked, and on the reference. -/
theorem Exact.call {maxSize : UInt64} (h : c.Exact)
    (hmax : c.maxSize = maxSize) {i : Lru.Call ChunkKey Bytes}
    (hroom : Roomy maxSize i) :
    ∃ c' found, c.call i = some (c', found)
      ∧ c.callChecked i = some (c', found)
      ∧ Lru.step List.length maxSize.toNat c.chunks.entries i
        = some (c'.chunks.entries, found)
      ∧ c'.Exact ∧ c'.maxSize = maxSize := by
  subst hmax
  cases i with
  | insert key chunk =>
      obtain ⟨c', hinsert, hexact, hmax, hentries⟩ := h.insert hroom
      refine ⟨c', [], ?_, ?_, ?_, hexact, hmax⟩
      · rw [RawChunkCache.call, hinsert]
        rfl
      · rw [callChecked, h.insertChecked_eq hroom, hinsert]
        rfl
      · rw [hentries]
        rfl
  | get key =>
      obtain ⟨hexact, hmax, hstep⟩ := h.get key
      exact ⟨_, _, rfl, rfl, hstep, hexact, hmax⟩

/-- Checked or not, the cache runs the same. -/
theorem run_callChecked {maxSize : UInt64}
    {calls : List (Lru.Call ChunkKey Bytes)}
    (hcalls : ∀ i ∈ calls, Roomy maxSize i) :
    ∃ c found, Machine.run call (new maxSize) calls = some (c, found)
      ∧ Machine.run callChecked (new maxSize) calls = some (c, found) := by
  let Same (c c' : RawChunkCache) : Prop :=
    c' = c ∧ c.Exact ∧ c.maxSize = maxSize
  have hstep : ∀ c c' i, Same c c' → Roomy maxSize i → ∃ c₁ c₁' found,
      call c i = some (c₁, found) ∧ callChecked c' i = some (c₁', found)
        ∧ Same c₁ c₁' := by
    intro c c' i hsame hi
    obtain ⟨rfl, hexact, hmax⟩ := hsame
    obtain ⟨c', found, hcall, hchecked, -, hexact, hmax⟩ :=
      hexact.call hmax hi
    exact ⟨c', c', found, hcall, hchecked, rfl, hexact, hmax⟩
  obtain ⟨c, c', found, hrun, hchecked, rfl, -⟩ :=
    Machine.run_simulates Same hstep hcalls ⟨rfl, exact_new maxSize, rfl⟩
  exact ⟨c', found, hrun, hchecked⟩

/-- The cache runs as the reference does. -/
theorem run_reference {maxSize : UInt64}
    {calls : List (Lru.Call ChunkKey Bytes)}
    (hcalls : ∀ i ∈ calls, Roomy maxSize i) :
    ∃ c found, Machine.run call (new maxSize) calls = some (c, found)
      ∧ Machine.run (Lru.step List.length maxSize.toNat) [] calls
        = some (c.chunks.entries, found)
      ∧ c.Exact ∧ c.maxSize = maxSize := by
  let Holds (c : RawChunkCache) (entries : List (ChunkKey × Bytes)) : Prop :=
    entries = c.chunks.entries ∧ c.Exact ∧ c.maxSize = maxSize
  have hstep : ∀ c entries i, Holds c entries → Roomy maxSize i →
      ∃ c' entries' found, call c i = some (c', found)
        ∧ Lru.step List.length maxSize.toNat entries i
          = some (entries', found) ∧ Holds c' entries' := by
    intro c entries i hholds hi
    obtain ⟨rfl, hexact, hmax⟩ := hholds
    obtain ⟨c', found, hcall, -, href, hexact, hmax⟩ := hexact.call hmax hi
    exact ⟨c', _, found, hcall, href, rfl, hexact, hmax⟩
  obtain ⟨c, entries, found, hrun, href, rfl, hexact, hmax⟩ :=
    Machine.run_simulates Holds hstep hcalls ⟨rfl, exact_new maxSize, rfl⟩
  exact ⟨c, found, hrun, href, hexact, hmax⟩

-- ============================================================ the statement

/-- For every limit and every sequence of calls, as long as the limit
and one chunk fit a `u64` together: no call panics, with overflow checks
or without; the keys are distinct; the counter is the sum of the lengths
and at most the limit; and the entries, in order, and all lookups are
those of the reference. -/
theorem lru_cache (maxSize : UInt64) (calls : List (Lru.Call ChunkKey Bytes))
    (hroom : ∀ key chunk, .insert key chunk ∈ calls →
      maxSize.toNat + chunk.length < 2 ^ 64) :
    ∃ c found, Machine.run call (new maxSize) calls = some (c, found)
      ∧ Machine.run callChecked (new maxSize) calls = some (c, found)
      ∧ Machine.run (Lru.step List.length maxSize.toNat) [] calls
        = some (c.chunks.entries, found)
      ∧ c.maxSize = maxSize ∧ c.chunks.keys.Nodup
      ∧ c.totalSize.toNat
        = (c.chunks.entries.map fun e => e.2.length).sum
      ∧ c.totalSize ≤ maxSize := by
  have hcalls : ∀ i ∈ calls, Roomy maxSize i := by
    intro i hi
    cases i with
    | insert key chunk => exact hroom key chunk hi
    | get => trivial
  obtain ⟨c, found, hrun, hchecked⟩ := run_callChecked hcalls
  obtain ⟨c', found', hrun', href, hexact, hmax⟩ := run_reference hcalls
  rw [hrun] at hrun'
  cases hrun'
  refine ⟨c, found, hrun, hchecked, href, hmax, c.chunks.nodup,
    hexact.size, ?_⟩
  rw [UInt64.le_iff_toNat_le, hexact.size, ← hmax]
  exact hexact.fits

/-- Room for three bytes: a chunk is replaced, looked up, and pushed out
by the last one, which does not fit either. -/
def fourCalls : List (Lru.Call ChunkKey Bytes) :=
  [ .insert (blake3Sample [0]) [0]
  , .insert (blake3Sample [0]) [0]
  , .get (blake3Sample [0])
  , .insert (blake3Sample [0, 1]) [0, 1, 2, 3] ]

theorem lru_cache_fourCalls :
    ∃ c, Machine.run callChecked (new 3) fourCalls
        = some (c, [some [0]])
      ∧ c.chunks.entries = [] ∧ c.totalSize = 0 := by
  have hroom : ∀ key chunk, Lru.Call.insert key chunk ∈ fourCalls →
      (3 : UInt64).toNat + chunk.length < 2 ^ 64 := by
    intro key chunk hmem
    simp only [fourCalls, List.mem_cons, Lru.Call.insert.injEq,
      reduceCtorEq, List.not_mem_nil, or_false, false_or] at hmem
    rcases hmem with ⟨-, rfl⟩ | ⟨-, rfl⟩ | ⟨-, rfl⟩ <;> decide
  obtain ⟨c, found, -, hchecked, href, -, -, hsize, -⟩ :=
    lru_cache 3 fourCalls hroom
  have hrun : Machine.run (Lru.step List.length 3) [] fourCalls
      = some ([], [some [0]]) := by decide +kernel
  rw [show (3 : UInt64).toNat = 3 from rfl, hrun] at href
  simp only [Option.some.injEq, Prod.mk.injEq] at href
  obtain ⟨hentries, rfl⟩ := href
  rw [← hentries] at hsize
  exact ⟨c, hchecked, hentries.symm, UInt64.toNat_inj.1 hsize⟩

end RawChunkCache

end FactoryCacher
