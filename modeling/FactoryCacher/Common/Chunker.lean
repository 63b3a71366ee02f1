/-
The content-defined chunker (common/src/chunker.rs).

A `Chunker` cuts a byte string into chunks whose ends depend on the
bytes before them only: a rolling Rabin-Karp hash over a 32-byte window
is fed every byte past the first `minChunkSize`, and a chunk ends where
the hash has its low eleven bits clear, at `maxChunkSize` bytes, or at
the end of the data. The hash is reset at every boundary.

`u32` arithmetic is the wrapping one: `UInt32` in Lean, `wrapping_*` in
the source. The window index is a `Fin`, so the unchecked accesses of
`update` are in bounds by their type.
-/
import FactoryCacher.Lib.Bytes

namespace FactoryCacher

-- ======================================================== the rolling hash

/-- `RabinKarpHash::OFFSET`. -/
def hashOffset : UInt32 := 31

/-- `RabinKarpHash::MULT`. -/
def hashMult : UInt32 := 0x08104225

/-- `RabinKarpHash::WINDOW_SIZE`. -/
abbrev windowSize : Nat := 32

/-- `u32::wrapping_pow`. -/
def wrappingPow (x : UInt32) : Nat → UInt32
  | 0 => 1
  | n + 1 => wrappingPow x n * x

/-- `RabinKarpHash::WINDOW_MULT`. -/
def windowMult : UInt32 := wrappingPow hashMult (windowSize + 1)

structure RabinKarpHash where
  hash : UInt32
  window : Vector UInt32 windowSize
  windowPos : Fin windowSize

namespace RabinKarpHash

def new : RabinKarpHash :=
  { hash := 0, window := Vector.replicate windowSize 0, windowPos := 0 }

/-- Feed one byte: the new byte enters the window in the place of the
oldest one, whose term leaves the sum. -/
def update (h : RabinKarpHash) (addedByte : UInt8) : RabinKarpHash :=
  let added := addedByte.toUInt32 + hashOffset
  let removed := h.window.get h.windowPos * windowMult
  { hash := (h.hash + added) * hashMult - removed
    window := h.window.set h.windowPos added
    windowPos := ⟨(h.windowPos + 1) % windowSize,
      Nat.mod_lt _ (by decide)⟩ }

def reset (_ : RabinKarpHash) : RabinKarpHash :=
  { hash := 0, window := Vector.replicate windowSize 0, windowPos := 0 }

end RabinKarpHash

-- ============================================================= the chunker

/-- `MIN_CHUNK_SIZE`. -/
def minChunkSize : Nat := 512

/-- `MAX_CHUNK_SIZE`. -/
def maxChunkSize : Nat := 4096

/-- `CHUNK_MASK`. -/
def chunkMask : UInt32 := 2047

structure Chunker where
  rollingHash : RabinKarpHash
  data : Bytes

namespace Chunker

def new (data : Bytes) : Chunker :=
  { rollingHash := RabinKarpHash.new, data := data }

/-- The scan of `next`: feed the remaining bytes until the hash or the
size closes the chunk; returns the hash state and the chunk size. -/
def scan (h : RabinKarpHash) (chunkSize : Nat) :
    Bytes → RabinKarpHash × Nat
  | [] => (h, chunkSize)
  | byte :: rest =>
      if (h.update byte).hash &&& chunkMask = 0
          ∨ chunkSize + 1 ≥ maxChunkSize then
        (h.update byte, chunkSize + 1)
      else scan (h.update byte) (chunkSize + 1) rest

/-- The loop of `next`: where the scan of the chunker's data stops. -/
def scanData (c : Chunker) : RabinKarpHash × Nat :=
  scan c.rollingHash (min minChunkSize c.data.length)
    (c.data.drop (min minChunkSize c.data.length))

/-- `Chunker::next`: the next chunk and the chunker behind it. -/
def next (c : Chunker) : Option (Bytes × Chunker) :=
  if c.data.isEmpty then none
  else
    some (c.data.take c.scanData.2,
      { rollingHash := c.scanData.1.reset
        data := c.data.drop c.scanData.2 })

/-- The scan never shrinks the chunk. -/
theorem le_scan (h : RabinKarpHash) (n : Nat) (rest : Bytes) :
    n ≤ (scan h n rest).2 := by
  induction rest generalizing h n with
  | nil => exact Nat.le_refl n
  | cons byte rest ih =>
      rw [scan]
      split
      · exact Nat.le_succ n
      · exact Nat.le_trans (Nat.le_succ n) (ih _ _)

/-- The chunk of a non-empty chunker is not empty. -/
theorem scanData_pos {c : Chunker} (h : c.data ≠ []) :
    0 < c.scanData.2 := by
  have hle : min minChunkSize c.data.length ≤ c.scanData.2 :=
    le_scan _ _ _
  have hlen := List.length_pos_of_ne_nil h
  have hmin : 0 < minChunkSize := by decide
  exact Nat.lt_of_lt_of_le (Nat.lt_min.2 ⟨hmin, hlen⟩) hle

/-- A chunk is a non-empty prefix of the data, and the rest follows. -/
theorem next_eq_some {c c' : Chunker} {chunk : Bytes}
    (h : c.next = some (chunk, c')) :
    c.data = chunk ++ c'.data ∧ chunk ≠ [] := by
  unfold next at h
  split at h
  case isTrue => cases h
  case isFalse hne =>
    have hdata : c.data ≠ [] := fun hnil => hne (List.isEmpty_iff.2 hnil)
    have hpos := scanData_pos hdata
    simp only [Option.some.injEq, Prod.mk.injEq] at h
    obtain ⟨rfl, rfl⟩ := h
    refine ⟨(List.take_append_drop _ _).symm, ?_⟩
    intro hnil
    rcases List.take_eq_nil_iff.1 hnil with hzero | hzero
    · omega
    · exact hdata hzero

theorem next_eq_none {c : Chunker} (h : c.next = none) : c.data = [] := by
  unfold next at h
  split at h
  case isTrue hemp => exact List.isEmpty_iff.1 hemp
  case isFalse => cases h

/-- The chunks a `for` loop over the chunker sees. -/
def collect (c : Chunker) : List Bytes :=
  match _hn : c.next with
  | none => []
  | some (chunk, c') => chunk :: c'.collect
termination_by c.data.length
decreasing_by
  obtain ⟨hdata, hne⟩ := next_eq_some _hn
  have := List.length_pos_of_ne_nil hne
  rw [hdata, List.length_append]
  omega

theorem collect_of_none {c : Chunker} (h : c.next = none) :
    c.collect = [] := by
  rw [collect]
  split
  · rfl
  · next hn => rw [h] at hn; cases hn

theorem collect_of_some {c c' : Chunker} {chunk : Bytes}
    (h : c.next = some (chunk, c')) :
    c.collect = chunk :: c'.collect := by
  rw [collect]
  split
  · next hn => rw [h] at hn; cases hn
  · next hn =>
    rw [h] at hn
    injection hn with hn
    injection hn with h1 h2
    rw [h1, h2]

/-- The chunks concatenate to the data. -/
theorem flatten_collect (c : Chunker) : c.collect.flatten = c.data := by
  induction hlen : c.data.length using Nat.strong_induction_on
    generalizing c with
  | _ n ih =>
      cases hn : c.next with
      | none => rw [collect_of_none hn, next_eq_none hn]; rfl
      | some p =>
          obtain ⟨chunk, c'⟩ := p
          obtain ⟨hdata, hne⟩ := next_eq_some hn
          have hpos := List.length_pos_of_ne_nil hne
          have hlt : c'.data.length < n := by
            rw [← hlen, hdata, List.length_append]
            omega
          rw [collect_of_some hn, List.flatten_cons,
            ih _ hlt c' rfl, ← hdata]

end Chunker

/-- The chunks of a byte string. -/
def chunksOf (data : Bytes) : List Bytes := (Chunker.new data).collect

theorem flatten_chunksOf (data : Bytes) : (chunksOf data).flatten = data :=
  Chunker.flatten_collect (Chunker.new data)

theorem chunksOf_ne_nil {data : Bytes} (hne : data ≠ []) :
    chunksOf data ≠ [] := by
  intro hnil
  rw [← flatten_chunksOf data, hnil] at hne
  exact hne rfl

/-- Data no longer than the minimum is one chunk. -/
theorem chunksOf_of_short {data : Bytes} (hne : data ≠ [])
    (hlen : data.length ≤ minChunkSize) : chunksOf data = [data] := by
  have hemp : data.isEmpty = false := by simpa using hne
  have hscan : (Chunker.new data).scanData.2 = data.length := by
    simp [Chunker.scanData, Chunker.new, Nat.min_eq_right hlen,
      Chunker.scan]
  have hnext : (Chunker.new data).next = some (data,
      { rollingHash := (Chunker.new data).scanData.1.reset, data := [] }) := by
    have hdata : (Chunker.new data).data = data := rfl
    rw [Chunker.next, hscan, hdata, hemp, List.take_length,
      List.drop_length]
    rfl
  rw [chunksOf, Chunker.collect_of_some hnext]
  rw [Chunker.collect_of_none (by rfl)]

end FactoryCacher
