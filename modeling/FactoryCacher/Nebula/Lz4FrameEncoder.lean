/-
The deterministic LZ4 framer (dsp-nebula-cacher/src/lz4_frame_encoder.rs).

Data is buffered in `pendingData` and leaves it in stored blocks of
`maxBlockSize` bytes; `addData` returns what has been framed so far only
if a block was completed, and `finish` frames the rest. The header waits
in `buffer` for the first of them.

`framedSize` is the length of the frame, computed from the length of the
data alone. It is on `u64` and wraps.

The hash is that of the `twox-hash` crate, a parameter; what is used of
it is that writing piece by piece hashes the concatenation
(`XxHash32.Streams`).
-/
import FactoryCacher.Lib.Bytes

namespace FactoryCacher

/-- What the program uses of `twox_hash::XxHash32`. -/
structure XxHash32 where
  Hasher : Type
  /-- `XxHash32::oneshot` -/
  oneshot : (seed : UInt32) → Bytes → UInt32
  /-- `XxHash32::with_seed` -/
  withSeed : UInt32 → Hasher
  /-- `Hasher::write` -/
  write : Hasher → Bytes → Hasher
  /-- `finish_32` -/
  finish32 : Hasher → UInt32

/-- A hasher fed in pieces has the hash of the whole. -/
def XxHash32.Streams (xx : XxHash32) : Prop :=
  ∀ (seed : UInt32) (pieces : List Bytes),
    xx.finish32 (pieces.foldl xx.write (xx.withSeed seed))
      = xx.oneshot seed pieces.flatten

/-- `MAX_BLOCK_SIZE`. -/
def maxBlockSize : Nat := 64000

structure Lz4DeterministicFrameEncoder (xx : XxHash32) where
  pendingData : Bytes
  buffer : Bytes
  contentHasher : xx.Hasher

namespace Lz4DeterministicFrameEncoder

variable {xx : XxHash32}

/-- FLG: version 01, independent blocks, content checksum. -/
def flgByte : UInt8 := 0b01100100

/-- BD: blocks of up to 64 KB. -/
def bdByte : UInt8 := 0b01000000

/-- The header checksum: the second byte of the descriptor's hash. -/
def headerChecksum (xx : XxHash32) : UInt8 :=
  ((xx.oneshot 0 [flgByte, bdByte] >>> 8) &&& 0xFF).toUInt8

def new (xx : XxHash32) : Lz4DeterministicFrameEncoder xx where
  pendingData := []
  buffer := putU32Le 0x184D2204 ++ [flgByte, bdByte, headerChecksum xx]
  contentHasher := xx.withSeed 0

/-- `build_block`. -/
def buildBlock (e : Lz4DeterministicFrameEncoder xx) :
    Lz4DeterministicFrameEncoder xx :=
  let blockSize := min maxBlockSize e.pendingData.length
  let blockContents := e.pendingData.take blockSize
  { pendingData := e.pendingData.drop blockSize
    buffer := e.buffer
      ++ putU32Le (0x80000000 ||| UInt32.ofNat blockSize) ++ blockContents
    contentHasher := xx.write e.contentHasher blockContents }

/-- The `while` loop of `add_data`. -/
def buildBlocks (e : Lz4DeterministicFrameEncoder xx) :
    Lz4DeterministicFrameEncoder xx :=
  if maxBlockSize ≤ e.pendingData.length then buildBlocks e.buildBlock
  else e
termination_by e.pendingData.length
decreasing_by
  simp only [buildBlock, List.length_drop]
  unfold maxBlockSize at *
  omega

/-- `add_data`: the encoder afterwards, and the fragment returned. -/
def addData (e : Lz4DeterministicFrameEncoder xx) (data : Bytes) :
    Lz4DeterministicFrameEncoder xx × Option Bytes :=
  let e := { e with pendingData := e.pendingData ++ data }
  if maxBlockSize ≤ e.pendingData.length then
    let e := e.buildBlocks
    ({ e with buffer := [] }, some e.buffer)
  else (e, none)

/-- `finish`. -/
def finish (e : Lz4DeterministicFrameEncoder xx) : Bytes :=
  let e := if e.pendingData.isEmpty then e else e.buildBlock
  e.buffer ++ putU32Le 0            -- end mark
    ++ putU32Le (xx.finish32 e.contentHasher)

end Lz4DeterministicFrameEncoder

/-- `framed_size`. -/
def framedSize (originalLen : UInt64) : UInt64 :=
  let totalBlocks := (originalLen + UInt64.ofNat maxBlockSize - 1)
    / UInt64.ofNat maxBlockSize
  4                                 -- magic number
    + 3                             -- FLG, BD and header checksum
    + totalBlocks * 4 + originalLen
    + 4                             -- end mark
    + 4                             -- content checksum

end FactoryCacher
