/-
The LZ4 framer: whatever the calls, one frame, of the length announced.

# The invariant

After calls with data `D` in all, the encoder is determined by `D` and
by what it has returned (`Framing`): the complete blocks of `D` have
been framed and hashed, and what is left of `D` is pending. `chop` says
which blocks those are, and `chop_append` that one more call keeps it
(`addData_spec`); the induction over the calls is `addAll_spec`. Then
`finish` closes `frameOf D`, in which the calls do not occur any more
(`encodeAll_eq`).

`frameOf D` is a frame of stored blocks in the sense of `Lib/Lz4Frame`,
so it reads back, and its length is a sum over the blocks, which is what
`framed_size` computes.
-/
import FactoryCacher.Lib.Blocks
import FactoryCacher.Lib.Lz4Frame
import FactoryCacher.Nebula.Lz4FrameEncoder

namespace FactoryCacher

open Lz4DeterministicFrameEncoder

variable {xx : XxHash32}

-- ============================================================ calls in turn

/-- `add_data` on each input in turn: the encoder at the end, and the
fragments returned. -/
def addAll (e : Lz4DeterministicFrameEncoder xx) :
    List Bytes → Lz4DeterministicFrameEncoder xx × List Bytes
  | [] => (e, [])
  | data :: rest =>
      ((addAll (e.addData data).1 rest).1,
        (e.addData data).2.toList ++ (addAll (e.addData data).1 rest).2)

/-- All the calls and `finish`: the fragments returned. -/
def encodeAll (xx : XxHash32) (inputs : List Bytes) : List Bytes :=
  (addAll (.new xx) inputs).2 ++ [(addAll (.new xx) inputs).1.finish]

-- ================================================================ the frame

/-- The blocks data is framed in: complete ones, and the rest. -/
def pieces (data : Bytes) : List Bytes :=
  if (chop maxBlockSize data).2.isEmpty then (chop maxBlockSize data).1
  else (chop maxBlockSize data).1 ++ [(chop maxBlockSize data).2]

/-- The frame of some data. -/
def frameOf (xx : XxHash32) (data : Bytes) : Bytes :=
  Lz4.storedFrame flgByte bdByte (headerChecksum xx) (pieces data)
    (xx.oneshot 0 data)

theorem maxBlockSize_pos : 0 < maxBlockSize := by decide

theorem flatten_pieces (data : Bytes) : (pieces data).flatten = data := by
  have hflat := flatten_chop maxBlockSize_pos data
  unfold pieces
  split
  case isTrue hempty =>
    rwa [List.isEmpty_iff.mp hempty, List.append_nil] at hflat
  case isFalse =>
    rw [List.flatten_append, List.flatten_singleton, hflat]

/-- No block is empty, and none is too long. -/
theorem length_of_mem_pieces (data : Bytes) :
    ∀ b ∈ pieces data, 1 ≤ b.length ∧ b.length ≤ maxBlockSize := by
  have hfull : ∀ b ∈ (chop maxBlockSize data).1,
      1 ≤ b.length ∧ b.length ≤ maxBlockSize := by
    intro b hb
    rw [length_of_mem_chop maxBlockSize_pos data b hb]
    exact ⟨maxBlockSize_pos, Nat.le_refl _⟩
  unfold pieces
  split
  case isTrue => exact hfull
  case isFalse hrest =>
    intro b hb
    rcases List.mem_append.mp hb with hb | hb
    · exact hfull b hb
    · rw [List.mem_singleton.mp hb]
      have hpositive : 0 < (chop maxBlockSize data).2.length :=
        List.length_pos_iff.mpr fun h => hrest (List.isEmpty_iff.mpr h)
      exact ⟨hpositive,
        Nat.le_of_lt (length_chop_snd maxBlockSize_pos data)⟩

/-- As many blocks as it takes. -/
theorem length_pieces (data : Bytes) :
    (pieces data).length
      = (data.length + (maxBlockSize - 1)) / maxBlockSize := by
  have hlength := length_chop maxBlockSize_pos data
  have hrest := length_chop_snd maxBlockSize_pos data
  unfold pieces
  split
  case isTrue hempty =>
    rw [List.isEmpty_iff.mp hempty, List.length_nil] at hlength
    unfold maxBlockSize at *
    omega
  case isFalse hsome =>
    have hpositive : 0 < (chop maxBlockSize data).2.length :=
      List.length_pos_iff.mpr fun h => hsome (List.isEmpty_iff.mpr h)
    rw [List.length_append, List.length_singleton]
    unfold maxBlockSize at *
    omega

theorem length_frameOf (data : Bytes) :
    (frameOf xx data).length
      = 15 + 4 * ((data.length + (maxBlockSize - 1)) / maxBlockSize)
        + data.length := by
  unfold frameOf Lz4.storedFrame
  simp only [List.length_append, List.length_cons, length_putU32Le,
    Lz4.length_storedBlocks, length_pieces, flatten_pieces]
  omega

/-- The frame that is read. -/
def frameRead (xx : XxHash32) (data : Bytes) : Lz4.Frame where
  magic := Lz4.magicNumber
  flg := flgByte
  bd := bdByte
  options := []
  headerChecksum := headerChecksum xx
  blocks := (pieces data).map Lz4.blockOf
  contentChecksum := some (xx.oneshot 0 data)

/-- A frame reads back, whatever follows it. -/
theorem readFrame_frameOf (xx : XxHash32) (data rest : Bytes) :
    Lz4.readFrame (frameOf xx data ++ rest)
      = .ok (frameRead xx data, rest) := by
  refine Lz4.readFrame_stored (by decide) (by decide) (by decide) ?_ rest
  intro b hb
  have hle := (length_of_mem_pieces data b hb).2
  unfold maxBlockSize at hle
  omega

theorem valid_frameRead (data : Bytes) :
    (frameRead xx data).Valid (xx.oneshot 0) where
  magic := rfl
  version := (by decide : flgByte &&& 0xC2 = 0x40)
  blockSize := (by decide :
    bdByte &&& 0x8F = 0 ∧ 4 ≤ (bdByte >>> 4).toNat)
  headerChecksum := rfl
  sizes := by
    intro b hb
    obtain ⟨piece, hpiece, rfl⟩ := List.mem_map.mp hb
    have hle : piece.length ≤ maxBlockSize :=
      (length_of_mem_pieces data piece hpiece).2
    exact Nat.le_trans hle
      (by decide : maxBlockSize ≤ 2 ^ (8 + 2 * (bdByte >>> 4).toNat))
  checksums := by
    intro b hb c hc
    obtain ⟨piece, hpiece, rfl⟩ := List.mem_map.mp hb
    cases hc

theorem holds_frameRead (data : Bytes) :
    (frameRead xx data).Holds (xx.oneshot 0) data where
  stored := by
    intro b hb
    obtain ⟨piece, hpiece, rfl⟩ := List.mem_map.mp hb
    apply Lz4.storedBit_le_storedWord
    have hle := (length_of_mem_pieces data piece hpiece).2
    unfold maxBlockSize at hle
    omega
  checksum := by
    intro c hc
    cases hc
    rfl
  data := by
    show ((pieces data).map Lz4.blockOf).flatMap Lz4.Block.data = data
    rw [List.flatMap_map]
    exact (List.flatMap_id ..).trans (flatten_pieces data)

theorem plain_frameRead (data : Bytes) : (frameRead xx data).Plain where
  options := rfl
  blocks := by
    intro b hb
    obtain ⟨piece, hpiece, rfl⟩ := List.mem_map.mp hb
    exact List.length_pos_iff.mp (length_of_mem_pieces data piece hpiece).1

-- ============================================================ the invariant

/-- An encoder that was given `data` and has returned `emitted`. -/
structure Framing (e : Lz4DeterministicFrameEncoder xx)
    (data emitted : Bytes) : Prop where
  pending : e.pendingData = (chop maxBlockSize data).2
  framed : emitted ++ e.buffer = (Lz4DeterministicFrameEncoder.new xx).buffer
    ++ (chop maxBlockSize data).1.flatMap Lz4.storedBlock
  hashed : e.contentHasher
    = (chop maxBlockSize data).1.foldl xx.write (xx.withSeed 0)

theorem framing_new (xx : XxHash32) : Framing (.new xx) [] [] := by
  have hchop : chop maxBlockSize ([] : Bytes) = ([], []) :=
    chop_of_lt maxBlockSize_pos
  constructor
  case pending => rw [hchop]; rfl
  case framed => rw [hchop, List.nil_append, List.flatMap_nil,
    List.append_nil]
  case hashed => rw [hchop]; rfl

/-- A block built is a stored block. -/
theorem buildBlock_eq {e : Lz4DeterministicFrameEncoder xx} {n : Nat}
    (hn : min maxBlockSize e.pendingData.length = n) :
    e.buildBlock = ⟨e.pendingData.drop n,
      e.buffer ++ Lz4.storedBlock (e.pendingData.take n),
      xx.write e.contentHasher (e.pendingData.take n)⟩ := by
  have hlen : (e.pendingData.take n).length = n := by
    rw [List.length_take]
    omega
  unfold buildBlock Lz4.storedBlock
  dsimp only
  rw [hn, hlen, List.append_assoc]
  rfl

/-- The `while` loop builds the complete blocks. -/
theorem buildBlocks_eq (e : Lz4DeterministicFrameEncoder xx) :
    e.buildBlocks = ⟨(chop maxBlockSize e.pendingData).2,
      e.buffer ++ (chop maxBlockSize e.pendingData).1.flatMap
        Lz4.storedBlock,
      (chop maxBlockSize e.pendingData).1.foldl xx.write
        e.contentHasher⟩ := by
  obtain ⟨pending, buffer, hasher⟩ := e
  induction pending using chop_induction maxBlockSize_pos
    generalizing buffer hasher with
  | short pending h =>
      rw [buildBlocks, if_neg (Nat.not_le.mpr h), chop_of_lt h]
      simp
  | long pending h ih =>
      rw [buildBlocks, if_pos h, buildBlock_eq (Nat.min_eq_left h)]
      dsimp only
      rw [ih, chop_of_le maxBlockSize_pos h]
      simp

/-- One more call. -/
theorem addData_spec {e : Lz4DeterministicFrameEncoder xx}
    {data emitted : Bytes} (h : Framing e data emitted) (more : Bytes) :
    Framing (e.addData more).1 (data ++ more)
      (emitted ++ (e.addData more).2.toList.flatten) := by
  have hchop := chop_append maxBlockSize_pos data more
  rw [← h.pending] at hchop
  unfold addData
  dsimp only
  split
  case isTrue =>
    rw [buildBlocks_eq]
    constructor
    case pending => rw [hchop]
    case framed =>
      rw [hchop, List.flatMap_append, ← List.append_assoc, ← h.framed]
      simp
    case hashed => rw [hchop, List.foldl_append, ← h.hashed]
  case isFalse hshort =>
    rw [chop_of_lt (Nat.not_le.mp hshort)] at hchop
    constructor
    case pending => rw [hchop]
    case framed =>
      rw [hchop, List.append_nil]
      simpa using h.framed
    case hashed =>
      rw [hchop, List.append_nil]
      exact h.hashed

/-- Any calls. -/
theorem addAll_spec {e : Lz4DeterministicFrameEncoder xx}
    {data emitted : Bytes} (h : Framing e data emitted)
    (inputs : List Bytes) :
    Framing (addAll e inputs).1 (data ++ inputs.flatten)
      (emitted ++ (addAll e inputs).2.flatten) := by
  induction inputs generalizing e data emitted with
  | nil => simpa [addAll] using h
  | cons more rest ih =>
      have hrest := ih (addData_spec h more)
      rw [List.append_assoc, List.append_assoc, ← List.flatten_append]
        at hrest
      exact hrest

/-- Header, blocks, end mark and checksum are a frame. -/
theorem header_append_blocks (blocks : List Bytes) (checksum : UInt32) :
    (Lz4DeterministicFrameEncoder.new xx).buffer
        ++ blocks.flatMap Lz4.storedBlock
        ++ (putU32Le 0 ++ putU32Le checksum)
      = Lz4.storedFrame flgByte bdByte (headerChecksum xx) blocks
        checksum := by
  simp [Lz4DeterministicFrameEncoder.new, Lz4.storedFrame,
    Lz4.magicNumber]

/-- `finish` closes the frame. -/
theorem Framing.finish (hxx : xx.Streams)
    {e : Lz4DeterministicFrameEncoder xx} {data emitted : Bytes}
    (h : Framing e data emitted) :
    emitted ++ e.finish = frameOf xx data := by
  have hhash := hxx 0 (pieces data)
  rw [flatten_pieces] at hhash
  have hrest := length_chop_snd maxBlockSize_pos data
  rw [← h.pending] at hrest
  unfold Lz4DeterministicFrameEncoder.finish frameOf
  rw [← hhash]
  unfold pieces
  rw [← h.pending]
  dsimp only
  split
  case isTrue =>
    rw [← h.hashed, ← header_append_blocks, ← h.framed]
    simp only [List.append_assoc]
  case isFalse =>
    rw [buildBlock_eq (Nat.min_eq_right (Nat.le_of_lt hrest)),
      List.take_length, List.foldl_append, ← h.hashed,
      ← header_append_blocks, List.flatMap_append,
      ← List.append_assoc (Lz4DeterministicFrameEncoder.new xx).buffer,
      ← h.framed]
    simp

/-- The fragments of any calls make up the frame of their data. -/
theorem encodeAll_eq (hxx : xx.Streams) (inputs : List Bytes) :
    (encodeAll xx inputs).flatten = frameOf xx inputs.flatten := by
  have hall := (addAll_spec (framing_new xx) inputs).finish hxx
  rw [List.nil_append, List.nil_append] at hall
  rw [encodeAll, List.flatten_append, List.flatten_singleton, hall]

-- ============================================================= the length

/-- `framed_size` is the length of the frame, if that fits a `u64`. -/
theorem framedSize_toNat {data : Bytes}
    (h : (frameOf xx data).length < 2 ^ 64) :
    (framedSize (UInt64.ofNat data.length)).toNat
      = (frameOf xx data).length := by
  rw [length_frameOf] at h ⊢
  unfold maxBlockSize at h ⊢
  -- so many blocks cost more than rounding up adds
  have hroom : data.length + 64000 < 2 ^ 64 := by omega
  have hlen : (UInt64.ofNat data.length).toNat = data.length := by
    rw [UInt64.toNat_ofNat']
    exact Nat.mod_eq_of_lt (by omega)
  have hround : (UInt64.ofNat data.length + UInt64.ofNat 64000 - 1).toNat
      = data.length + (64000 - 1) := by
    rw [UInt64.toNat_sub, UInt64.toNat_add, hlen]
    show (2 ^ 64 - 1 + (data.length + 64000) % 2 ^ 64) % 2 ^ 64 = _
    omega
  have hblocks : ((UInt64.ofNat data.length + UInt64.ofNat 64000 - 1)
      / UInt64.ofNat 64000).toNat
      = (data.length + (64000 - 1)) / 64000 := by
    rw [UInt64.toNat_div, hround]
    rfl
  unfold framedSize maxBlockSize
  simp only [UInt64.toNat_add, UInt64.toNat_mul, hblocks, hlen,
    UInt64.reduceToNat]
  omega

-- ============================================================ the statement

/-- For any calls of `add_data` and `finish`: the fragments in sequence
depend on the data alone, not on how it was cut; they parse as one valid
LZ4 frame and nothing else, of stored blocks of 1 to 64000 bytes, with
the data as its content and the data's hash as its checksum; and their
length is what `framed_size` says. -/
theorem lz4_frame_encoder (hxx : xx.Streams) (inputs : List Bytes) :
    (∀ inputs', inputs'.flatten = inputs.flatten →
      (encodeAll xx inputs').flatten = (encodeAll xx inputs).flatten)
    ∧ (∃ f, Lz4.readFrame (encodeAll xx inputs).flatten = .ok (f, [])
      ∧ f.Valid (xx.oneshot 0) ∧ f.Holds (xx.oneshot 0) inputs.flatten
      ∧ (∀ b ∈ f.blocks, 1 ≤ b.data.length ∧ b.data.length ≤ 64000)
      ∧ f.contentChecksum = some (xx.oneshot 0 inputs.flatten))
    ∧ ((encodeAll xx inputs).flatten.length < 2 ^ 64 →
      (framedSize (UInt64.ofNat inputs.flatten.length)).toNat
        = (encodeAll xx inputs).flatten.length) := by
  rw [encodeAll_eq hxx inputs]
  refine ⟨?_, ?_, framedSize_toNat⟩
  · intro inputs' hsame
    rw [encodeAll_eq hxx, hsame]
  · have hread := readFrame_frameOf xx inputs.flatten []
    rw [List.append_nil] at hread
    refine ⟨_, hread, valid_frameRead _, holds_frameRead _, ?_, rfl⟩
    intro b hb
    obtain ⟨piece, hpiece, rfl⟩ := List.mem_map.mp hb
    exact length_of_mem_pieces _ piece hpiece

-- ==================================================================== XXH32

/-- The XXH32 hash. -/
def xxh32 (seed : UInt32) (data : Bytes) : UInt32 :=
  let stripes := xxh32Stripes (data.length / 16)
    (seed + 2654435761 + 2246822519, seed + 2246822519, seed,
      seed - 2654435761) data
  let start := if data.length < 16 then seed + 374761393
    else rotl stripes.1.1 1 + rotl stripes.1.2.1 7
      + rotl stripes.1.2.2.1 12 + rotl stripes.1.2.2.2 18
  avalanche (xxh32Tail (start + UInt32.ofNat data.length) stripes.2)
where
  rotl (x n : UInt32) : UInt32 := (x <<< n) ||| (x >>> (32 - n))
  /-- one accumulator and one lane -/
  round (v : UInt32) (lane : Bytes) : UInt32 :=
    rotl (v + UInt32.ofNat (ofLE (lane.take 4)) * 2246822519) 13 * 2654435761
  xxh32Stripes : Nat → UInt32 × UInt32 × UInt32 × UInt32 → Bytes →
      (UInt32 × UInt32 × UInt32 × UInt32) × Bytes
    | 0, v, rest => (v, rest)
    | n + 1, (v₁, v₂, v₃, v₄), rest =>
        xxh32Stripes n (round v₁ rest, round v₂ (rest.drop 4),
          round v₃ (rest.drop 8), round v₄ (rest.drop 12)) (rest.drop 16)
  xxh32Tail (h : UInt32) : Bytes → UInt32
    | a :: b :: c :: d :: rest =>
        xxh32Tail (rotl (h + UInt32.ofNat (ofLE [a, b, c, d]) * 3266489917)
          17 * 668265263) rest
    | a :: rest =>
        xxh32Tail (rotl (h + a.toUInt32 * 374761393) 11 * 2654435761) rest
    | [] => h
  avalanche (h : UInt32) : UInt32 :=
    let h := (h ^^^ (h >>> 15)) * 2246822519
    let h := (h ^^^ (h >>> 13)) * 3266489917
    h ^^^ (h >>> 16)

/-- A hasher that keeps what it is given. -/
def keptXxHash32 : XxHash32 where
  Hasher := UInt32 × Bytes
  oneshot := xxh32
  withSeed seed := (seed, [])
  write h data := (h.1, h.2 ++ data)
  finish32 h := xxh32 h.1 h.2

-- the checksum byte of this header, as every LZ4 tool writes it
example : headerChecksum keptXxHash32 = 0xA7 := by decide

/-- What is kept is the concatenation. -/
theorem foldl_kept (seed : UInt32) (before : Bytes) (pieces : List Bytes) :
    pieces.foldl (fun (h : UInt32 × Bytes) data => (h.1, h.2 ++ data))
        (seed, before)
      = (seed, before ++ pieces.flatten) := by
  induction pieces generalizing before with
  | nil => rw [List.foldl_nil, List.flatten_nil, List.append_nil]
  | cons piece rest ih =>
      rw [List.foldl_cons, List.flatten_cons, ← List.append_assoc]
      exact ih (before ++ piece)

theorem keptXxHash32_streams : keptXxHash32.Streams := by
  intro seed pieces
  show xxh32 (pieces.foldl (fun (h : UInt32 × Bytes) data =>
      (h.1, h.2 ++ data)) (seed, [])).1 (pieces.foldl
        (fun (h : UInt32 × Bytes) data => (h.1, h.2 ++ data)) (seed, [])).2
    = xxh32 seed pieces.flatten
  rw [foldl_kept, List.nil_append]

/-- Three calls, one of them empty. -/
theorem lz4_frame_encoder_three_calls :
    keptXxHash32.Streams
    ∧ (encodeAll keptXxHash32 [[1], [], [2, 3]]).flatten
      = (encodeAll keptXxHash32 [[1, 2], [3]]).flatten
    ∧ (framedSize 3).toNat
      = (encodeAll keptXxHash32 [[1], [], [2, 3]]).flatten.length := by
  obtain ⟨hcut, -, hlength⟩ :=
    lz4_frame_encoder keptXxHash32_streams [[1], [], [2, 3]]
  refine ⟨keptXxHash32_streams, (hcut [[1, 2], [3]] rfl).symm, hlength ?_⟩
  rw [encodeAll_eq keptXxHash32_streams, length_frameOf]
  decide

end FactoryCacher
