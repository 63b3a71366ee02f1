/-
The LZ4 frame format, from the reader's side.

A frame is a magic number, a descriptor (FLG, BD, and the optional
content size and dictionary id FLG announces) with its checksum, data
blocks each behind a size word, an end mark, and a content checksum if
FLG announces one. The top bit of a size word marks a block that is
stored as it is.

`readFrame` takes a frame off the front of a byte string and checks
nothing beyond what reading needs. `Frame.Valid` is what a decoder
checks of the frame it read, and `Frame.Holds` what a frame of stored
blocks decodes to. How a compressed block decodes is not described here,
nor what a decoder does with a content size, a dictionary or an empty
block: `Frame.Plain` says that there are none.
-/
import Mathlib.Data.Nat.Bitwise
import FactoryCacher.Lib.Bytes

namespace FactoryCacher

namespace Lz4

-- ================================================================ the frame

structure Block where
  /-- the size word -/
  word : UInt32
  data : Bytes
  checksum : Option UInt32

structure Frame where
  magic : UInt32
  flg : UInt8
  bd : UInt8
  /-- content size and dictionary id, as far as they are there -/
  options : Bytes
  headerChecksum : UInt8
  blocks : List Block
  contentChecksum : Option UInt32

def magicNumber : UInt32 := 0x184D2204

/-- The bit of a size word that marks a stored block. -/
def storedBit : UInt32 := 0x80000000

/-- The bits of a size word that hold the size. -/
def sizeMask : UInt32 := 0x7FFFFFFF

/-- How many bytes of options FLG announces: eight of content size (bit
3), four of dictionary id (bit 0). -/
def optionsSize (flg : UInt8) : Nat :=
  (if flg &&& 8 = 0 then 0 else 8) + (if flg &&& 1 = 0 then 0 else 4)

/-- A checksum that is there if its flag is set. -/
def readChecksum (flag : UInt8) : Get (Option UInt32) :=
  if flag = 0 then pure none
  else do
    let checksum ← tryGetU32Le
    return some checksum

/-- Blocks up to the end mark; every block takes four bytes or more, so
the length of the text bounds their number. -/
def readBlocks (blockChecksum : UInt8) : Nat → Get (List Block)
  | 0 => fun buf => .error ⟨4, buf.length⟩
  | fuel + 1 => do
      let word ← tryGetU32Le
      if word = 0 then pure []
      else do
        let data ← tryTake (word &&& sizeMask).toNat
        let checksum ← readChecksum blockChecksum
        let blocks ← readBlocks blockChecksum fuel
        return { word, data, checksum } :: blocks

def readFrame : Get Frame := do
  let magic ← tryGetU32Le
  let flg ← tryGetU8
  let bd ← tryGetU8
  let options ← tryTake (optionsSize flg)
  let headerChecksum ← tryGetU8
  let rest ← get
  let blocks ← readBlocks (flg &&& 16) rest.length
  let contentChecksum ← readChecksum (flg &&& 4)
  return { magic, flg, bd, options, headerChecksum, blocks,
           contentChecksum }

-- ================================================================= validity

/-- The largest block BD allows: 4 stands for 64 KB, 7 for 4 MB. -/
def Frame.blockMaxSize (f : Frame) : Nat := 2 ^ (8 + 2 * (f.bd >>> 4).toNat)

/-- What a decoder checks of a frame. -/
structure Frame.Valid (xxh32 : Bytes → UInt32) (f : Frame) : Prop where
  magic : f.magic = magicNumber
  /-- version 01, reserved bit clear -/
  version : f.flg &&& 0xC2 = 0x40
  /-- reserved bits clear, a block size of the table -/
  blockSize : f.bd &&& 0x8F = 0 ∧ 4 ≤ (f.bd >>> 4).toNat
  headerChecksum : f.headerChecksum
    = ((xxh32 (f.flg :: f.bd :: f.options) >>> 8) &&& 0xFF).toUInt8
  sizes : ∀ b ∈ f.blocks, b.data.length ≤ f.blockMaxSize
  checksums : ∀ b ∈ f.blocks, ∀ c, b.checksum = some c → c = xxh32 b.data

/-- A frame of stored blocks that decodes to `content`. -/
structure Frame.Holds (xxh32 : Bytes → UInt32) (f : Frame)
    (content : Bytes) : Prop where
  /-- the top bit of the size word is set -/
  stored : ∀ b ∈ f.blocks, storedBit ≤ b.word
  checksum : ∀ c, f.contentChecksum = some c → c = xxh32 content
  data : f.blocks.flatMap Block.data = content

/-- Nothing optional in the descriptor, and no block without data. -/
structure Frame.Plain (f : Frame) : Prop where
  options : f.options = []
  blocks : ∀ b ∈ f.blocks, b.data ≠ []

-- ============================================================= stored blocks

/-- A stored block as it is written. -/
def storedBlock (data : Bytes) : Bytes :=
  putU32Le (storedBit ||| UInt32.ofNat data.length) ++ data

theorem length_storedBlock (data : Bytes) :
    (storedBlock data).length = 4 + data.length := by
  rw [storedBlock, List.length_append, length_putU32Le]

/-- The size word of a stored block. -/
theorem storedWord_toNat {n : Nat} (h : n < 2 ^ 31) :
    (storedBit ||| UInt32.ofNat n).toNat = 2 ^ 31 + n := by
  have hn : (UInt32.ofNat n).toNat = n :=
    UInt32.toNat_ofNat_of_lt' (by unfold UInt32.size; omega)
  rw [UInt32.toNat_or, hn]
  exact (Nat.two_pow_add_eq_or_of_lt h 1).symm

/-- It is not taken for the end mark. -/
theorem storedWord_ne_zero {n : Nat} (h : n < 2 ^ 31) :
    storedBit ||| UInt32.ofNat n ≠ 0 := by
  intro hzero
  have hnat := congrArg UInt32.toNat hzero
  rw [storedWord_toNat h, UInt32.toNat_zero] at hnat
  omega

/-- It gives the size of the block. -/
theorem storedWord_size {n : Nat} (h : n < 2 ^ 31) :
    ((storedBit ||| UInt32.ofNat n) &&& sizeMask).toNat = n := by
  rw [UInt32.toNat_and, storedWord_toNat h]
  have hmask : sizeMask.toNat = 2 ^ 31 - 1 := rfl
  rw [hmask, Nat.and_two_pow_sub_one_eq_mod, Nat.add_mod_left,
    Nat.mod_eq_of_lt h]

/-- It says that the block is stored. -/
theorem storedBit_le_storedWord {n : Nat} (h : n < 2 ^ 31) :
    storedBit ≤ storedBit ||| UInt32.ofNat n := by
  rw [UInt32.le_iff_toNat_le, storedWord_toNat h]
  exact Nat.le_add_right ..

theorem length_storedBlocks (blocks : List Bytes) :
    (blocks.flatMap storedBlock).length
      = 4 * blocks.length + blocks.flatten.length := by
  induction blocks with
  | nil => rfl
  | cons data blocks ih =>
      rw [List.flatMap_cons, List.length_append, length_storedBlock, ih,
        List.length_cons, List.flatten_cons, List.length_append]
      omega

/-- A checksum is there if its flag is set. -/
theorem readChecksum_absent (buf : Bytes) :
    readChecksum 0 buf = .ok (none, buf) := rfl

theorem readChecksum_append {flag : UInt8} (h : flag ≠ 0)
    (checksum : UInt32) (rest : Bytes) :
    readChecksum flag (putU32Le checksum ++ rest)
      = .ok (some checksum, rest) := by
  rw [readChecksum, if_neg h, get_u32Le_append]
  rfl

/-- A stored block as it is read. -/
def blockOf (data : Bytes) : Block where
  word := storedBit ||| UInt32.ofNat data.length
  data := data
  checksum := none

/-- Stored blocks and the end mark. -/
theorem readBlocks_stored {blocks : List Bytes}
    (hsizes : ∀ data ∈ blocks, data.length < 2 ^ 31) {fuel : Nat}
    (hfuel : blocks.length < fuel) (rest : Bytes) :
    readBlocks 0 fuel (blocks.flatMap storedBlock ++ (putU32Le 0 ++ rest))
      = .ok (blocks.map blockOf, rest) := by
  induction blocks generalizing fuel with
  | nil =>
      obtain ⟨fuel, rfl⟩ : ∃ f, fuel = f + 1 := ⟨fuel - 1, by omega⟩
      rw [readBlocks, List.flatMap_nil, List.nil_append, get_u32Le_append]
      rfl
  | cons data blocks ih =>
      obtain ⟨hdata, hblocks⟩ := List.forall_mem_cons.mp hsizes
      rw [List.length_cons] at hfuel
      obtain ⟨fuel, rfl⟩ : ∃ f, fuel = f + 1 := ⟨fuel - 1, by omega⟩
      have hrest := ih hblocks (by omega : blocks.length < fuel)
      rw [readBlocks, List.flatMap_cons, storedBlock, List.append_assoc,
        List.append_assoc, get_u32Le_append,
        if_neg (storedWord_ne_zero hdata),
        get_take_append _ (storedWord_size hdata).symm]
      rw [Get.run_bind_ok (readChecksum_absent _), Get.run_bind_ok hrest]
      rfl

/-- A frame of stored blocks with a content checksum and nothing
optional, as it is written. -/
def storedFrame (flg bd headerChecksum : UInt8) (blocks : List Bytes)
    (contentChecksum : UInt32) : Bytes :=
  putU32Le magicNumber ++ (flg :: bd :: headerChecksum
    :: (blocks.flatMap storedBlock
      ++ (putU32Le 0 ++ putU32Le contentChecksum)))

/-- ... and as it is read. -/
theorem readFrame_stored {flg bd headerChecksum : UInt8}
    {blocks : List Bytes} {contentChecksum : UInt32}
    (hoptions : optionsSize flg = 0) (hblock : flg &&& 16 = 0)
    (hcontent : flg &&& 4 ≠ 0)
    (hsizes : ∀ data ∈ blocks, data.length < 2 ^ 31) (rest : Bytes) :
    readFrame (storedFrame flg bd headerChecksum blocks contentChecksum
        ++ rest)
      = .ok (⟨magicNumber, flg, bd, [], headerChecksum,
          blocks.map blockOf, some contentChecksum⟩, rest) := by
  have hcount : blocks.length < (blocks.flatMap storedBlock
      ++ (putU32Le 0 ++ (putU32Le contentChecksum ++ rest))).length := by
    simp only [List.length_append, length_putU32Le, length_storedBlocks]
    omega
  unfold readFrame storedFrame
  simp only [List.append_assoc, List.cons_append]
  rw [get_u32Le_append, get_u8_cons, get_u8_cons, hoptions, get_take_zero,
    get_u8_cons, hblock, Get.run_bind_ok (Get.run_get _),
    Get.run_bind_ok (readBlocks_stored hsizes hcount _),
    Get.run_bind_ok (readChecksum_append hcontent _ _)]
  rfl

end Lz4

end FactoryCacher
