/-
The game's packets, as far as the proxies look at them
(factorio-cacher/src/factorio_protocol.rs, and the readers of
common/src/utils.rs it uses).

A packet starts with a flag byte: five bits of type, and two bits that
say whether fragmentation fields follow. Only three packet types are
told apart; everything else is passed through by number. The map-ready
heartbeat carries `FactorioWorldMetadata`, the announcement the server
proxy rewrites.

The world is transferred in blocks of `transferBlockSize` bytes. All
block arithmetic of the source is on `u32` and wraps; `blockCount` is
the one expression, and `blockCount_toNat` says up to which size it is
the ceiling it is meant to be.
-/
import FactoryCacher.Lib.Bytes

namespace FactoryCacher

-- ================================================================= readers

/-- `try_get_factorio_varint32`: one byte, or `0xFF` and four bytes. -/
def tryGetFactorioVarint32 : Get UInt32 := do
  let byte ← tryGetU8
  if byte = 0xFF then tryGetU32Le else return byte.toUInt32

/-- `try_get_factorio_varint16`. -/
def tryGetFactorioVarint16 : Get UInt16 := do
  let byte ← tryGetU8
  if byte = 0xFF then tryGetU16Le else return byte.toUInt16

/-- `try_advance`. -/
def tryAdvance (len : Nat) : Get Unit := do
  let _ ← tryTake len
  return ()

-- ================================================================= headers

inductive PacketType
  | serverToClientHeartbeat
  | transferBlockRequest
  | transferBlock
  | unknown (val : UInt8)
  deriving DecidableEq, Repr

/-- `impl From<u8> for PacketType`. -/
def PacketType.ofU8 (val : UInt8) : PacketType :=
  if val = 7 then serverToClientHeartbeat
  else if val = 12 then transferBlockRequest
  else if val = 13 then transferBlock
  else unknown val

/-- `impl Into<u8> for PacketType`. -/
def PacketType.toU8 : PacketType → UInt8
  | serverToClientHeartbeat => 7
  | transferBlockRequest => 12
  | transferBlock => 13
  | unknown val => val

structure PacketFragmentationInfo where
  isLastFragment : Bool
  messageId : UInt16
  fragmentId : Option UInt16
  deriving DecidableEq, Repr

structure FactorioPacketHeader where
  packetType : PacketType
  fragmentation : Option PacketFragmentationInfo
  deriving DecidableEq, Repr

namespace FactorioPacketHeader

def newUnfragmented (packetType : PacketType) : FactorioPacketHeader :=
  { packetType := packetType, fragmentation := none }

/-- The confirm array that follows a message id with its top bit set. -/
def skipConfirmArray (messageId : UInt16) : Get Unit :=
  if messageId &&& 0x8000 ≠ 0 then do
    let len ← tryGetU32Le
    tryAdvance len.toNat
  else return ()

/-- The fragment id, present in every fragment but the kind that is only
marked as last. -/
def decodeFragmentId (isFragmented : Bool) : Get (Option UInt16) :=
  if isFragmented then do
    let fragmentId ← tryGetFactorioVarint16
    return some fragmentId
  else return none

/-- The fragmentation fields. -/
def decodeFragmentation (isFragmented isLastFragment : Bool) :
    Get PacketFragmentationInfo := do
  let messageId ← tryGetU16Le
  let fragmentId ← decodeFragmentId isFragmented
  skipConfirmArray messageId
  return { isLastFragment := isLastFragment
           messageId := messageId &&& 0x7FFF
           fragmentId := fragmentId }

/-- `FactorioPacketHeader::decode`: the header, and the packet after
it. -/
def decode : Get FactorioPacketHeader := do
  let flags ← tryGetU8
  let packetType := PacketType.ofU8 (flags &&& 0b00011111)
  let isFragmented := flags &&& 0b01000000 != 0
  let isLastFragment := flags &&& 0b10000000 != 0
  if isFragmented || isLastFragment then do
    let fragmentation ← decodeFragmentation isFragmented isLastFragment
    return { packetType := packetType, fragmentation := some fragmentation }
  else return { packetType := packetType, fragmentation := none }

/-- `FactorioPacketHeader::encode`; its assertion is a precondition. -/
def encode (header : FactorioPacketHeader)
    (_unfragmented : header.fragmentation = none) : Bytes :=
  [header.packetType.toU8]

end FactorioPacketHeader

-- ================================================================= packets

/-- `trait FactorioPacket`. -/
class FactorioPacket (α : Type) where
  packetType : PacketType
  encode : α → Bytes

/-- `encode_full_packet`. -/
def encodeFullPacket {α : Type} [FactorioPacket α] (packet : α) : Bytes :=
  (FactorioPacketHeader.newUnfragmented
      (FactorioPacket.packetType α)).encode rfl
    ++ FactorioPacket.encode packet

structure TransferBlockRequestPacket where
  blockId : UInt32
  deriving DecidableEq, Repr

def TransferBlockRequestPacket.decode (data : Bytes) :
    Except TryGetError TransferBlockRequestPacket :=
  (tryGetU32Le data).map fun (blockId, _) => { blockId := blockId }

instance : FactorioPacket TransferBlockRequestPacket where
  packetType := .transferBlockRequest
  encode packet := putU32Le packet.blockId

structure TransferBlockPacket where
  blockId : UInt32
  data : Bytes
  deriving DecidableEq, Repr

/-- `TransferBlockPacket::decode`: the block is what follows its id. -/
def TransferBlockPacket.decode (data : Bytes) :
    Except TryGetError TransferBlockPacket :=
  (tryGetU32Le data).map fun (blockId, rest) =>
    { blockId := blockId, data := rest }

instance : FactorioPacket TransferBlockPacket where
  packetType := .transferBlock
  encode packet := putU32Le packet.blockId ++ packet.data

structure FactorioWorldMetadata where
  worldSize : UInt32
  noIdea1 : UInt32
  auxSize : UInt32
  noIdea2 : UInt32
  worldCrc : UInt32
  deriving DecidableEq, Repr

namespace FactorioWorldMetadata

def decode : Get FactorioWorldMetadata := do
  let worldSize ← tryGetU32Le
  let noIdea1 ← tryGetU32Le
  let auxSize ← tryGetU32Le
  let noIdea2 ← tryGetU32Le
  let worldCrc ← tryGetU32Le
  return { worldSize, noIdea1, auxSize, noIdea2, worldCrc }

def encode (info : FactorioWorldMetadata) : Bytes :=
  List.flatten
    [ putU32Le info.worldSize
    , putU32Le info.noIdea1
    , putU32Le info.auxSize
    , putU32Le info.noIdea2
    , putU32Le info.worldCrc ]

end FactorioWorldMetadata

/-- `ServerToClientHeartbeatPacket`, its `HeartbeatFlags` as a byte. -/
structure ServerToClientHeartbeatPacket where
  flags : UInt8
  data : Bytes
  deriving DecidableEq, Repr

namespace ServerToClientHeartbeatPacket

/-- `HeartbeatFlags::HasSynchronizerActions`. -/
def hasSynchronizerActions : UInt8 := 0x10

/-- `MAP_READY_FOR_DOWNLOAD_ACTION_ID`. -/
def mapReadyForDownloadActionId : UInt8 := 5

/-- `ServerToClientHeartbeatPacket::decode`; the sequence number is
skipped. -/
def decode (data : Bytes) :
    Except TryGetError ServerToClientHeartbeatPacket := do
  let (flags, data) ← tryGetU8 data
  let (_, data) ← tryGetU32Le data
  return { flags := flags, data := data }

/-- The first synchronizer action, if it is map-ready. -/
def decodeFirstAction : Get (Option FactorioWorldMetadata) := do
  let actionCount ← tryGetFactorioVarint32
  if 0 < actionCount then do
    let actionType ← tryGetU8
    if actionType = mapReadyForDownloadActionId then do
      let info ← FactorioWorldMetadata.decode
      return some info
    else return none
  else return none

/-- `try_decode_map_ready`. -/
def tryDecodeMapReady (packet : ServerToClientHeartbeatPacket) :
    Except TryGetError (Option FactorioWorldMetadata) :=
  if packet.flags = hasSynchronizerActions then
    (decodeFirstAction packet.data).map Prod.fst
  else return none

end ServerToClientHeartbeatPacket

/-- `PacketDirection`: where a proxy sends a packet. -/
inductive PacketDirection
  | toClient
  | toServer
  deriving DecidableEq, Repr

-- ============================================================= round trips

theorem FactorioPacketHeader.decode_encodeFullPacket {α : Type}
    [FactorioPacket α] (packet : α)
    (h : FactorioPacket.packetType α = .transferBlockRequest
      ∨ FactorioPacket.packetType α = .transferBlock) :
    FactorioPacketHeader.decode (encodeFullPacket packet)
      = .ok (newUnfragmented (FactorioPacket.packetType α),
          FactorioPacket.encode packet) := by
  unfold encodeFullPacket
  rcases h with h | h
  · rw [h]
    rfl
  · rw [h]
    rfl

@[simp] theorem TransferBlockRequestPacket.decode_encode
    (packet : TransferBlockRequestPacket) :
    TransferBlockRequestPacket.decode (FactorioPacket.encode packet)
      = .ok packet := by
  have h := run_tryGetU32Le_append packet.blockId []
  rw [List.append_nil] at h
  show (tryGetU32Le (putU32Le packet.blockId)).map _ = _
  rw [h]
  rfl

@[simp] theorem TransferBlockPacket.decode_encode
    (packet : TransferBlockPacket) :
    TransferBlockPacket.decode (FactorioPacket.encode packet)
      = .ok packet := by
  show (tryGetU32Le (putU32Le packet.blockId ++ packet.data)).map _ = _
  rw [run_tryGetU32Le_append]
  rfl

@[simp] theorem FactorioWorldMetadata.length_encode
    (info : FactorioWorldMetadata) : info.encode.length = 20 := by
  simp only [FactorioWorldMetadata.encode, List.length_flatten,
    List.map_cons, List.map_nil, List.sum_cons, List.sum_nil,
    length_putU32Le]
  rfl

-- ================================================================== blocks

/-- `TRANSFER_BLOCK_SIZE`. -/
def transferBlockSize : UInt32 := 503

/-- `(size + TRANSFER_BLOCK_SIZE - 1) / TRANSFER_BLOCK_SIZE`, on `u32`:
the blocks a length takes. -/
def blockCount (size : UInt32) : UInt32 :=
  (size + transferBlockSize - 1) / transferBlockSize

/-- The blocks `n` bytes take. -/
def ceilBlocks (n : Nat) : Nat := (n + 502) / 503

/-- `n` bytes rounded up to whole blocks. -/
def alignUp (n : Nat) : Nat := 503 * ceilBlocks n

theorem le_alignUp (n : Nat) : n ≤ alignUp n := by
  unfold alignUp ceilBlocks
  omega

theorem alignUp_lt (n : Nat) : alignUp n < n + 503 := by
  unfold alignUp ceilBlocks
  omega

@[simp] theorem transferBlockSize_toNat : transferBlockSize.toNat = 503 :=
  rfl

/-- The count wraps as `size + 502` does. -/
theorem toNat_blockCount (size : UInt32) :
    (blockCount size).toNat = (size.toNat + 502) % 2 ^ 32 / 503 := by
  have hsum : (size + transferBlockSize - 1).toNat
      = (size.toNat + 502) % 2 ^ 32 := by
    rw [UInt32.toNat_sub, UInt32.toNat_add, transferBlockSize_toNat,
      show (1 : UInt32).toNat = 1 from rfl]
    omega
  rw [blockCount, UInt32.toNat_div, hsum, transferBlockSize_toNat]

/-- Up to this size the count is the ceiling. -/
theorem blockCount_toNat {size : UInt32} (h : size.toNat ≤ 2 ^ 32 - 503) :
    (blockCount size).toNat = ceilBlocks size.toNat := by
  rw [toNat_blockCount, Nat.mod_eq_of_lt (by omega), ceilBlocks]

/-- From here on it wraps to nothing. -/
theorem blockCount_of_wraps {size : UInt32}
    (h : 2 ^ 32 - 503 < size.toNat) : blockCount size = 0 := by
  have hlt := size.toNat_lt
  have hzero : (size.toNat + 502) % 2 ^ 32 / 503 = 0 := by omega
  apply UInt32.toNat_inj.mp
  rw [toNat_blockCount, hzero]
  rfl

/-- ... and whole blocks do not wrap either. -/
theorem blockCount_mul_toNat {size : UInt32}
    (h : size.toNat ≤ 2 ^ 32 - 503) :
    (blockCount size * transferBlockSize).toNat = alignUp size.toNat := by
  have hlt := alignUp_lt size.toNat
  rw [UInt32.toNat_mul, blockCount_toNat h, transferBlockSize_toNat,
    Nat.mul_comm]
  exact Nat.mod_eq_of_lt (by unfold alignUp at hlt; omega)

end FactoryCacher
