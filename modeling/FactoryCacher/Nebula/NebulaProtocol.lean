/-
The Nebula packets that are deduplicated
(dsp-nebula-cacher/src/nebula_protocol).

Three packets of the game carry an LZ4 frame: a header with a leading
field and the frame's length, the frame, and for two of them a trailer.
`deconstruct` decompresses the frame, chunks its content (and the
terrain data of a factory), and keeps the other fields; `reconstruct`
sends the packet again fragment by fragment, with a frame made by the
deterministic encoder, whose length it announces before it has the data.

`decode` is a reader: it leaves what follows the header, which is what
`deconstruct` is given. Bytes after the trailer are ignored.

`reconstruct` is generic in its provider and in where it sends to, as
`reconstructData` is in its consumer: `send` is an action of the same
monad, and a send to nobody may fail. The LZ4 decoder is a parameter:
`lz4` is `decompress_lz4`, `none` its error.
-/
import FactoryCacher.Common.Dedup
import FactoryCacher.Nebula.Lz4FrameEncoder

namespace FactoryCacher

-- ================================================================ packet ids

/-- `fnv1_hash` (which is FNV-1a: the byte goes in first). -/
def fnv1Hash (data : Bytes) : UInt64 :=
  data.foldl (fun hash byte => (hash ^^^ byte.toUInt64) * 1099511628211)
    14695981039346656037

/-- The bytes of an ASCII name. -/
def asciiBytes (name : String) : Bytes :=
  name.toList.map fun c => UInt8.ofNat c.toNat

/-- `GAME_DATA_PACKET_ID`. -/
def gameDataPacketId : UInt64 :=
  fnv1Hash (asciiBytes "NebulaModel.Packets.Session.GlobalGameDataResponse")

/-- `FACTORY_DATA_PACKET_ID`. -/
def factoryDataPacketId : UInt64 :=
  fnv1Hash (asciiBytes "NebulaModel.Packets.Planet.FactoryData")

/-- `DYSON_SPHERE_DATA_PACKET_ID`. -/
def dysonSphereDataPacketId : UInt64 :=
  fnv1Hash (asciiBytes "NebulaModel.Packets.Universe.DysonSphereData")

-- =================================================================== headers

structure GlobalGameDataHeader where
  dataType : UInt8
  dataLength : UInt32
  deriving DecidableEq

structure FactoryDataHeader where
  planetId : UInt32
  dataLength : UInt32
  deriving DecidableEq

structure DysonSphereDataHeader where
  starIndex : UInt32
  dataLength : UInt32
  deriving DecidableEq

def GlobalGameDataHeader.decode : Get GlobalGameDataHeader := do
  let dataType ← tryGetU8
  let dataLength ← tryGetU32Le
  return { dataType, dataLength }

def FactoryDataHeader.decode : Get FactoryDataHeader := do
  let planetId ← tryGetU32Le
  let dataLength ← tryGetU32Le
  return { planetId, dataLength }

def DysonSphereDataHeader.decode : Get DysonSphereDataHeader := do
  let starIndex ← tryGetU32Le
  let dataLength ← tryGetU32Le
  return { starIndex, dataLength }

inductive NebulaPacketHeader
  | globalGameData (header : GlobalGameDataHeader)
  | factoryData (header : FactoryDataHeader)
  | dysonSphereData (header : DysonSphereDataHeader)
  deriving DecidableEq

namespace NebulaPacketHeader

/-- `NebulaPacketHeader::decode`; `none` is any other packet. -/
def decode : Get (Option NebulaPacketHeader) := do
  let packetType ← tryGetU64Le
  if packetType = gameDataPacketId then do
    let header ← GlobalGameDataHeader.decode
    return some (.globalGameData header)
  else if packetType = factoryDataPacketId then do
    let header ← FactoryDataHeader.decode
    return some (.factoryData header)
  else if packetType = dysonSphereDataPacketId then do
    let header ← DysonSphereDataHeader.decode
    return some (.dysonSphereData header)
  else return none

/-- `data_length`, of whichever packet. -/
def dataLength : NebulaPacketHeader → UInt32
  | .globalGameData header => header.dataLength
  | .factoryData header => header.dataLength
  | .dysonSphereData header => header.dataLength

/-- `approx_size`. -/
def approxSize (header : NebulaPacketHeader) : Nat := header.dataLength.toNat

end NebulaPacketHeader

-- ============================================================ deconstructing

structure GlobalGameDataPacket where
  dataType : UInt8
  dataUncompressedLength : UInt64
  dataChunkList : ChunkList
  deriving DecidableEq

structure FactoryDataPacket where
  planetId : UInt32
  dataUncompressedLength : UInt64
  dataChunkList : ChunkList
  terrainDataLength : UInt32
  terrainDataChunkList : ChunkList
  deriving DecidableEq

structure DysonSphereDataPacket where
  starIndex : UInt32
  dataUncompressedLength : UInt64
  dataChunkList : ChunkList
  eventType : UInt32
  deriving DecidableEq

inductive NebulaPacket
  | globalGameData (packet : GlobalGameDataPacket)
  | factoryData (packet : FactoryDataPacket)
  | dysonSphereData (packet : DysonSphereDataPacket)
  deriving DecidableEq

inductive PacketError
  /-- "Packet data is too short" -/
  | tooShort
  /-- "Decompressing lz4 data" -/
  | lz4
  /-- a field that is cut off -/
  | tryGet (e : TryGetError)
  /-- the panic of `ChunkList::encode` -/
  | chunkListTooBig
  deriving DecidableEq

/-- `try_split_to`: what is split off, and what is left. -/
def trySplitTo (packetData : Bytes) (dataLength : Nat) :
    Except PacketError (Bytes × Bytes) :=
  if packetData.length < dataLength then .error .tooShort
  else .ok (packetData.take dataLength, packetData.drop dataLength)

section Deconstruct

variable (blake3 : Bytes → ChunkKey) (lz4 : Bytes → Option Bytes)

/-- `deconstruct_lz4_data`: the chunk list and the length, what is left of
the packet, and the chunk map. -/
def deconstructLz4Data (packetData : Bytes) (dataLength : Nat)
    (allChunks : ChunkMap) :
    Except PacketError ((ChunkList × UInt64) × Bytes × ChunkMap) :=
  match trySplitTo packetData dataLength with
  | .error e => .error e
  | .ok (compressedData, rest) =>
      match lz4 compressedData with
      | none => .error .lz4
      | some decompressedData =>
          match chunkData blake3 decompressedData allChunks with
          | none => .error .chunkListTooBig
          | some (chunkList, allChunks) =>
              .ok ((chunkList, UInt64.ofNat decompressedData.length), rest,
                allChunks)

def GlobalGameDataPacket.deconstruct (header : GlobalGameDataHeader)
    (packetData : Bytes) (allChunks : ChunkMap) :
    Except PacketError (GlobalGameDataPacket × ChunkMap) :=
  match deconstructLz4Data blake3 lz4 packetData header.dataLength.toNat
      allChunks with
  | .error e => .error e
  | .ok ((dataChunkList, dataUncompressedLength), _, allChunks) =>
      .ok ({ dataType := header.dataType
             dataUncompressedLength
             dataChunkList }, allChunks)

def FactoryDataPacket.deconstruct (header : FactoryDataHeader)
    (packetData : Bytes) (allChunks : ChunkMap) :
    Except PacketError (FactoryDataPacket × ChunkMap) :=
  match deconstructLz4Data blake3 lz4 packetData header.dataLength.toNat
      allChunks with
  | .error e => .error e
  | .ok ((dataChunkList, dataUncompressedLength), rest, allChunks) =>
      match tryGetU32Le rest with
      | .error e => .error (.tryGet e)
      | .ok (terrainDataLength, rest) =>
          match trySplitTo rest terrainDataLength.toNat with
          | .error e => .error e
          | .ok (terrainData, _) =>
              match chunkData blake3 terrainData allChunks with
              | none => .error .chunkListTooBig
              | some (terrainDataChunkList, allChunks) =>
                  .ok ({ planetId := header.planetId
                         dataUncompressedLength
                         dataChunkList
                         terrainDataLength
                         terrainDataChunkList }, allChunks)

def DysonSphereDataPacket.deconstruct (header : DysonSphereDataHeader)
    (packetData : Bytes) (allChunks : ChunkMap) :
    Except PacketError (DysonSphereDataPacket × ChunkMap) :=
  match deconstructLz4Data blake3 lz4 packetData header.dataLength.toNat
      allChunks with
  | .error e => .error e
  | .ok ((dataChunkList, dataUncompressedLength), rest, allChunks) =>
      match tryGetU32Le rest with
      | .error e => .error (.tryGet e)
      | .ok (eventType, _) =>
          .ok ({ starIndex := header.starIndex
                 dataUncompressedLength
                 dataChunkList
                 eventType }, allChunks)

/-- `NebulaPacketHeader::deconstruct`. -/
def NebulaPacketHeader.deconstruct (header : NebulaPacketHeader)
    (packetData : Bytes) (allChunks : ChunkMap) :
    Except PacketError (NebulaPacket × ChunkMap) :=
  match header with
  | .globalGameData header =>
      (GlobalGameDataPacket.deconstruct blake3 lz4 header packetData
        allChunks).map fun out => (.globalGameData out.1, out.2)
  | .factoryData header =>
      (FactoryDataPacket.deconstruct blake3 lz4 header packetData
        allChunks).map fun out => (.factoryData out.1, out.2)
  | .dysonSphereData header =>
      (DysonSphereDataPacket.deconstruct blake3 lz4 header packetData
        allChunks).map fun out => (.dysonSphereData out.1, out.2)

end Deconstruct

-- ============================================================ reconstructing

section Reconstruct

variable (xx : XxHash32) {m : Type → Type} [Monad m]
  [MonadExceptOf Fault m] (provider : ChunkProvider m)
  (send : Bytes → m Unit) (fuel : Nat)

/-- The body of the loop of `reconstruct_lz4_data`: a chunk into the
encoder, and a fragment out if there is one. -/
def frameChunk (chunk : Bytes) :
    StateT (Lz4DeterministicFrameEncoder xx) m Unit := fun frameEncoder =>
  match frameEncoder.addData chunk with
  | (frameEncoder, none) => pure ((), frameEncoder)
  | (frameEncoder, some fragment) => do
      send fragment
      return ((), frameEncoder)

/-- `reconstruct_lz4_data`. -/
def reconstructLz4Data (chunkList : ChunkList) : m Unit := do
  prefetchMetadataChunks provider fuel [chunkList]
  let (_, frameEncoder) ← (reconstructData
    (provider.liftState (Lz4DeterministicFrameEncoder xx))
    (frameChunk xx send) fuel chunkList).run (.new xx)
  send frameEncoder.finish

/-- `framed_size(..).try_into()?`. -/
def tryFramedSize (originalLen : UInt64) : m UInt32 :=
  if (framedSize originalLen).toNat < 2 ^ 32 then
    pure (UInt32.ofNat (framedSize originalLen).toNat)
  else throw Fault.framedSize

def GlobalGameDataPacket.reconstruct (packet : GlobalGameDataPacket) :
    m Unit := do
  let dataLength ← tryFramedSize packet.dataUncompressedLength
  send (putU64Le gameDataPacketId ++ packet.dataType
    :: putU32Le dataLength)
  reconstructLz4Data xx provider send fuel packet.dataChunkList

def FactoryDataPacket.reconstruct (packet : FactoryDataPacket) :
    m Unit := do
  let dataLength ← tryFramedSize packet.dataUncompressedLength
  send (putU64Le factoryDataPacketId ++ (putU32Le packet.planetId
    ++ putU32Le dataLength))
  reconstructLz4Data xx provider send fuel packet.dataChunkList
  send (putU32Le packet.terrainDataLength)
  reconstructData provider send fuel packet.terrainDataChunkList

def DysonSphereDataPacket.reconstruct (packet : DysonSphereDataPacket) :
    m Unit := do
  let dataLength ← tryFramedSize packet.dataUncompressedLength
  send (putU64Le dysonSphereDataPacketId ++ (putU32Le packet.starIndex
    ++ putU32Le dataLength))
  reconstructLz4Data xx provider send fuel packet.dataChunkList
  send (putU32Le packet.eventType)

/-- `NebulaPacket::reconstruct`. -/
def NebulaPacket.reconstruct (packet : NebulaPacket) : m Unit :=
  match packet with
  | .globalGameData packet => packet.reconstruct xx provider send fuel
  | .factoryData packet => packet.reconstruct xx provider send fuel
  | .dysonSphereData packet => packet.reconstruct xx provider send fuel

end Reconstruct

end FactoryCacher
