/-
The description of a world in MessagePack: what rmp_serde makes of a
`WorldReadyMessage` (factorio-cacher/src/protocol.rs), from its derived
serializers.

A struct is the array of its fields in their order, a variant without
fields its name, a chunk key is a byte string of 32 bytes and a file
name a text. Of a name only the bytes are looked at, not whether they are
UTF-8. Everything is read back that fits the lengths of the format
(`standardWorldMessagePack_reads`).
-/
import FactoryCacher.Common.Proofs.TalkSafety
import FactoryCacher.Factorio.WorldTransfer

namespace FactoryCacher

open MsgPack (Codec)

/-- A `u64`, refused if the number is larger. -/
def u64Codec : Codec UInt64 :=
  Codec.uint.via UInt64.toNat
    (fun n => if n < 2 ^ 64 then some (UInt64.ofNat n) else none)
    (fun n => by rw [if_pos n.toNat_lt, UInt64.ofNat_toNat])

/-- A `u32`. -/
def u32Codec : Codec UInt32 :=
  Codec.uint.via UInt32.toNat
    (fun n => if n < 2 ^ 32 then some (UInt32.ofNat n) else none)
    (fun n => by rw [if_pos n.toNat_lt, UInt32.ofNat_toNat])

/-- `ChunkList`. -/
def chunkListCodec : Codec ChunkList :=
  (Codec.struct 2 (by decide) (Codec.bool.pair keyCodec.array)).via
    (fun list => (list.isLeaf, list.chunks))
    (fun raw => some ⟨raw.1, raw.2⟩) (fun _ => rfl)

namespace FactorioFileType

/-- The name of a variant: `Normal` and `Zlib`. -/
def variant : FactorioFileType → Bytes
  | .normal => [78, 111, 114, 109, 97, 108]
  | .zlib => [90, 108, 105, 98]

/-- Any other name is refused. -/
def ofVariant (name : Bytes) : Option FactorioFileType :=
  if name = variant .normal then some .normal
  else if name = variant .zlib then some .zlib
  else none

end FactorioFileType

/-- `FactorioFileType`. -/
def fileTypeCodec : Codec FactorioFileType :=
  Codec.str.via FactorioFileType.variant FactorioFileType.ofVariant
    (by intro fileType; cases fileType <;> decide)

/-- `FactorioFileDescription`. -/
def fileDescriptionCodec : Codec FactorioFileDescription :=
  (Codec.struct 4 (by decide)
    (fileTypeCodec.pair (Codec.str.pair (u64Codec.pair chunkListCodec)))).via
    (fun file =>
      (file.fileType, file.fileName, file.contentSize, file.chunkList))
    (fun raw => some ⟨raw.1, raw.2.1, raw.2.2.1, raw.2.2.2⟩)
    (fun _ => rfl)

/-- `FactorioWorldDescription`. -/
def worldDescriptionCodec : Codec FactorioWorldDescription :=
  (Codec.struct 3 (by decide)
    (fileDescriptionCodec.array.pair (Codec.bin.pair u64Codec))).via
    (fun world => (world.files, world.auxData, world.totalChunks))
    (fun raw => some ⟨raw.1, raw.2.1, raw.2.2⟩) (fun _ => rfl)

/-- `FactorioWorldMetadata`. -/
def metadataCodec : Codec FactorioWorldMetadata :=
  (Codec.struct 5 (by decide)
    (u32Codec.pair (u32Codec.pair (u32Codec.pair
      (u32Codec.pair u32Codec))))).via
    (fun info => (info.worldSize, info.noIdea1, info.auxSize, info.noIdea2,
      info.worldCrc))
    (fun raw =>
      some ⟨raw.1, raw.2.1, raw.2.2.1, raw.2.2.2.1, raw.2.2.2.2⟩)
    (fun _ => rfl)

/-- `WorldReadyMessage`. -/
def worldReadyCodec : Codec WorldReadyMessage :=
  (Codec.struct 3 (by decide)
    (worldDescriptionCodec.pair (metadataCodec.pair metadataCodec))).via
    (fun message => (message.world, message.oldInfo, message.newInfo))
    (fun raw => some ⟨raw.1, raw.2.1, raw.2.2⟩) (fun _ => rfl)

/-- MessagePack itself. -/
def standardWorldMessagePack : WorldMessagePack where
  writeWorldReady := worldReadyCodec.write
  readWorldReady := worldReadyCodec.decode

/-- The lengths of the format. -/
structure WorldReadyMessage.Packable (message : WorldReadyMessage) :
    Prop where
  files : message.world.files.length < 2 ^ 32
  names : ∀ file ∈ message.world.files, file.fileName.length < 2 ^ 32
  lists : ∀ file ∈ message.world.files,
    file.chunkList.chunks.length < 2 ^ 32
  aux : message.world.auxData.length < 2 ^ 32

/-- Numbers and variants always fit. -/
theorem u64Codec_fits (n : UInt64) : u64Codec.Fits n := n.toNat_lt

theorem metadataCodec_fits (info : FactorioWorldMetadata) :
    metadataCodec.Fits info := by
  have hfits : ∀ n : UInt32, u32Codec.Fits n := fun n =>
    n.toNat_lt.trans (by decide)
  exact ⟨hfits _, hfits _, hfits _, hfits _, hfits _⟩

theorem fileTypeCodec_fits (fileType : FactorioFileType) :
    fileTypeCodec.Fits fileType := by
  show fileType.variant.length < 2 ^ 32
  cases fileType <;> decide

/-- A description that fits is read back. -/
theorem standardWorldMessagePack_reads {message : WorldReadyMessage}
    (h : message.Packable) :
    standardWorldMessagePack.readWorldReady
      (standardWorldMessagePack.writeWorldReady message) = some message := by
  have hworld : worldDescriptionCodec.Fits message.world := by
    refine ⟨⟨h.files, ?_⟩, h.aux, u64Codec_fits _⟩
    intro file hfile
    exact ⟨fileTypeCodec_fits _, h.names file hfile, u64Codec_fits _,
      trivial, h.lists file hfile, fun key _ => keyCodec_fits key⟩
  exact worldReadyCodec.decode_write
    ⟨hworld, metadataCodec_fits _, metadataCodec_fits _⟩

end FactoryCacher
