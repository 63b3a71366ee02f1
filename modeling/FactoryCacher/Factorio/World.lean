/-
Taking a world apart and putting it together again
(factorio-cacher/src/factorio_world.rs).

# Taking apart

`deconstructWorld` reads the save archive with the `zip` crate (a
parameter, `ZipCrate`), undoes the game's own zlib layer on the level
data, and chunks every file into one shared chunk map.

# Putting together

`reconstructWorldFile` reads a file back through any chunk provider and
appends it to the new archive; the provider's calls may change a state
of its own and may fail, so the reading half runs in
`ExceptT Fault (StateM σ)` for an arbitrary `σ`. A failed read returns
before the reconstructor is touched. The writing half, `addFile`, is
pure.

`finalizeWorld` closes the archive at exactly the announced size: zero
padding, four bytes that forge the checksum, the central directory, then
the alignment to whole blocks and the auxiliary data. The error it
returns is `wontFit`; everything else in `FinalizeError` is a panic. The
alignment arithmetic is that of the source, with its casts: `u32` for
block counts, `usize` (64 bits here) for lengths, both wrapping.
-/
import FactoryCacher.Common.Dedup
import FactoryCacher.Factorio.Protocol
import FactoryCacher.Factorio.ZipWriter

namespace FactoryCacher

/-- `RECONSTRUCT_DEFLATE_LEVEL`. -/
def reconstructDeflateLevel : UInt8 := 1

-- ============================================================ descriptions

inductive FactorioFileType
  | normal
  | zlib
  deriving DecidableEq, Repr

structure FactorioFileDescription where
  fileType : FactorioFileType
  fileName : Bytes
  contentSize : UInt64
  chunkList : ChunkList

structure FactorioWorldDescription where
  files : List FactorioFileDescription
  auxData : Bytes
  totalChunks : UInt64

structure FactorioFile where
  fileType : FactorioFileType
  data : Bytes

-- ============================================================= file types

/-- What follows the last `/`. -/
def lastPathPart (fileName : Bytes) : Bytes :=
  (fileName.reverse.takeWhile (· ≠ 47)).reverse

/-- The bytes of `level.dat`. -/
def levelDat : Bytes := [108, 101, 118, 101, 108, 46, 100, 97, 116]

/-- Whether a path names level data: `level.dat` and digits. -/
def isLevelDat (fileName : Bytes) : Bool :=
  match levelDat.isPrefixOf? (lastPathPart fileName) with
  | none => false
  | some suffix => suffix.all fun c => 48 ≤ c && c ≤ 57

/-- The limit passed to `decompress_to_vec_zlib_with_limit`. -/
def decompressLimit : Nat := 20000000

/-- `decode_factorio_file`; `none` is the decompression error. -/
def decodeFactorioFile (miniz : MinizOxide) (fileName fileData : Bytes) :
    Option FactorioFile :=
  if isLevelDat fileName then
    (miniz.decompressToVecZlibWithLimit fileData decompressLimit).map
      fun data => { fileType := .zlib, data := data }
  else some { fileType := .normal, data := fileData }

/-- `encode_factorio_file`. -/
def encodeFactorioFile (miniz : MinizOxide) (file : FactorioFile) : Bytes :=
  match file.fileType with
  | .normal => file.data
  | .zlib => miniz.compressToVecZlib file.data reconstructDeflateLevel

-- ============================================================ taking apart

/-- An entry as the `zip` crate gives it: its name, and what
`read_to_end` makes of it. -/
structure ZipFile where
  name : Bytes
  contents : Option Bytes
  deriving DecidableEq

/-- What the program uses of the `zip` crate's reader: `ZipArchive::new`,
then `by_index` for every index. -/
structure ZipCrate where
  archive : Bytes → Option (List (Option ZipFile))

inductive DeconstructError
  /-- the archive, an entry, or its contents cannot be read -/
  | zip
  /-- level data does not decompress -/
  | inflate
  /-- the panic of `ChunkList::encode` -/
  | chunkListTooBig
  deriving DecidableEq, Repr

section Deconstruct

variable (blake3 : Bytes → ChunkKey) (miniz : MinizOxide)

/-- `chunk_file`. -/
def chunkFile (fileName : Bytes) (file : FactorioFile)
    (chunks : ChunkMap) : Option (FactorioFileDescription × ChunkMap) :=
  match chunkData blake3 file.data chunks with
  | none => none
  | some (chunkList, chunks) =>
      match minimizeChunkList blake3 chunkList chunks with
      | none => none
      | some (chunkList, chunks) =>
          some ({ fileType := file.fileType
                  fileName := fileName
                  contentSize := UInt64.ofNat file.data.length
                  chunkList := chunkList }, chunks)

/-- The loop of `deconstruct_world`. -/
def deconstructFiles (chunks : ChunkMap) : List (Option ZipFile) →
    Except DeconstructError (List FactorioFileDescription × ChunkMap)
  | [] => .ok ([], chunks)
  | zipFile :: rest =>
      match zipFile with
      | none => .error .zip
      | some zipFile =>
          match zipFile.contents with
          | none => .error .zip
          | some buf =>
              match decodeFactorioFile miniz zipFile.name buf with
              | none => .error .inflate
              | some decodedFile =>
                  match chunkFile blake3 zipFile.name decodedFile chunks with
                  | none => .error .chunkListTooBig
                  | some (file, chunks) =>
                      match deconstructFiles chunks rest with
                      | .error e => .error e
                      | .ok (files, chunks) => .ok (file :: files, chunks)

/-- `deconstruct_world`. -/
def deconstructWorld (zip : ZipCrate) (worldData auxData : Bytes) :
    Except DeconstructError (FactorioWorldDescription × ChunkMap) :=
  match zip.archive worldData with
  | none => .error .zip
  | some zipFiles =>
      match deconstructFiles blake3 miniz .empty zipFiles with
      | .error e => .error e
      | .ok (files, chunks) =>
          .ok ({ files := files
                 auxData := auxData
                 totalChunks := UInt64.ofNat chunks.len }, chunks)

end Deconstruct

-- ======================================================== putting together

structure WorldReconstructor (crc : CrcCrate) where
  zipWriter : ZipWriter
  crcHasher : crc.Digest

inductive FinalizePanic
  /-- an `expect` of `encode_central_directory` -/
  | centralDirectory
  /-- "final world size is not equal to target world size" -/
  | worldSize
  /-- "Forging CRC failed" -/
  | forgedCrc
  /-- a length no buffer can have -/
  | capacity
  /-- the alignment check at the end -/
  | alignment
  deriving DecidableEq, Repr

inductive FinalizeError
  /-- "Reconstructed world size ({}) won't fit inside of estimated size
  ({})" -/
  | wontFit (totalSize targetWorldSize : Nat)
  | panic (p : FinalizePanic)
  deriving DecidableEq, Repr

/-- `a - b + c` on `usize`, where `a` and `c` are lengths of buffers and
so do not overflow together. -/
def usizeSubAdd (a b c : Nat) : Nat :=
  if b ≤ a + c then a + c - b else a + c + 2 ^ 64 - b

/-- `BytesMut::resize` with zeros; lengths beyond `isize::MAX` panic. -/
def resize (buf : Bytes) (newLen : Nat) : Option Bytes :=
  if newLen ≤ buf.length then some (buf.take newLen)
  else if newLen < 2 ^ 63 then
    some (buf ++ List.replicate (newLen - buf.length) 0)
  else none

namespace WorldReconstructor

variable {crc : CrcCrate}

def new : WorldReconstructor crc :=
  { zipWriter := ZipWriter.new, crcHasher := crc.digest }

/-- What `reconstruct_world_file` does with the file's bytes; `none` is
a failed `expect` of `encode_file`. -/
def addFile (miniz : MinizOxide) (r : WorldReconstructor crc)
    (fileDesc : FactorioFileDescription) (buf : Bytes) :
    Option (WorldReconstructor crc × Bytes) :=
  let fileData := encodeFactorioFile miniz
    { fileType := fileDesc.fileType, data := buf }
  let deflateLevel := match fileDesc.fileType with
    | .normal => some reconstructDeflateLevel
    | .zlib => none
  match r.zipWriter.encodeFile crc miniz fileDesc.fileName fileData
      deflateLevel with
  | none => none
  | some (zipWriter, zipEntryData) =>
      some ({ zipWriter := zipWriter
              crcHasher := crc.update r.crcHasher zipEntryData },
        zipEntryData)

/-- `reconstruct_world_file`. -/
def reconstructWorldFile {σ : Type} (miniz : MinizOxide)
    (provider : ChunkProvider (ExceptT Fault (StateM σ))) (fuel : Nat)
    (r : WorldReconstructor crc) (fileDesc : FactorioFileDescription) :
    ExceptT Fault (StateM σ) (Option (WorldReconstructor crc × Bytes)) := do
  let buf ← collectData provider fuel fileDesc.chunkList
  return r.addFile miniz fileDesc buf

/-- The length `finalize_world` aligns `n` bytes to: a cast to `u32`, a
block count, and back. -/
def alignedLength (n : Nat) : Nat :=
  (blockCount (UInt32.ofNat n) * transferBlockSize).toNat

/-- The end of `finalize_world`: align the world, append the auxiliary
data, align it too. -/
def alignWorld (currentSize : Nat) (output auxData : Bytes)
    (targetWorldSize : Nat) : Except FinalizeError Bytes :=
  match resize output (usizeSubAdd (alignedLength targetWorldSize)
      targetWorldSize output.length) with
  | none => .error (.panic .capacity)
  | some world =>
      match resize (world ++ auxData)
          (usizeSubAdd (alignedLength auxData.length) auxData.length
            (world ++ auxData).length) with
      | none => .error (.panic .capacity)
      | some output =>
          if (currentSize + output.length) % transferBlockSize.toNat = 0
          then .ok output
          else .error (.panic .alignment)

/-- The size of the archive before it is padded; the +4 is for the bytes
that forge the checksum. -/
def totalSize (r : WorldReconstructor crc) : Nat :=
  r.zipWriter.currentSize + r.zipWriter.centralDirectorySize + 4

/-- The four bytes between the padding and the central directory: the
checksum up to the padding from the front, the auxiliary data and the
directory from the back. -/
def forgeBytes (r : WorldReconstructor crc) (padding zipFooter : Bytes)
    (auxData : Bytes) (targetCrc : UInt32) : Bytes :=
  forgeCrc (crc.finalize (crc.update r.crcHasher padding))
    ((((RevCRC.new crc).digest targetCrc).update auxData).update zipFooter)

/-- The two assertions on the closed archive, then the alignment. -/
def checkWorld (r : WorldReconstructor crc)
    (padding forgeBytes zipFooter auxData : Bytes) (targetWorldSize : Nat)
    (targetCrc : UInt32) : Except FinalizeError Bytes :=
  if r.zipWriter.currentSize + (padding ++ forgeBytes ++ zipFooter).length
      ≠ targetWorldSize then .error (.panic .worldSize)
  else if crc.finalize (crc.update (crc.update (crc.update
      (crc.update r.crcHasher padding) forgeBytes) zipFooter) auxData)
      ≠ targetCrc then .error (.panic .forgedCrc)
  else alignWorld r.zipWriter.currentSize
    (padding ++ forgeBytes ++ zipFooter) auxData targetWorldSize

/-- Close the archive behind its padding. -/
def closeWorld (r : WorldReconstructor crc) (padding auxData : Bytes)
    (targetWorldSize : Nat) (targetCrc : UInt32) :
    Except FinalizeError Bytes :=
  match (r.zipWriter.advanceOffset
      (padding.length + 4)).encodeCentralDirectory with
  | none => .error (.panic .centralDirectory)
  | some zipFooter =>
      r.checkWorld padding (r.forgeBytes padding zipFooter auxData targetCrc)
        zipFooter auxData targetWorldSize targetCrc

/-- `finalize_world`. -/
def finalizeWorld (r : WorldReconstructor crc)
    (worldDesc : FactorioWorldDescription) (targetWorldSize : Nat)
    (targetCrc : UInt32) : Except FinalizeError Bytes :=
  if r.totalSize > targetWorldSize then
    .error (.wontFit r.totalSize targetWorldSize)
  else
    r.closeWorld (List.replicate (targetWorldSize - r.totalSize) 0)
      worldDesc.auxData targetWorldSize targetCrc

end WorldReconstructor

end FactoryCacher
