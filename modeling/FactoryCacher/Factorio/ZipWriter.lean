/-
The ZIP writer (factorio-cacher/src/zip_writer.rs).

`encodeFile` emits one entry and remembers what the directory needs;
`encodeCentralDirectory` emits the directory and the end record. Entries
are emitted as they come, so every offset is accumulated in
`currentOffset`, which `advanceOffset` moves past bytes the caller put
between the entries and the directory.

A file name is its UTF-8 bytes. A `try_into().expect(..)` that fails is
`none`. The deflate implementation is a parameter: `compressToVec` is
`miniz_oxide::deflate::compress_to_vec`.
-/
import FactoryCacher.Factorio.RevCrc

namespace FactoryCacher

/-- What the program uses of `miniz_oxide`. -/
structure MinizOxide where
  /-- `deflate::compress_to_vec` -/
  compressToVec : Bytes → UInt8 → Bytes
  /-- `deflate::compress_to_vec_zlib` -/
  compressToVecZlib : Bytes → UInt8 → Bytes
  /-- `inflate::decompress_to_vec_zlib_with_limit` -/
  decompressToVecZlibWithLimit : Bytes → Nat → Option Bytes

structure ZipEntryMetadata where
  startOffset : Nat
  fileName : Bytes
  fileNameSize : UInt16
  compressedSize : UInt32
  uncompressedSize : UInt32
  compressionMethod : UInt16
  dataCrc : UInt32

structure ZipWriter where
  currentOffset : Nat
  entries : List ZipEntryMetadata

/-- `u32::try_from`. -/
def tryU32 (n : Nat) : Option UInt32 :=
  if n < 2 ^ 32 then some (UInt32.ofNat n) else none

/-- `u16::try_from`. -/
def tryU16 (n : Nat) : Option UInt16 :=
  if n < 2 ^ 16 then some (UInt16.ofNat n) else none

namespace ZipWriter

/-- `CENTRAL_DIRECTORY_ENTRY_SIZE`. -/
def centralDirectoryEntrySize : Nat := 46

/-- `END_OF_CENTRAL_DIRECTORY_SIZE`. -/
def endOfCentralDirectorySize : Nat := 22

def new : ZipWriter := { currentOffset := 0, entries := [] }

/-- The local header `encode_file` writes, name included. -/
def localHeader (e : ZipEntryMetadata) : Bytes :=
  List.flatten
    [ putU32Le 0x04034b50            -- magic number
    , putU16Le 45                    -- version needed to extract
    , putU16Le 0                     -- flags
    , putU16Le e.compressionMethod
    , putU16Le 0                     -- file last modification time
    , putU16Le 0                     -- file last modification date
    , putU32Le e.dataCrc
    , putU32Le e.compressedSize
    , putU32Le e.uncompressedSize
    , putU16Le e.fileNameSize
    , putU16Le 0                     -- extra field length
    , e.fileName ]

/-- The data as it is stored, and its compression method: 0 = none,
8 = deflate. -/
def finalData (miniz : MinizOxide) (fileData : Bytes)
    (deflateLevel : Option UInt8) : Bytes × UInt16 :=
  match deflateLevel with
  | none => (fileData, 0)
  | some level => (miniz.compressToVec fileData level, 8)

/-- `encode_file`: the writer with the entry added, and the entry's
bytes. -/
def encodeFile (crc : CrcCrate) (miniz : MinizOxide) (w : ZipWriter)
    (fileName fileData : Bytes) (deflateLevel : Option UInt8) :
    Option (ZipWriter × Bytes) :=
  let final := finalData miniz fileData deflateLevel
  match tryU32 fileData.length, tryU32 final.1.length,
      tryU16 fileName.length with
  | some uncompressedSize, some compressedSize, some fileNameSize =>
      let entry : ZipEntryMetadata :=
        { startOffset := w.currentOffset
          fileName := fileName
          fileNameSize := fileNameSize
          compressedSize := compressedSize
          uncompressedSize := uncompressedSize
          compressionMethod := final.2
          dataCrc := crc.checksum fileData }
      some ({ currentOffset := w.currentOffset
                + (localHeader entry).length + final.1.length
              entries := w.entries ++ [entry] },
            localHeader entry ++ final.1)
  | _, _, _ => none

/-- `advance_offset`. -/
def advanceOffset (w : ZipWriter) (offset : Nat) : ZipWriter :=
  { w with currentOffset := w.currentOffset + offset }

/-- The directory record of one entry, its local header at `offset`. -/
def centralRecord (e : ZipEntryMetadata) (offset : UInt32) : Bytes :=
  List.flatten
    [ putU32Le 0x02014b50            -- magic number
    , putU16Le 45                    -- version made by
    , putU16Le 45                    -- version needed to extract
    , putU16Le 0                     -- flags
    , putU16Le e.compressionMethod
    , putU16Le 0                     -- file last modification time
    , putU16Le 0                     -- file last modification date
    , putU32Le e.dataCrc
    , putU32Le e.compressedSize
    , putU32Le e.uncompressedSize
    , putU16Le e.fileNameSize
    , putU16Le 0                     -- extra field length
    , putU16Le 0                     -- file comment length
    , putU16Le 0                     -- disk number where file starts
    , putU16Le 0                     -- internal file attributes
    , putU32Le 0                     -- external file attributes
    , putU32Le offset
    , e.fileName ]

/-- The end-of-central-directory record. -/
def endRecord (entryCount : UInt16)
    (centralDirectorySize centralDirectoryOffset : UInt32) : Bytes :=
  List.flatten
    [ putU32Le 0x06054b50            -- magic number
    , putU16Le 0                     -- number of this disk
    , putU16Le 0                     -- disk where the directory starts
    , putU16Le entryCount            -- records on this disk
    , putU16Le entryCount            -- records in total
    , putU32Le centralDirectorySize
    , putU32Le centralDirectoryOffset
    , putU16Le 0 ]                   -- comment length

/-- The loop of `encode_central_directory`. -/
def encodeRecords : List ZipEntryMetadata → Option Bytes
  | [] => some []
  | e :: rest =>
      match tryU32 e.startOffset, encodeRecords rest with
      | some offset, some records =>
          some (centralRecord e offset ++ records)
      | _, _ => none

/-- `encode_central_directory`. -/
def encodeCentralDirectory (w : ZipWriter) : Option Bytes :=
  match tryU32 w.currentOffset, tryU16 w.entries.length,
      encodeRecords w.entries with
  | some centralDirectoryOffset, some entryCount, some records =>
      match tryU32 records.length with
      | some centralDirectorySize =>
          some (records ++ endRecord entryCount centralDirectorySize
            centralDirectoryOffset)
      | none => none
  | _, _, _ => none

/-- `central_directory_size`. -/
def centralDirectorySize (w : ZipWriter) : Nat :=
  w.entries.foldl
    (fun size e => size + (centralDirectoryEntrySize + e.fileName.length)) 0
    + endOfCentralDirectorySize

/-- `current_size`. -/
def currentSize (w : ZipWriter) : Nat := w.currentOffset

end ZipWriter

end FactoryCacher
