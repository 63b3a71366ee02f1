/-
A ZIP reader: the format, from the reader's side.

The reader takes the end-of-central-directory record from the last 22
bytes of the archive, walks the central directory by the count, size and
offset found there, and for every central record follows its local
header offset to the entry's data, which it decodes by its compression
method. Nothing is checked beyond what reading needs: magic numbers,
bounds, and that the directory is used up by its records. What the
records say about each other is for a statement about an archive to
claim; `Entry.Plain` and `EndRecord.Plain` are the usual ones, those of
an entry and of an end record no reader has a reason to refuse, if the
entries are in front of the directory (`Entry.Before`). A name is UTF-8
if its entry is marked so, and code page 437 otherwise
(`CentralRecord.decodedName`).

An end record whose count or offset is all ones may stand for a ZIP64
one. A reader then looks for a locator right in front of it, and there is
none if the signature is not there (`HasZip64Locator`).
-/
import FactoryCacher.Lib.Bytes
import FactoryCacher.Lib.Cp437
import FactoryCacher.Lib.Crc

namespace FactoryCacher

namespace Zip

-- ================================================================= records

structure LocalHeader where
  magic : UInt32
  versionNeeded : UInt16
  flags : UInt16
  method : UInt16
  modTime : UInt16
  modDate : UInt16
  crc : UInt32
  compressedSize : UInt32
  uncompressedSize : UInt32
  name : Bytes
  extra : Bytes

structure CentralRecord where
  magic : UInt32
  versionMadeBy : UInt16
  versionNeeded : UInt16
  flags : UInt16
  method : UInt16
  modTime : UInt16
  modDate : UInt16
  crc : UInt32
  compressedSize : UInt32
  uncompressedSize : UInt32
  diskStart : UInt16
  internalAttributes : UInt16
  externalAttributes : UInt32
  localOffset : UInt32
  name : Bytes
  extra : Bytes
  comment : Bytes

structure EndRecord where
  magic : UInt32
  disk : UInt16
  directoryDisk : UInt16
  diskEntries : UInt16
  totalEntries : UInt16
  directorySize : UInt32
  directoryOffset : UInt32
  commentLength : UInt16

def localMagic : UInt32 := 0x04034b50
def centralMagic : UInt32 := 0x02014b50
def endMagic : UInt32 := 0x06054b50

/-- The size of the end record without a comment. -/
def endRecordSize : Nat := 22

def readLocalHeader : Get LocalHeader := do
  let magic ← tryGetU32Le
  let versionNeeded ← tryGetU16Le
  let flags ← tryGetU16Le
  let method ← tryGetU16Le
  let modTime ← tryGetU16Le
  let modDate ← tryGetU16Le
  let crc ← tryGetU32Le
  let compressedSize ← tryGetU32Le
  let uncompressedSize ← tryGetU32Le
  let nameLength ← tryGetU16Le
  let extraLength ← tryGetU16Le
  let name ← tryTake nameLength.toNat
  let extra ← tryTake extraLength.toNat
  return { magic, versionNeeded, flags, method, modTime, modDate, crc,
           compressedSize, uncompressedSize, name, extra }

def readCentralRecord : Get CentralRecord := do
  let magic ← tryGetU32Le
  let versionMadeBy ← tryGetU16Le
  let versionNeeded ← tryGetU16Le
  let flags ← tryGetU16Le
  let method ← tryGetU16Le
  let modTime ← tryGetU16Le
  let modDate ← tryGetU16Le
  let crc ← tryGetU32Le
  let compressedSize ← tryGetU32Le
  let uncompressedSize ← tryGetU32Le
  let nameLength ← tryGetU16Le
  let extraLength ← tryGetU16Le
  let commentLength ← tryGetU16Le
  let diskStart ← tryGetU16Le
  let internalAttributes ← tryGetU16Le
  let externalAttributes ← tryGetU32Le
  let localOffset ← tryGetU32Le
  let name ← tryTake nameLength.toNat
  let extra ← tryTake extraLength.toNat
  let comment ← tryTake commentLength.toNat
  return { magic, versionMadeBy, versionNeeded, flags, method, modTime,
           modDate, crc, compressedSize, uncompressedSize, diskStart,
           internalAttributes, externalAttributes, localOffset, name,
           extra, comment }

def readEndRecord : Get EndRecord := do
  let magic ← tryGetU32Le
  let disk ← tryGetU16Le
  let directoryDisk ← tryGetU16Le
  let diskEntries ← tryGetU16Le
  let totalEntries ← tryGetU16Le
  let directorySize ← tryGetU32Le
  let directoryOffset ← tryGetU32Le
  let commentLength ← tryGetU16Le
  return { magic, disk, directoryDisk, diskEntries, totalEntries,
           directorySize, directoryOffset, commentLength }

-- ============================================================== the reader

/-- `count` central records that use up the directory. -/
def readDirectory : Nat → Bytes → Option (List CentralRecord)
  | 0, buf => if buf.isEmpty then some [] else none
  | count + 1, buf =>
      match readCentralRecord buf with
      | .error _ => none
      | .ok (r, rest) =>
          if r.magic = centralMagic then
            (readDirectory count rest).map (r :: ·)
          else none

/-- An entry as read: both its headers, its stored bytes, its data. -/
structure Entry where
  central : CentralRecord
  header : LocalHeader
  stored : Bytes
  data : Bytes

/-- Stored bytes to data, by compression method. -/
def decodeStored (inflate : Bytes → Option Bytes) (method : UInt16)
    (stored : Bytes) : Option Bytes :=
  if method = 0 then some stored
  else if method = 8 then inflate stored
  else none

/-- Follow a central record to its entry. -/
def readEntry (inflate : Bytes → Option Bytes) (archive : Bytes)
    (r : CentralRecord) : Option Entry :=
  match readLocalHeader (archive.drop r.localOffset.toNat) with
  | .error _ => none
  | .ok (header, rest) =>
      if header.magic = localMagic
          ∧ r.compressedSize.toNat ≤ rest.length then
        let stored := rest.take r.compressedSize.toNat
        (decodeStored inflate r.method stored).map fun data =>
          { central := r, header, stored, data }
      else none

/-- The end record, in the last bytes of the archive. -/
def findEndRecord (archive : Bytes) : Option EndRecord :=
  match readEndRecord (archive.drop (archive.length - endRecordSize)) with
  | .error _ => none
  | .ok (e, _) => if e.magic = endMagic then some e else none

/-- Read an archive: its end record and its entries in directory
order. -/
def readZip (inflate : Bytes → Option Bytes) (archive : Bytes) :
    Option (EndRecord × List Entry) := do
  let e ← findEndRecord archive
  let records ← readDirectory e.totalEntries.toNat
    ((archive.drop e.directoryOffset.toNat).take e.directorySize.toNat)
  let entries ← records.mapM (readEntry inflate archive)
  return (e, entries)

-- ============================================================ plain entries

/-- General-purpose flag bit 11: the name is UTF-8. -/
def utf8Flag : UInt16 := 0x0800

/-- The name of an entry, as UTF-8. -/
def CentralRecord.decodedName (r : CentralRecord) : Bytes :=
  if r.flags &&& utf8Flag = 0 then Cp437.decode r.name else r.name

/-- An entry whose headers agree with each other and with its data, and
that uses nothing but the two compression methods and the mark on its
name. -/
structure Entry.Plain (e : Entry) : Prop where
  name : e.header.name = e.central.name
  flags : (e.central.flags = 0 ∨ e.central.flags = utf8Flag)
    ∧ e.header.flags = e.central.flags
  utf8 : e.central.flags = utf8Flag →
    e.central.name.toByteArray.IsValidUTF8
  method : e.header.method = e.central.method
  crc : e.central.crc = Crc.crc32 e.data ∧ e.header.crc = e.central.crc
  compressed : e.central.compressedSize.toNat = e.stored.length
    ∧ e.header.compressedSize = e.central.compressedSize
  uncompressed : e.central.uncompressedSize.toNat = e.data.length
    ∧ e.header.uncompressedSize = e.central.uncompressedSize
  extra : e.central.extra = [] ∧ e.header.extra = []
  comment : e.central.comment = []
  disk : e.central.diskStart = 0

/-- The size of a local header, without name and extra field. -/
def localHeaderSize : Nat := 30

/-- The entry, with its data, is in front of `offset`. -/
def Entry.Before (e : Entry) (offset : Nat) : Prop :=
  e.central.localOffset.toNat + localHeaderSize + e.header.name.length
    + e.header.extra.length + e.stored.length ≤ offset

-- ============================================================ the end record

/-- The size of a ZIP64 locator. -/
def zip64LocatorSize : Nat := 20

/-- The signature of a ZIP64 locator, where one has to be. -/
def HasZip64Locator (archive : Bytes) : Prop :=
  (archive.drop (archive.length - endRecordSize - zip64LocatorSize)).take 4
    = [0x50, 0x4b, 0x06, 0x07]

/-- The end record of an archive in one part, which is all there is and
is not a ZIP64 one. -/
structure EndRecord.Plain (e : EndRecord) (archive : Bytes) : Prop where
  disks : e.disk = 0 ∧ e.directoryDisk = 0
  entries : e.diskEntries = e.totalEntries
  comment : e.commentLength = 0
  whole : e.directoryOffset.toNat + e.directorySize.toNat + endRecordSize
    = archive.length
  zip64 : e.totalEntries = 0xFFFF ∨ e.directoryOffset = 0xFFFFFFFF →
    ¬ HasZip64Locator archive

end Zip

end FactoryCacher
