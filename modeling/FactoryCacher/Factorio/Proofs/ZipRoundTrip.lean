/-
The ZIP writer round trip: an archive written entry by entry, padded and
closed reads back as the entries that were written.

# The argument

`metas` lists what the writer remembers, entry by entry, with offsets as
running sums of the entries' lengths; `encodeFiles_spec` says the writer
computes exactly that, and that the body is the entries' bytes in order.
So the entry behind a remembered offset is found by splitting the
archive at a prefix of that length (`readEntries_spec`, by induction
over the entries with the prefix growing), and the directory parses
record by record (`encodeRecords_spec`). The padding sits between the
two and moves only the directory's own offset.
-/
import FactoryCacher.Lib.Zip
import FactoryCacher.Factorio.Proofs.Forge
import FactoryCacher.Factorio.ZipWriter

namespace FactoryCacher

open Zip

-- ======================================================= writing an archive

/-- One file to write. -/
structure ZipInput where
  name : Bytes
  data : Bytes
  level : Option UInt8

section Write

variable (crc : CrcCrate) (miniz : MinizOxide)

/-- `encode_file` on each file in turn; the emitted bytes. -/
def encodeFiles (w : ZipWriter) :
    List ZipInput → Option (ZipWriter × Bytes)
  | [] => some (w, [])
  | i :: rest =>
      match w.encodeFile crc miniz i.name i.data i.level with
      | none => none
      | some (w, entry) =>
          match encodeFiles w rest with
          | none => none
          | some (w, body) => some (w, entry ++ body)

/-- Files, then padding accounted for by `advance_offset`, then the
central directory: the final writer and the archive. -/
def writeArchive (inputs : List ZipInput) (padding : Bytes) :
    Option (ZipWriter × Bytes) :=
  match encodeFiles crc miniz ZipWriter.new inputs with
  | none => none
  | some (w, body) =>
      match (w.advanceOffset padding.length).encodeCentralDirectory with
      | none => none
      | some directory =>
          some (w.advanceOffset padding.length,
            body ++ padding ++ directory)

/-- The stored form of a file. -/
def ZipInput.stored (i : ZipInput) : Bytes :=
  (ZipWriter.finalData miniz i.data i.level).1

/-- The compression method of a file. -/
def ZipInput.method (i : ZipInput) : UInt16 :=
  (ZipWriter.finalData miniz i.data i.level).2

/-- The bytes an entry takes: fixed header, name, stored data. -/
def ZipInput.entrySize (i : ZipInput) : Nat :=
  30 + i.name.length + (i.stored miniz).length

/-- The bounds of the format: counts and name lengths in sixteen bits,
sizes and offsets in thirty-two. -/
structure ZipFits (inputs : List ZipInput) (padding : Bytes) : Prop where
  count : inputs.length ≤ 65535
  names : ∀ i ∈ inputs, i.name.length ≤ 65535
  sizes : ∀ i ∈ inputs,
    i.data.length < 2 ^ 32 ∧ (i.stored miniz).length < 2 ^ 32
  offset : (inputs.map fun i => i.entrySize miniz).sum + padding.length
    < 2 ^ 32
  directory : (inputs.map fun i => 46 + i.name.length).sum < 2 ^ 32

/-- What the writer remembers of a file written at `offset`. -/
def metaOf (offset : Nat) (i : ZipInput) : ZipEntryMetadata where
  startOffset := offset
  fileName := i.name
  fileNameSize := UInt16.ofNat i.name.length
  compressedSize := UInt32.ofNat (i.stored miniz).length
  uncompressedSize := UInt32.ofNat i.data.length
  compressionMethod := i.method miniz
  dataCrc := crc.checksum i.data

/-- The bytes of an entry: header and stored data. -/
def entryBytes (i : ZipInput) : Bytes :=
  ZipWriter.localHeader (metaOf crc miniz 0 i) ++ i.stored miniz

/-- What the writer remembers of files written from `offset` on. -/
def metas (offset : Nat) : List ZipInput → List ZipEntryMetadata
  | [] => []
  | i :: rest =>
      metaOf crc miniz offset i :: metas (offset + i.entrySize miniz) rest

end Write

variable {crc : CrcCrate} {miniz : MinizOxide}

theorem length_localHeader (e : ZipEntryMetadata) :
    (ZipWriter.localHeader e).length = 30 + e.fileName.length := by
  simp only [ZipWriter.localHeader, List.length_flatten, List.map_cons,
    List.map_nil, List.sum_cons, List.sum_nil, length_putU32Le,
    length_putU16Le]
  omega

theorem length_centralRecord (e : ZipEntryMetadata) (offset : UInt32) :
    (ZipWriter.centralRecord e offset).length = 46 + e.fileName.length := by
  simp only [ZipWriter.centralRecord, List.length_flatten, List.map_cons,
    List.map_nil, List.sum_cons, List.sum_nil, length_putU32Le,
    length_putU16Le]
  omega

theorem length_endRecord (n : UInt16) (size offset : UInt32) :
    (ZipWriter.endRecord n size offset).length = endRecordSize := by
  simp only [ZipWriter.endRecord, List.length_flatten, List.map_cons,
    List.map_nil, List.sum_cons, List.sum_nil, length_putU32Le,
    length_putU16Le]
  rfl

theorem length_entryBytes (i : ZipInput) :
    (entryBytes crc miniz i).length = i.entrySize miniz := by
  rw [entryBytes, List.length_append, length_localHeader]
  rfl

theorem tryU32_of_lt {n : Nat} (h : n < 2 ^ 32) :
    tryU32 n = some (UInt32.ofNat n) := if_pos h

theorem tryU16_of_le {n : Nat} (h : n ≤ 65535) :
    tryU16 n = some (UInt16.ofNat n) := if_pos (by omega)

/-- One file that fits. -/
theorem encodeFile_spec {w : ZipWriter} {i : ZipInput}
    (hname : i.name.length ≤ 65535) (hdata : i.data.length < 2 ^ 32)
    (hstored : (i.stored miniz).length < 2 ^ 32) :
    w.encodeFile crc miniz i.name i.data i.level
      = some ({ currentOffset := w.currentOffset + i.entrySize miniz
                entries := w.entries
                  ++ [metaOf crc miniz w.currentOffset i] },
          entryBytes crc miniz i) := by
  have hlen := length_localHeader (metaOf crc miniz w.currentOffset i)
  have hfinal : (ZipWriter.finalData miniz i.data i.level).1
      = i.stored miniz := rfl
  unfold ZipWriter.encodeFile
  dsimp only
  rw [tryU32_of_lt hdata, tryU16_of_le hname, hfinal,
    tryU32_of_lt hstored]
  dsimp only
  show some (ZipWriter.mk (w.currentOffset
      + (ZipWriter.localHeader (metaOf crc miniz w.currentOffset i)).length
      + (i.stored miniz).length) _, _) = _
  rw [hlen]
  have hsize : w.currentOffset
      + (30 + (metaOf crc miniz w.currentOffset i).fileName.length)
      + (i.stored miniz).length = w.currentOffset + i.entrySize miniz :=
    Nat.add_assoc ..
  rw [hsize]
  rfl

theorem lt_of_tryU32 {n : Nat} {x : UInt32} (h : tryU32 n = some x) :
    n < 2 ^ 32 := by
  by_contra hlt
  rw [tryU32, if_neg hlt] at h
  cases h

theorem le_of_tryU16 {n : Nat} {x : UInt16} (h : tryU16 n = some x) :
    n ≤ 65535 := by
  by_contra hle
  rw [tryU16, if_neg (by omega)] at h
  cases h

/-- A file that was encoded fits. -/
theorem fits_of_encodeFile {w : ZipWriter} {i : ZipInput}
    {out : ZipWriter × Bytes}
    (h : w.encodeFile crc miniz i.name i.data i.level = some out) :
    i.name.length ≤ 65535 ∧ i.data.length < 2 ^ 32
      ∧ (i.stored miniz).length < 2 ^ 32 := by
  unfold ZipWriter.encodeFile at h
  dsimp only at h
  split at h
  case h_1 hdata hstored hname =>
    exact ⟨le_of_tryU16 hname, lt_of_tryU32 hdata, lt_of_tryU32 hstored⟩
  case h_2 => cases h

/-- Files that fit: the writer remembers `metas` and emits the entries'
bytes in order. -/
theorem encodeFiles_spec {inputs : List ZipInput} (w : ZipWriter)
    (hnames : ∀ i ∈ inputs, i.name.length ≤ 65535)
    (hsizes : ∀ i ∈ inputs,
      i.data.length < 2 ^ 32 ∧ (i.stored miniz).length < 2 ^ 32) :
    encodeFiles crc miniz w inputs
      = some ({ currentOffset := w.currentOffset
                  + (inputs.map fun i => i.entrySize miniz).sum
                entries := w.entries
                  ++ metas crc miniz w.currentOffset inputs },
          inputs.flatMap (entryBytes crc miniz)) := by
  induction inputs generalizing w with
  | nil => simp [encodeFiles, metas]
  | cons i rest ih =>
      obtain ⟨hdata, hstored⟩ := hsizes i (by simp)
      rw [encodeFiles, encodeFile_spec (hnames i (by simp)) hdata hstored]
      dsimp only
      rw [ih _ (fun j hj => hnames j (by simp [hj]))
        (fun j hj => hsizes j (by simp [hj]))]
      simp [metas, Nat.add_assoc]

-- ========================================================= reading it back

/-- The local header a reader gets back for a remembered entry. -/
def headerOf (e : ZipEntryMetadata) : LocalHeader where
  magic := localMagic
  versionNeeded := 45
  flags := 0
  method := e.compressionMethod
  modTime := 0
  modDate := 0
  crc := e.dataCrc
  compressedSize := e.compressedSize
  uncompressedSize := e.uncompressedSize
  name := e.fileName
  extra := []

/-- The central record a reader gets back for a remembered entry. -/
def recordOf (e : ZipEntryMetadata) : CentralRecord where
  magic := centralMagic
  versionMadeBy := 45
  versionNeeded := 45
  flags := 0
  method := e.compressionMethod
  modTime := 0
  modDate := 0
  crc := e.dataCrc
  compressedSize := e.compressedSize
  uncompressedSize := e.uncompressedSize
  diskStart := 0
  internalAttributes := 0
  externalAttributes := 0
  localOffset := UInt32.ofNat e.startOffset
  name := e.fileName
  extra := []
  comment := []

/-- A remembered entry whose numbers mean what they should. -/
structure MetaFits (e : ZipEntryMetadata) : Prop where
  name : e.fileName.length = e.fileNameSize.toNat
  offset : e.startOffset < 2 ^ 32

theorem readLocalHeader_localHeader {e : ZipEntryMetadata}
    (hname : e.fileName.length = e.fileNameSize.toNat) (rest : Bytes) :
    readLocalHeader (ZipWriter.localHeader e ++ rest)
      = .ok (headerOf e, rest) := by
  simp only [ZipWriter.localHeader, List.flatten_cons, List.flatten_nil,
    List.append_nil, List.append_assoc, readLocalHeader,
    get_u32Le_append, get_u16Le_append, get_take_append _ hname]
  exact get_take_zero _ rest

theorem readCentralRecord_centralRecord {e : ZipEntryMetadata}
    (h : MetaFits e) (rest : Bytes) :
    readCentralRecord
        (ZipWriter.centralRecord e (UInt32.ofNat e.startOffset) ++ rest)
      = .ok (recordOf e, rest) := by
  simp only [ZipWriter.centralRecord, List.flatten_cons, List.flatten_nil,
    List.append_nil, List.append_assoc, readCentralRecord,
    get_u32Le_append, get_u16Le_append, get_take_append _ h.name]
  exact (get_take_zero _ rest).trans (get_take_zero _ rest)

/-- The directory of entries that fit, and what a reader makes of it. -/
theorem encodeRecords_spec {es : List ZipEntryMetadata}
    (h : ∀ e ∈ es, MetaFits e) :
    ∃ records, ZipWriter.encodeRecords es = some records
      ∧ records.length = (es.map fun e => 46 + e.fileName.length).sum
      ∧ readDirectory es.length records = some (es.map recordOf) := by
  induction es with
  | nil => exact ⟨[], rfl, rfl, rfl⟩
  | cons e rest ih =>
      obtain ⟨records, hrecords, hlength, hread⟩ :=
        ih fun e he => h e (by simp [he])
      have he := h e (by simp)
      refine ⟨ZipWriter.centralRecord e (UInt32.ofNat e.startOffset)
        ++ records, ?_, ?_, ?_⟩
      · rw [ZipWriter.encodeRecords, tryU32_of_lt he.offset, hrecords]
      · rw [List.length_append, length_centralRecord, hlength]
        rfl
      · rw [List.length_cons, readDirectory,
          readCentralRecord_centralRecord he]
        have hmagic : (recordOf e).magic = centralMagic := rfl
        dsimp only
        rw [if_pos hmagic, hread]
        rfl

/-- The predicted directory size, as a sum. -/
theorem centralDirectorySize_eq (w : ZipWriter) :
    w.centralDirectorySize
      = (w.entries.map fun e => 46 + e.fileName.length).sum + 22 := by
  have hfold : ∀ (es : List ZipEntryMetadata) (n : Nat),
      es.foldl (fun size e => size
        + (ZipWriter.centralDirectoryEntrySize + e.fileName.length)) n
      = n + (es.map fun e => 46 + e.fileName.length).sum := by
    intro es
    induction es with
    | nil => simp
    | cons e rest ih =>
        intro n
        rw [List.foldl_cons, ih, List.map_cons, List.sum_cons,
          ZipWriter.centralDirectoryEntrySize]
        omega
  rw [ZipWriter.centralDirectorySize, hfold, Nat.zero_add]
  rfl

/-- A writer whose numbers are within the format's bounds. -/
structure WriterFits (w : ZipWriter) : Prop where
  offset : w.currentOffset < 2 ^ 32
  count : w.entries.length ≤ 65535
  entries : ∀ e ∈ w.entries, MetaFits e
  directory : (w.entries.map fun e => 46 + e.fileName.length).sum < 2 ^ 32

/-- Closing a writer that fits: the directory, what a reader makes of
it, and its length, which is the predicted one. -/
theorem encodeCentralDirectory_spec {w : ZipWriter} (h : WriterFits w) :
    ∃ records, w.encodeCentralDirectory = some (records
        ++ ZipWriter.endRecord (UInt16.ofNat w.entries.length)
            (UInt32.ofNat records.length) (UInt32.ofNat w.currentOffset))
      ∧ records.length < 2 ^ 32
      ∧ w.centralDirectorySize = records.length + endRecordSize
      ∧ readDirectory w.entries.length records
        = some (w.entries.map recordOf) := by
  obtain ⟨records, hrecords, hlength, hread⟩ :=
    encodeRecords_spec h.entries
  have hsize : records.length < 2 ^ 32 := hlength ▸ h.directory
  refine ⟨records, ?_, hsize, ?_, hread⟩
  · unfold ZipWriter.encodeCentralDirectory
    rw [tryU32_of_lt h.offset, tryU16_of_le h.count, hrecords]
    dsimp only
    rw [tryU32_of_lt hsize]
  · rw [centralDirectorySize_eq, hlength]
    rfl

theorem length_encodeRecords {es : List ZipEntryMetadata} {records : Bytes}
    (h : ZipWriter.encodeRecords es = some records) :
    records.length = (es.map fun e => 46 + e.fileName.length).sum := by
  induction es generalizing records with
  | nil =>
      cases h
      rfl
  | cons e rest ih =>
      rw [ZipWriter.encodeRecords] at h
      split at h
      case h_1 offset tail _ hrest =>
        cases h
        rw [List.length_append, length_centralRecord, ih hrest]
        rfl
      case h_2 => cases h

/-- A directory that was encoded is within the format's bounds. -/
theorem fits_of_encodeCentralDirectory {w : ZipWriter} {directory : Bytes}
    (h : w.encodeCentralDirectory = some directory) :
    w.currentOffset < 2 ^ 32 ∧ w.entries.length ≤ 65535
      ∧ (w.entries.map fun e => 46 + e.fileName.length).sum < 2 ^ 32 := by
  unfold ZipWriter.encodeCentralDirectory at h
  split at h
  case h_1 hoffset hcount hrecords =>
    refine ⟨lt_of_tryU32 hoffset, le_of_tryU16 hcount, ?_⟩
    rw [← length_encodeRecords hrecords]
    split at h
    case h_1 hsize => exact lt_of_tryU32 hsize
    case h_2 => cases h
  case h_2 => cases h

theorem readEndRecord_endRecord (n : UInt16) (size offset : UInt32)
    (rest : Bytes) :
    readEndRecord (ZipWriter.endRecord n size offset ++ rest)
      = .ok (⟨endMagic, 0, 0, n, n, size, offset, 0⟩, rest) := by
  simp only [ZipWriter.endRecord, List.flatten_cons, List.flatten_nil,
    List.append_nil, List.append_assoc, readEndRecord,
    get_u32Le_append, get_u16Le_append]
  rfl

/-- The entry a reader gets back for a file written at `offset`. -/
def entryOf (crc : CrcCrate) (miniz : MinizOxide) (offset : Nat)
    (i : ZipInput) : Entry where
  central := recordOf (metaOf crc miniz offset i)
  header := headerOf (metaOf crc miniz 0 i)
  stored := i.stored miniz
  data := i.data

/-- The entries for files written from `offset` on. -/
def entriesOf (crc : CrcCrate) (miniz : MinizOxide) (offset : Nat) :
    List ZipInput → List Entry
  | [] => []
  | i :: rest =>
      entryOf crc miniz offset i
        :: entriesOf crc miniz (offset + i.entrySize miniz) rest

/-- What it means for an entry read to be the file written: both headers
agree with each other and with the file, the data decodes to the file's,
and the checksum is the data's own. -/
structure Recovers (i : ZipInput) (e : Entry) : Prop where
  name : e.central.name = i.name ∧ e.header.name = i.name
  method : e.central.method = (if i.level.isSome then 8 else 0)
    ∧ e.header.method = e.central.method
  crc : e.central.crc = Crc.crc32 i.data ∧ e.header.crc = e.central.crc
  compressed : e.central.compressedSize.toNat = e.stored.length
    ∧ e.header.compressedSize = e.central.compressedSize
  uncompressed : e.central.uncompressedSize.toNat = i.data.length
    ∧ e.header.uncompressedSize = e.central.uncompressedSize
  data : e.data = i.data

theorem method_eq (i : ZipInput) :
    i.method miniz = if i.level.isSome then 8 else 0 := by
  unfold ZipInput.method
  cases h : i.level <;> simp [ZipWriter.finalData]

theorem decodeStored_stored {inflate : Bytes → Option Bytes}
    (hinflate : ∀ data level,
      inflate (miniz.compressToVec data level) = some data)
    (i : ZipInput) :
    decodeStored inflate (i.method miniz) (i.stored miniz)
      = some i.data := by
  unfold decodeStored ZipInput.method ZipInput.stored
  cases h : i.level with
  | none => simp [ZipWriter.finalData]
  | some level => simp [ZipWriter.finalData, hinflate]

/-- The entry read for a file that fits is that file. -/
theorem recovers_entryOf (hcrc : crc.IsIsoHdlc) (offset : Nat)
    {i : ZipInput} (hdata : i.data.length < 2 ^ 32)
    (hstored : (i.stored miniz).length < 2 ^ 32) :
    Recovers i (entryOf crc miniz offset i) where
  name := ⟨rfl, rfl⟩
  method := ⟨method_eq i, rfl⟩
  crc := ⟨hcrc.checksum i.data, rfl⟩
  compressed := ⟨UInt32.toNat_ofNat_of_lt' hstored, rfl⟩
  uncompressed := ⟨UInt32.toNat_ofNat_of_lt' hdata, rfl⟩
  data := rfl

theorem recovers_entriesOf (hcrc : crc.IsIsoHdlc) (offset : Nat)
    {inputs : List ZipInput}
    (hsizes : ∀ i ∈ inputs,
      i.data.length < 2 ^ 32 ∧ (i.stored miniz).length < 2 ^ 32) :
    List.Forall₂ Recovers inputs (entriesOf crc miniz offset inputs) := by
  induction inputs generalizing offset with
  | nil => exact .nil
  | cons i rest ih =>
      have hi := hsizes i (by simp)
      exact .cons (recovers_entryOf hcrc offset hi.1 hi.2)
        (ih _ fun j hj => hsizes j (by simp [hj]))

section Entries

variable {inflate : Bytes → Option Bytes}
  (hinflate : ∀ data level,
    inflate (miniz.compressToVec data level) = some data)

include hinflate

/-- The entry behind a prefix of its own offset's length. -/
theorem readEntry_spec {pre post : Bytes} {i : ZipInput}
    (hname : i.name.length ≤ 65535)
    (hstored : (i.stored miniz).length < 2 ^ 32)
    (hpre : pre.length < 2 ^ 32) :
    readEntry inflate (pre ++ (entryBytes crc miniz i ++ post))
        (recordOf (metaOf crc miniz pre.length i))
      = some (entryOf crc miniz pre.length i) := by
  have hoffset : (recordOf (metaOf crc miniz pre.length i)).localOffset.toNat
      = pre.length := UInt32.toNat_ofNat_of_lt' hpre
  have hcompressed : (recordOf
      (metaOf crc miniz pre.length i)).compressedSize.toNat
      = (i.stored miniz).length := UInt32.toNat_ofNat_of_lt' hstored
  have hmagic : (headerOf (metaOf crc miniz 0 i)).magic = localMagic := rfl
  have hmethod : (recordOf (metaOf crc miniz pre.length i)).method
      = i.method miniz := rfl
  have hbounded : (i.stored miniz).length
      ≤ (i.stored miniz ++ post).length := by simp
  unfold readEntry
  rw [hoffset, List.drop_left, entryBytes, List.append_assoc,
    readLocalHeader_localHeader
      (UInt16.toNat_ofNat_of_lt' (Nat.lt_succ_of_le hname)).symm]
  dsimp only
  rw [hcompressed, if_pos ⟨hmagic, hbounded⟩, List.take_left, hmethod,
    decodeStored_stored hinflate]
  rfl

/-- Every entry, followed from its record. The induction is on the files
still ahead; `pre` is everything already passed. -/
theorem readEntries_spec {inputs : List ZipInput} (pre post : Bytes)
    (hnames : ∀ i ∈ inputs, i.name.length ≤ 65535)
    (hsizes : ∀ i ∈ inputs,
      i.data.length < 2 ^ 32 ∧ (i.stored miniz).length < 2 ^ 32)
    (hoffset : pre.length + (inputs.map fun i => i.entrySize miniz).sum
      < 2 ^ 32) :
    ((metas crc miniz pre.length inputs).map recordOf).mapM
        (readEntry inflate
          (pre ++ (inputs.flatMap (entryBytes crc miniz) ++ post)))
      = some (entriesOf crc miniz pre.length inputs) := by
  induction inputs generalizing pre with
  | nil => rfl
  | cons i rest ih =>
      have hi := hsizes i (by simp)
      simp only [List.map_cons, List.sum_cons] at hoffset
      have he : readEntry inflate (pre ++ (entryBytes crc miniz i
          ++ (rest.flatMap (entryBytes crc miniz) ++ post)))
          (recordOf (metaOf crc miniz pre.length i))
          = some (entryOf crc miniz pre.length i) :=
        readEntry_spec hinflate (hnames i (by simp)) hi.2 (by omega)
      have hentries := ih (pre ++ entryBytes crc miniz i)
        (fun j hj => hnames j (by simp [hj]))
        (fun j hj => hsizes j (by simp [hj]))
        (by rw [List.length_append, length_entryBytes]; omega)
      rw [List.length_append, length_entryBytes] at hentries
      simp only [List.append_assoc] at hentries
      rw [metas, List.map_cons, List.mapM_cons, List.flatMap_cons,
        List.append_assoc, he, hentries]
      rfl

end Entries

-- ========================================================== the round trip

theorem length_metas (offset : Nat) (inputs : List ZipInput) :
    (metas crc miniz offset inputs).length = inputs.length := by
  induction inputs generalizing offset with
  | nil => rfl
  | cons i rest ih => simp [metas, ih]

theorem sum_names_metas (offset : Nat) (inputs : List ZipInput) :
    ((metas crc miniz offset inputs).map fun e =>
        46 + e.fileName.length).sum
      = (inputs.map fun i => 46 + i.name.length).sum := by
  induction inputs generalizing offset with
  | nil => rfl
  | cons i rest ih =>
      rw [metas, List.map_cons, List.map_cons, List.sum_cons,
        List.sum_cons, ih]
      rfl

theorem metaFits_metas {inputs : List ZipInput} {offset : Nat}
    (hnames : ∀ i ∈ inputs, i.name.length ≤ 65535)
    (hoffset : offset + (inputs.map fun i => i.entrySize miniz).sum
      < 2 ^ 32) :
    ∀ e ∈ metas crc miniz offset inputs, MetaFits e := by
  induction inputs generalizing offset with
  | nil => simp [metas]
  | cons i rest ih =>
      simp only [List.map_cons, List.sum_cons] at hoffset
      intro e he
      rw [metas, List.mem_cons] at he
      rcases he with rfl | he
      · exact ⟨(UInt16.toNat_ofNat_of_lt'
          (Nat.lt_succ_of_le (hnames i (by simp)))).symm,
          (by omega : offset < 2 ^ 32)⟩
      · exact ih (fun j hj => hnames j (by simp [hj])) (by omega) e he

/-- The writer after the files and the padding. -/
def closingWriter (crc : CrcCrate) (miniz : MinizOxide)
    (inputs : List ZipInput) (padding : Bytes) : ZipWriter where
  currentOffset :=
    (inputs.map fun i => i.entrySize miniz).sum + padding.length
  entries := metas crc miniz 0 inputs

/-- A file list that fits makes a writer that fits. -/
theorem ZipFits.writer {inputs : List ZipInput} {padding : Bytes}
    (h : ZipFits miniz inputs padding) :
    WriterFits (closingWriter crc miniz inputs padding) where
  offset := h.offset
  count := by
    show (metas crc miniz 0 inputs).length ≤ 65535
    rw [length_metas]
    exact h.count
  entries := metaFits_metas h.names (by have := h.offset; omega)
  directory := by
    show ((metas crc miniz 0 inputs).map fun e =>
      46 + e.fileName.length).sum < 2 ^ 32
    rw [sum_names_metas]
    exact h.directory

theorem writeArchive_spec {inputs : List ZipInput} {padding : Bytes}
    (h : ZipFits miniz inputs padding) {directory : Bytes}
    (hdirectory : (closingWriter crc miniz inputs
      padding).encodeCentralDirectory = some directory) :
    writeArchive crc miniz inputs padding
      = some (closingWriter crc miniz inputs padding,
          inputs.flatMap (entryBytes crc miniz) ++ padding ++ directory)
    := by
  unfold closingWriter at hdirectory ⊢
  rw [writeArchive, encodeFiles_spec _ h.names h.sizes]
  simp only [ZipWriter.new, ZipWriter.advanceOffset, Nat.zero_add,
    List.nil_append, hdirectory]

theorem length_flatMap_entryBytes (inputs : List ZipInput) :
    (inputs.flatMap (entryBytes crc miniz)).length
      = (inputs.map fun i => i.entrySize miniz).sum := by
  induction inputs with
  | nil => rfl
  | cons i rest ih =>
      rw [List.flatMap_cons, List.length_append, length_entryBytes, ih]
      rfl

theorem findEndRecord_append (front : Bytes) (n : UInt16)
    (size offset : UInt32) :
    findEndRecord (front ++ ZipWriter.endRecord n size offset)
      = some ⟨endMagic, 0, 0, n, n, size, offset, 0⟩ := by
  have hdrop : (front ++ ZipWriter.endRecord n size offset).drop
      ((front ++ ZipWriter.endRecord n size offset).length - endRecordSize)
      = ZipWriter.endRecord n size offset ++ [] := by
    rw [List.length_append, length_endRecord, Nat.add_sub_cancel,
      List.drop_left, List.append_nil]
  unfold findEndRecord
  rw [hdrop, readEndRecord_endRecord]
  exact if_pos rfl

/-- A reader on entries, padding and directory, whatever padding it
is. -/
theorem readZip_spec {inflate : Bytes → Option Bytes}
    {front records : Bytes} {count : Nat} {rs : List CentralRecord}
    {entries : List Entry}
    (hcount : count ≤ 65535) (hfront : front.length < 2 ^ 32)
    (hsize : records.length < 2 ^ 32)
    (hread : readDirectory count records = some rs)
    (hentries : rs.mapM (readEntry inflate (front ++ (records
      ++ ZipWriter.endRecord (UInt16.ofNat count)
        (UInt32.ofNat records.length) (UInt32.ofNat front.length))))
      = some entries) :
    readZip inflate (front ++ (records
        ++ ZipWriter.endRecord (UInt16.ofNat count)
          (UInt32.ofNat records.length) (UInt32.ofNat front.length)))
      = some (⟨endMagic, 0, 0, UInt16.ofNat count, UInt16.ofNat count,
          UInt32.ofNat records.length, UInt32.ofNat front.length, 0⟩,
          entries) := by
  unfold readZip
  have hfind := findEndRecord_append (front ++ records)
    (UInt16.ofNat count) (UInt32.ofNat records.length)
    (UInt32.ofNat front.length)
  rw [List.append_assoc] at hfind
  rw [hfind]
  simp only [Option.bind_eq_bind, Option.bind_some,
    UInt16.toNat_ofNat_of_lt' (Nat.lt_succ_of_le hcount),
    UInt32.toNat_ofNat_of_lt' hfront, UInt32.toNat_ofNat_of_lt' hsize,
    List.drop_left,
    List.take_left, hread, hentries]
  rfl

/-- The archive of files that fit, with any padding before its
directory: its directory, and what a reader makes of it. -/
theorem readArchive_spec {inflate : Bytes → Option Bytes}
    (hinflate : ∀ data level,
      inflate (miniz.compressToVec data level) = some data)
    {inputs : List ZipInput} {padding : Bytes}
    (hfits : ZipFits miniz inputs padding) :
    ∃ directory e, (closingWriter crc miniz inputs
        padding).encodeCentralDirectory = some directory
      ∧ (closingWriter crc miniz inputs padding).centralDirectorySize
        = directory.length
      ∧ readZip inflate
          (inputs.flatMap (entryBytes crc miniz) ++ padding ++ directory)
        = some (e, entriesOf crc miniz 0 inputs)
      ∧ e.directoryOffset.toNat + e.directorySize.toNat + endRecordSize
        = (inputs.flatMap (entryBytes crc miniz) ++ padding
          ++ directory).length
      ∧ e.disk = 0 ∧ e.directoryDisk = 0 ∧ e.diskEntries = e.totalEntries
      ∧ e.totalEntries = UInt16.ofNat inputs.length
      ∧ e.commentLength = 0
      ∧ e.directoryOffset.toNat
        = (inputs.map fun i => i.entrySize miniz).sum + padding.length := by
  have hwriter : WriterFits (closingWriter crc miniz inputs padding) :=
    hfits.writer
  obtain ⟨records, hdirectory, hsize, hpredicted, hread⟩ :=
    encodeCentralDirectory_spec hwriter
  -- the directory starts where the entries and the padding end
  have hfront : (closingWriter crc miniz inputs padding).currentOffset
      = (inputs.flatMap (entryBytes crc miniz) ++ padding).length := by
    rw [List.length_append, length_flatMap_entryBytes]
    rfl
  have hoffset := hwriter.offset
  rw [hfront] at hdirectory hoffset
  have hroom : ([] : Bytes).length
      + (inputs.map fun i => i.entrySize miniz).sum < 2 ^ 32 := by
    have := hfits.offset
    simp only [List.length_nil]
    omega
  refine ⟨_, _, hdirectory, ?_,
    readZip_spec hwriter.count hoffset hsize hread ?_, ?_, rfl, rfl, rfl,
    ?_, rfl, ?_⟩
  · rw [hpredicted, List.length_append, length_endRecord]
  · rw [List.append_assoc]
    exact readEntries_spec hinflate [] _ hfits.names hfits.sizes hroom
  · dsimp only
    rw [UInt32.toNat_ofNat_of_lt' hoffset, UInt32.toNat_ofNat_of_lt' hsize,
      Nat.add_assoc]
    simp only [List.length_append, length_endRecord]
  · show UInt16.ofNat (closingWriter crc miniz inputs padding).entries.length
      = _
    rw [closingWriter, length_metas]
  · dsimp only
    rw [UInt32.toNat_ofNat_of_lt' hoffset, List.length_append,
      length_flatMap_entryBytes]

/-- An archive written from files that fit, with any padding before its
directory, reads back as those files in order; the directory ends at the
end record, and its size is the one predicted. -/
theorem zip_writer_round_trip {inflate : Bytes → Option Bytes}
    (hcrc : crc.IsIsoHdlc)
    (hinflate : ∀ data level,
      inflate (miniz.compressToVec data level) = some data)
    {inputs : List ZipInput} {padding : Bytes}
    (hfits : ZipFits miniz inputs padding) :
    ∃ w archive directory e entries,
      writeArchive crc miniz inputs padding = some (w, archive)
      ∧ w.encodeCentralDirectory = some directory
      ∧ w.centralDirectorySize = directory.length
      ∧ readZip inflate archive = some (e, entries)
      ∧ List.Forall₂ Recovers inputs entries
      ∧ e.directoryOffset.toNat + e.directorySize.toNat + endRecordSize
        = archive.length := by
  obtain ⟨directory, e, hdirectory, hpredicted, hread, hend, -⟩ :=
    readArchive_spec hinflate hfits
  exact ⟨_, _, directory, e, _, writeArchive_spec hfits hdirectory,
    hdirectory, hpredicted, hread, recovers_entriesOf hcrc 0 hfits.sizes,
    hend⟩

/-- Deflate on small inputs: the fixed-code blocks of the empty string
and of one zero byte, and a stored block for anything else (as long as
its length fits the block's sixteen bits). -/
def smallMiniz : MinizOxide where
  compressToVec data _ :=
    if data = [] then [3, 0]
    else if data = [0] then [99, 0, 0]
    else 1 :: toLE 2 data.length ++ toLE 2 (65535 - data.length) ++ data
  compressToVecZlib data _ := data
  decompressToVecZlibWithLimit data _ := some data

/-- Inflate, on what `smallMiniz` makes. -/
def smallInflate (stored : Bytes) : Option Bytes :=
  if stored = [3, 0] then some []
  else if stored = [99, 0, 0] then some [0]
  else some (stored.drop 5)

theorem smallInflate_compressToVec (data : Bytes) (level : UInt8) :
    smallInflate (smallMiniz.compressToVec data level) = some data := by
  show smallInflate (if data = [] then [3, 0]
    else if data = [0] then [99, 0, 0]
    else 1 :: toLE 2 data.length ++ toLE 2 (65535 - data.length) ++ data)
    = some data
  by_cases hempty : data = []
  case pos => rw [if_pos hempty, hempty]; rfl
  case neg =>
    by_cases hzero : data = [0]
    case pos => rw [if_neg hempty, if_pos hzero, hzero]; rfl
    case neg =>
      have hheader : (1 :: toLE 2 data.length
          ++ toLE 2 (65535 - data.length)).length = 5 := by
        simp
      rw [if_neg hempty, if_neg hzero]
      unfold smallInflate
      rw [if_neg (by simp), if_neg (by simp), List.drop_left' hheader]

/-- A stored file and a deflated one. -/
def twoFiles : List ZipInput :=
  [⟨[97], [1, 2, 3], none⟩, ⟨[98, 99], [0], some 1⟩]

theorem zipFits_twoFiles : ZipFits smallMiniz twoFiles [7] where
  count := by decide
  names := by decide
  sizes := by decide
  offset := by decide
  directory := by decide

theorem zip_writer_round_trip_two_files :
    ZipFits smallMiniz twoFiles [7]
    ∧ ∃ w archive directory e entries,
      writeArchive isoHdlcCrate smallMiniz twoFiles [7]
        = some (w, archive)
      ∧ w.encodeCentralDirectory = some directory
      ∧ w.centralDirectorySize = directory.length
      ∧ readZip smallInflate archive = some (e, entries)
      ∧ List.Forall₂ Recovers twoFiles entries
      ∧ e.directoryOffset.toNat + e.directorySize.toNat + endRecordSize
        = archive.length :=
  ⟨zipFits_twoFiles, zip_writer_round_trip isoHdlcCrate_isIsoHdlc
    smallInflate_compressToVec zipFits_twoFiles⟩

end FactoryCacher
