/-
World fidelity: what the archive that is rebuilt from a world's
description has to do with the archive the world was taken from.

# What is read

A `WorldPart` is one entry of the save on its whole way: the entry as
the `zip` crate read it, its description, and the data behind both.
`deconstructWorld` makes a list of parts out of the archive
(`deconstructFiles_spec`); every description stands for its data in the
chunk map, so every file of the list is read back
(`streamed_parts`). The archive that is rebuilt has one entry for every
part (`rebuildWorld_archive`), and a reader finds `rebuiltFile` there
(`rebuildWorld_reads`).

# What comes back

The contents always agree: level data as a zlib stream of the same data,
any other file byte for byte (`Described.contents`). The names are the
UTF-8 bytes of the names that were read, but no entry is marked as
UTF-8, so a reader takes them for code page 437. Every part comes back
under its own name exactly if all names are ASCII
(`world_fidelity_iff_ascii`).

# Sizes

`finalize_world` computes with `u32`. Up to `2^32 - 503` nothing wraps;
above it, an archive with entries makes the alignment ask for a buffer
no allocator has, so there is no output to read. Only an empty archive
gets through there, cut off; it is left out of the statement.
-/
import FactoryCacher.Common.Proofs.ChunkTree
import FactoryCacher.Factorio.Proofs.WorldStream

namespace FactoryCacher

open Zip WorldReconstructor

-- =========================================================== the libraries

/-- Decompression undoes compression, and keeps to its limit. -/
structure MinizOxide.Undoes (miniz : MinizOxide)
    (inflate : Bytes → Option Bytes) : Prop where
  deflate : ∀ data level,
    inflate (miniz.compressToVec data level) = some data
  zlib : ∀ data level limit, data.length ≤ limit →
    miniz.decompressToVecZlibWithLimit
      (miniz.compressToVecZlib data level) limit = some data
  limit : ∀ stored limit data,
    miniz.decompressToVecZlibWithLimit stored limit = some data →
    data.length ≤ limit

/-- The `zip` crate reads an archive with a plain end record and in front
of its directory plain entries with different names, each under its
decoded name; and what it lists never has one name twice, since it keeps
its entries by name. -/
structure ZipCrate.Reads (zip : ZipCrate)
    (inflate : Bytes → Option Bytes) : Prop where
  plain : ∀ archive e entries,
    readZip inflate archive = some (e, entries) → e.Plain archive →
    (∀ x ∈ entries, x.Plain) →
    (∀ x ∈ entries, x.Before e.directoryOffset.toNat) →
    (entries.map fun x => x.central.decodedName).Nodup →
    zip.archive archive = some (entries.map fun x =>
      some { name := x.central.decodedName, contents := some x.data })
  distinct : ∀ archive (files : List ZipFile),
    zip.archive archive = some (files.map some) →
    (files.map ZipFile.name).Nodup

-- ========================================================== what is claimed

/-- An entry that came back: the same name; for level data a zlib stream
of the same data, otherwise the same bytes. -/
structure SameFile (miniz : MinizOxide) (original rebuilt : ZipFile) :
    Prop where
  name : rebuilt.name = original.name
  contents : ∃ a b, original.contents = some a ∧ rebuilt.contents = some b
    ∧ if isLevelDat original.name then
        ∃ data,
          miniz.decompressToVecZlibWithLimit a decompressLimit = some data
          ∧ miniz.decompressToVecZlibWithLimit b decompressLimit = some data
      else b = a

/-- An archive whose entries all came back, in order. -/
def SameWorld (zip : ZipCrate) (miniz : MinizOxide)
    (original rebuilt : Bytes) : Prop :=
  ∃ files files' : List ZipFile, zip.archive original = some (files.map some)
    ∧ zip.archive rebuilt = some (files'.map some)
    ∧ List.Forall₂ (SameFile miniz) files files'

/-- `reconstruct_world_file` on every description, then `finalize_world`:
the archive at the head of the stream. `none` if anything is refused. -/
def rebuildWorld (crc : CrcCrate) (miniz : MinizOxide) (chunks : ChunkMap)
    (fuel : Nat) (world : FactorioWorldDescription) (targetWorldSize : Nat)
    (targetCrc : UInt32) : Option Bytes :=
  match (reconstructWorldFiles miniz (mapProvider chunks) fuel
      (WorldReconstructor.new : WorldReconstructor crc) world.files ()).1 with
  | none => none
  | some (r, entries) =>
      match r.finalizeWorld world targetWorldSize targetCrc with
      | .error _ => none
      | .ok output => some ((entries.flatten ++ output).take targetWorldSize)

-- ================================================================ the parts

/-- One entry of the save: as it was read, as it is described, and the
data behind both. -/
structure WorldPart where
  zipFile : ZipFile
  desc : FactorioFileDescription
  data : Bytes

/-- A part whose description fits its entry. -/
structure Described (miniz : MinizOxide) (chunks : ChunkMap)
    (p : WorldPart) : Prop where
  name : p.desc.fileName = p.zipFile.name
  decoded : ∃ buf, p.zipFile.contents = some buf
    ∧ decodeFactorioFile miniz p.zipFile.name buf
      = some ⟨p.desc.fileType, p.data⟩
  means : Means chunks p.desc.chunkList (chunksOf p.data)

variable {blake3 : Bytes → ChunkKey} {crc : CrcCrate} {miniz : MinizOxide}

/-- One file chunked: its description stands for its data. -/
theorem chunkFile_spec {fileName : Bytes} {file : FactorioFile}
    {chunks chunks' : ChunkMap} {desc : FactorioFileDescription}
    (h : chunkFile blake3 fileName file chunks = some (desc, chunks')) :
    Grown blake3 chunks chunks' ∧ desc.fileName = fileName
      ∧ desc.fileType = file.fileType
      ∧ Means chunks' desc.chunkList (chunksOf file.data) := by
  obtain ⟨root, chunks₁, hdata, hroot⟩ :=
    chunkData_spec blake3 file.data chunks
  obtain ⟨root', chunks₂, hmin, hroot'⟩ : ∃ root' chunks₂,
      minimizeChunkList blake3 root chunks₁ = some (root', chunks₂)
      ∧ RootDone blake3 chunks₁ (chunksOf file.data) root' chunks₂ :=
    minimizeChunkList_spec hroot.means hroot.len
  unfold chunkFile at h
  rw [hdata] at h
  dsimp only at h
  rw [hmin] at h
  cases h
  exact ⟨hroot.grown.trans hroot'.grown, rfl, rfl, hroot'.means⟩

/-- What `deconstruct_world` makes of the entries it accepts. -/
theorem deconstructFiles_spec {zipFiles : List (Option ZipFile)}
    {chunks chunks' : ChunkMap} {files : List FactorioFileDescription}
    (h : deconstructFiles blake3 miniz chunks zipFiles
      = .ok (files, chunks')) :
    Grown blake3 chunks chunks' ∧ ∃ parts : List WorldPart,
      zipFiles = (parts.map WorldPart.zipFile).map some
      ∧ files = parts.map WorldPart.desc
      ∧ ∀ p ∈ parts, Described miniz chunks' p := by
  induction zipFiles generalizing chunks files with
  | nil =>
      cases h
      exact ⟨Grown.refl _, [], rfl, rfl, by simp⟩
  | cons zipFile rest ih =>
      cases zipFile with
      | none => cases h
      | some zipFile =>
          rw [deconstructFiles] at h
          split at h
          case h_1 => cases h
          case h_2 buf hbuf =>
            split at h
            case h_1 => cases h
            case h_2 file hfile =>
              split at h
              case h_1 => cases h
              case h_2 desc chunks₁ hchunk =>
                split at h
                case h_1 => cases h
                case h_2 descs chunks₂ hrest =>
                  cases h
                  obtain ⟨hg, hname, htype, hmeans⟩ := chunkFile_spec hchunk
                  obtain ⟨hg', parts, rfl, rfl, hparts⟩ := ih hrest
                  refine ⟨hg.trans hg',
                    ⟨zipFile, desc, file.data⟩ :: parts, rfl, rfl,
                    List.forall_mem_cons.mpr ⟨?_, hparts⟩⟩
                  refine ⟨hname, ⟨buf, hbuf, ?_⟩, hmeans.mono hg'⟩
                  rw [hfile, htype]

/-- The files of described parts are read back, given depth. -/
theorem streamed_parts {chunks : ChunkMap}
    (hget : ∀ k b, chunks.Written k b → chunks.get k = some b)
    {parts : List WorldPart} (h : ∀ p ∈ parts, Described miniz chunks p) :
    ∃ depth, ∀ fuel, depth ≤ fuel → ∀ s : Unit,
      streamed (mapProvider chunks) fuel (parts.map WorldPart.desc) s
        = (parts.map fun p => (p.desc, p.data), s) := by
  induction parts with
  | nil => exact ⟨0, fun fuel _ s => rfl⟩
  | cons p parts ih =>
      obtain ⟨hp, hparts⟩ := List.forall_mem_cons.mp h
      obtain ⟨restDepth, hrest⟩ := ih hparts
      obtain ⟨depth, hread⟩ := collectData_eq hp.means
      refine ⟨max depth restDepth, fun fuel hfuel s => ?_⟩
      have hcollect : (collectData (mapProvider chunks) fuel
          p.desc.chunkList : ExceptT Fault (StateM Unit) Bytes)
          = pure (chunksOf p.data).flatten :=
        hread fuel (answers_map hget) (by omega)
      rw [List.map_cons, streamed, hcollect, flatten_chunksOf]
      dsimp only [ExceptT.run_pure]
      show (_ :: (streamed _ fuel (parts.map WorldPart.desc) s).1,
        (streamed _ fuel (parts.map WorldPart.desc) s).2) = _
      rw [hrest fuel (by omega) s]
      rfl

-- ================================================= the archive in the stream

/-- A resize to no less than its first bytes keeps them. -/
theorem resize_keeps {front buf out : Bytes} {newLen : Nat}
    (hfront : front <+: buf) (hlen : front.length ≤ newLen)
    (h : resize buf newLen = some out) : front <+: out := by
  unfold resize at h
  split at h
  case isTrue =>
    cases h
    exact List.prefix_take_iff.mpr ⟨hfront, hlen⟩
  case isFalse =>
    split at h
    case isTrue =>
      cases h
      exact hfront.trans (List.prefix_append ..)
    case isFalse => cases h

/-- Up to here the alignment rounds up. -/
theorem le_alignedLength {n : Nat} (h : n ≤ 2 ^ 32 - 503) :
    n ≤ alignedLength n := by
  rw [alignedLength_eq h]
  exact le_alignUp n

/-- From here on it wraps to nothing. -/
theorem alignedLength_of_wraps {n : Nat} (h : 2 ^ 32 - 503 < n)
    (hn : n < 2 ^ 32) : alignedLength n = 0 := by
  have hsize : (UInt32.ofNat n).toNat = n := UInt32.toNat_ofNat_of_lt' hn
  have hcount : blockCount (UInt32.ofNat n) = 0 :=
    blockCount_of_wraps (by rwa [hsize])
  rw [alignedLength, hcount, UInt32.zero_mul]
  rfl

/-- Whatever the alignment appends, it appends; with an archive that has
entries and a size that wraps it has no room to. -/
theorem alignWorld_keeps {currentSize targetWorldSize : Nat}
    {output auxData out : Bytes}
    (hsize : currentSize + output.length = targetWorldSize)
    (htarget : targetWorldSize < 2 ^ 32)
    (hempty : currentSize = 0 → targetWorldSize ≤ 2 ^ 32 - 503)
    (h : alignWorld currentSize output auxData targetWorldSize = .ok out) :
    output <+: out := by
  unfold alignWorld at h
  split at h
  case h_1 => cases h
  case h_2 world hworld =>
    split at h
    case h_1 => cases h
    case h_2 aligned haligned =>
      split at h
      case isFalse => cases h
      case isTrue =>
        cases h
        by_cases hwraps : targetWorldSize ≤ 2 ^ 32 - 503
        case pos =>
          rw [usizeSubAdd_of_le (le_alignedLength hwraps)] at hworld
          have hkept : output <+: world :=
            resize_keeps List.prefix_rfl (Nat.le_add_right ..) hworld
          have hlen := hkept.length_le
          refine resize_keeps (hkept.trans (List.prefix_append ..)) ?_
            haligned
          unfold usizeSubAdd
          rw [List.length_append]
          split <;> omega
        case neg =>
          -- the length asked for is `-currentSize` on `usize`
          have hpositive : currentSize ≠ 0 := by
            intro hzero
            have := hempty hzero
            omega
          have hlen : usizeSubAdd 0 targetWorldSize output.length
              = 2 ^ 64 - currentSize := by
            unfold usizeSubAdd
            rw [if_neg (by omega)]
            omega
          rw [alignedLength_of_wraps (by omega) htarget, hlen, resize,
            if_neg (by omega), if_neg (by omega)] at hworld
          cases hworld

/-- The archive that `finalize_world` closes: some padding and the
directory, at the head of its output. -/
theorem finalizeWorld_archive {r : WorldReconstructor crc}
    {worldDesc : FactorioWorldDescription} {targetWorldSize : Nat}
    {targetCrc : UInt32} {output : Bytes}
    (htarget : targetWorldSize < 2 ^ 32)
    (hempty : r.zipWriter.currentOffset = 0 →
      targetWorldSize ≤ 2 ^ 32 - 503)
    (h : r.finalizeWorld worldDesc targetWorldSize targetCrc = .ok output) :
    ∃ padding directory, (r.zipWriter.advanceOffset
        padding.length).encodeCentralDirectory = some directory
      ∧ r.zipWriter.currentOffset + (padding ++ directory).length
        = targetWorldSize
      ∧ padding ++ directory <+: output := by
  unfold finalizeWorld at h
  split at h
  case isTrue => cases h
  case isFalse =>
    generalize List.replicate (targetWorldSize - r.totalSize) (0 : UInt8)
      = zeros at h
    unfold closeWorld at h
    split at h
    case h_1 => cases h
    case h_2 directory hdirectory =>
      generalize hf : r.forgeBytes zeros directory worldDesc.auxData
        targetCrc = forged at h
      have hforged : forged.length = 4 := by
        rw [← hf]
        exact length_forgeBytes ..
      unfold checkWorld at h
      split at h
      case isTrue => cases h
      case isFalse hsize =>
        split at h
        case isTrue => cases h
        case isFalse =>
          have hsize := not_not.mp hsize
          refine ⟨zeros ++ forged, directory, ?_, hsize,
            alignWorld_keeps hsize htarget hempty h⟩
          rw [List.length_append, hforged]
          exact hdirectory

-- ======================================================= the archive's files

/-- What is written for a part. -/
def WorldPart.input (miniz : MinizOxide) (p : WorldPart) : ZipInput :=
  toInput miniz (p.desc, p.data)

/-- The archive that is rebuilt is that of the parts, with some padding
before its directory. -/
theorem rebuildWorld_archive {chunks : ChunkMap} {fuel : Nat}
    {world : FactorioWorldDescription} {parts : List WorldPart}
    (hfiles : world.files = parts.map WorldPart.desc)
    (hstreamed : (streamed (mapProvider chunks) fuel world.files ()).1
      = parts.map fun p => (p.desc, p.data))
    {targetWorldSize : Nat} {targetCrc : UInt32} {archive : Bytes}
    (htarget : targetWorldSize < 2 ^ 32)
    (hempty : world.files = [] → targetWorldSize ≤ 2 ^ 32 - 503)
    (h : rebuildWorld crc miniz chunks fuel world targetWorldSize targetCrc
      = some archive) :
    ∃ padding directory,
      ZipFits miniz (parts.map (WorldPart.input miniz)) padding
      ∧ (closingWriter crc miniz (parts.map (WorldPart.input miniz))
          padding).encodeCentralDirectory = some directory
      ∧ archive = (parts.map (WorldPart.input miniz)).flatMap
          (entryBytes crc miniz) ++ padding ++ directory
      ∧ archive.length = targetWorldSize := by
  unfold rebuildWorld at h
  rw [(reconstructWorldFiles_eq ..).1, hstreamed] at h
  split at h
  case h_1 => cases h
  case h_2 r entries hadd =>
    split at h
    case h_1 => cases h
    case h_2 output hfinal =>
      have hadded := added_of_addFiles hadd
      rw [List.map_map] at hadded
      change Added miniz .new r (parts.map (WorldPart.input miniz)) entries
        at hadded
      have hoffset : r.zipWriter.currentOffset
          = ((parts.map (WorldPart.input miniz)).map
            fun i => i.entrySize miniz).sum := by
        rw [hadded.offset]
        exact Nat.zero_add _
      have hnone : r.zipWriter.currentOffset = 0 →
          targetWorldSize ≤ 2 ^ 32 - 503 := by
        intro hzero
        apply hempty
        cases parts with
        | nil => exact hfiles
        | cons p rest =>
            rw [hoffset, List.map_cons, List.map_cons, List.sum_cons,
              ZipInput.entrySize] at hzero
            omega
      obtain ⟨padding, directory, hdirectory, hsize, houtput⟩ :=
        finalizeWorld_archive htarget hnone hfinal
      have hwriter : r.zipWriter.advanceOffset padding.length
          = closingWriter crc miniz (parts.map (WorldPart.input miniz))
            padding := by
        have hmetas := hadded.metas
        unfold ZipWriter.advanceOffset closingWriter
        rw [hoffset, hmetas]
        rfl
      rw [hwriter] at hdirectory
      obtain ⟨hfits, hcount, hsum⟩ :=
        fits_of_encodeCentralDirectory hdirectory
      have hentries : entries.flatten
          = (parts.map (WorldPart.input miniz)).flatMap
            (entryBytes crc miniz) := by
        rw [hadded.entries, List.flatMap_def]
      have hlen : (entries.flatten ++ (padding ++ directory)).length
          = targetWorldSize := by
        rw [List.length_append, hentries, length_flatMap_entryBytes,
          ← hoffset, hsize]
      have harchive : archive = entries.flatten ++ (padding ++ directory) := by
        obtain ⟨rest, rfl⟩ := houtput
        rw [← Option.some.inj h, ← List.append_assoc, ← hlen, List.take_left]
      refine ⟨padding, directory, ⟨?_, hadded.names, hadded.sizes, hfits,
        ?_⟩, hdirectory, ?_, ?_⟩
      · rwa [closingWriter, length_metas] at hcount
      · rwa [closingWriter, sum_names_metas] at hsum
      · rw [harchive, hentries, List.append_assoc]
      · rw [harchive, hlen]

-- ====================================================== what a reader finds

/-- What a reader finds for a part. -/
def rebuiltFile (miniz : MinizOxide) (p : WorldPart) : ZipFile where
  name := Cp437.decode p.desc.fileName
  contents := some (encodeFactorioFile miniz ⟨p.desc.fileType, p.data⟩)

theorem plain_entryOf (hcrc : crc.IsIsoHdlc) (offset : Nat) {i : ZipInput}
    (hdata : i.data.length < 2 ^ 32)
    (hstored : (i.stored miniz).length < 2 ^ 32) :
    (entryOf crc miniz offset i).Plain where
  name := rfl
  flags := ⟨Or.inl rfl, rfl⟩
  utf8 h := absurd h (by decide : (0 : UInt16) ≠ utf8Flag)
  method := rfl
  crc := ⟨hcrc.checksum i.data, rfl⟩
  compressed := ⟨UInt32.toNat_ofNat_of_lt' hstored, rfl⟩
  uncompressed := ⟨UInt32.toNat_ofNat_of_lt' hdata, rfl⟩
  extra := ⟨rfl, rfl⟩
  comment := rfl
  disk := rfl

theorem plain_entriesOf (hcrc : crc.IsIsoHdlc) (offset : Nat)
    {inputs : List ZipInput}
    (hsizes : ∀ i ∈ inputs,
      i.data.length < 2 ^ 32 ∧ (i.stored miniz).length < 2 ^ 32) :
    ∀ e ∈ entriesOf crc miniz offset inputs, e.Plain := by
  induction inputs generalizing offset with
  | nil => simp [entriesOf]
  | cons i rest ih =>
      obtain ⟨⟨hdata, hstored⟩, hrest⟩ := List.forall_mem_cons.mp hsizes
      exact List.forall_mem_cons.mpr
        ⟨plain_entryOf hcrc offset hdata hstored, ih _ hrest⟩

/-- The entries are where the files were written. -/
theorem before_entriesOf {offset : Nat} {inputs : List ZipInput}
    (hoffset : offset + (inputs.map fun i => i.entrySize miniz).sum
      < 2 ^ 32) :
    ∀ e ∈ entriesOf crc miniz offset inputs,
      e.Before (offset + (inputs.map fun i => i.entrySize miniz).sum) := by
  induction inputs generalizing offset with
  | nil => simp [entriesOf]
  | cons i rest ih =>
      simp only [List.map_cons, List.sum_cons, ← Nat.add_assoc] at hoffset ⊢
      refine List.forall_mem_cons.mpr ⟨?_, ih hoffset⟩
      have hstart : (UInt32.ofNat offset).toNat = offset :=
        UInt32.toNat_ofNat_of_lt' (by unfold UInt32.size; omega)
      have hends : (entryOf crc miniz offset i).Before
          (offset + i.entrySize miniz) := by
        show (UInt32.ofNat offset).toNat + localHeaderSize + i.name.length
          + 0 + (i.stored miniz).length ≤ _
        rw [hstart, localHeaderSize, ZipInput.entrySize]
        omega
      exact hends.trans (Nat.le_add_right ..)

/-- What does not depend on an entry's offset depends on the file. -/
theorem map_entriesOf {β : Type} {f : Entry → β} {g : ZipInput → β}
    (h : ∀ offset i, f (entryOf crc miniz offset i) = g i) (offset : Nat)
    (inputs : List ZipInput) :
    (entriesOf crc miniz offset inputs).map f = inputs.map g := by
  induction inputs generalizing offset with
  | nil => rfl
  | cons i rest ih => rw [entriesOf, List.map_cons, List.map_cons, h, ih]

theorem decodedName_entryOf (offset : Nat) (i : ZipInput) :
    (entryOf crc miniz offset i).central.decodedName
      = Cp437.decode i.name :=
  if_pos (by decide : (0 : UInt16) &&& utf8Flag = 0)

/-- A reader finds every part in the rebuilt archive, under the name its
bytes spell in code page 437. -/
theorem rebuildWorld_reads (hcrc : crc.IsIsoHdlc) {zip : ZipCrate}
    {inflate : Bytes → Option Bytes} (hminiz : miniz.Undoes inflate)
    (hzip : zip.Reads inflate) {parts : List WorldPart} {padding : Bytes}
    (hfits : ZipFits miniz (parts.map (WorldPart.input miniz)) padding)
    (hnames : (parts.map fun p => p.desc.fileName).Nodup)
    {directory archive : Bytes}
    (hdirectory : (closingWriter crc miniz
      (parts.map (WorldPart.input miniz)) padding).encodeCentralDirectory
      = some directory)
    (harchive : archive = (parts.map (WorldPart.input miniz)).flatMap
        (entryBytes crc miniz) ++ padding ++ directory)
    (hsize : archive.length < 2 ^ 32)
    (hzip64 : parts.length = 65535 → ¬ HasZip64Locator archive) :
    zip.archive archive
      = some ((parts.map (rebuiltFile miniz)).map some) := by
  obtain ⟨directory', e, hdirectory', -, hread, hwhole, hdisk,
    hdirectoryDisk, hentries, hcount, hcomment, hoffset⟩ :=
    readArchive_spec hminiz.deflate hfits
  rw [hdirectory] at hdirectory'
  cases hdirectory'
  rw [← harchive] at hread hwhole
  have hend : e.Plain archive := by
    refine ⟨⟨hdisk, hdirectoryDisk⟩, hentries, hcomment, hwhole, ?_⟩
    intro hones
    apply hzip64
    rcases hones with hones | hones
    · have hlength := UInt16.toNat_ofNat_of_lt' (Nat.lt_succ_of_le hfits.count)
      rw [← hcount, hones, List.length_map] at hlength
      exact hlength.symm
    · -- the directory starts before the end of the archive
      have hoffset : (0xFFFFFFFF : UInt32).toNat = 2 ^ 32 - 1 := rfl
      rw [hones, hoffset, endRecordSize] at hwhole
      omega
  have hdecoded : (entriesOf crc miniz 0
      (parts.map (WorldPart.input miniz))).map
        (fun x => x.central.decodedName)
      = (parts.map fun p => p.desc.fileName).map Cp437.decode := by
    rw [map_entriesOf decodedName_entryOf, List.map_map, List.map_map]
    rfl
  have hbefore : ∀ x ∈ entriesOf crc miniz 0
      (parts.map (WorldPart.input miniz)),
      x.Before e.directoryOffset.toNat := by
    have hsum := hfits.offset
    intro x hx
    have hx := before_entriesOf (by omega) x hx
    rw [hoffset]
    exact hx.trans (by omega)
  have hfound := hzip.plain _ e _ hread hend
    (plain_entriesOf hcrc 0 hfits.sizes) hbefore
    (by rw [hdecoded]; exact hnames.map Cp437.decode_injective)
  rw [hfound, map_entriesOf (g := fun i => some
    { name := Cp437.decode i.name, contents := some i.data }),
    List.map_map, List.map_map]
  · rfl
  · intro offset i
    rw [decodedName_entryOf]
    rfl

/-- The contents of a part come back, whatever its name. -/
theorem Described.contents {inflate : Bytes → Option Bytes}
    (hminiz : miniz.Undoes inflate) {chunks : ChunkMap} {p : WorldPart}
    (h : Described miniz chunks p) :
    ∃ a b, p.zipFile.contents = some a
      ∧ (rebuiltFile miniz p).contents = some b
      ∧ if isLevelDat p.zipFile.name then
          ∃ data,
            miniz.decompressToVecZlibWithLimit a decompressLimit = some data
            ∧ miniz.decompressToVecZlibWithLimit b decompressLimit
              = some data
        else b = a := by
  obtain ⟨buf, hbuf, hdecoded⟩ := h.decoded
  refine ⟨buf, _, hbuf, rfl, ?_⟩
  unfold decodeFactorioFile at hdecoded
  split at hdecoded
  case isTrue hlevel =>
    rw [if_pos hlevel]
    obtain ⟨data, hdata, hfile⟩ := Option.map_eq_some_iff.mp hdecoded
    injection hfile with htype hsame
    refine ⟨data, hdata, ?_⟩
    rw [← htype, ← hsame]
    exact hminiz.zlib data _ _ (hminiz.limit _ _ _ hdata)
  case isFalse hnormal =>
    rw [if_neg hnormal]
    injection hdecoded with hfile
    injection hfile with htype hsame
    rw [← htype, ← hsame]
    rfl

/-- A part comes back under its own name exactly if the name is ASCII. -/
theorem sameFile_iff {inflate : Bytes → Option Bytes}
    (hminiz : miniz.Undoes inflate) {chunks : ChunkMap} {p : WorldPart}
    (h : Described miniz chunks p) :
    SameFile miniz p.zipFile (rebuiltFile miniz p)
      ↔ ∀ b ∈ p.desc.fileName, b < 128 := by
  rw [← Cp437.decode_eq_self_iff]
  constructor
  · intro hsame
    have hname := hsame.name
    rwa [← h.name] at hname
  · intro hdecode
    refine ⟨?_, h.contents hminiz⟩
    rw [← h.name]
    exact hdecode

-- ============================================================= the statement

/-- The bounds under which a world is rebuilt: those of the archive
format on the files written, and those of `finalize_world`. -/
structure RebuildFits (miniz : MinizOxide) (inputs : List ZipInput)
    (auxData : Bytes) (targetWorldSize : Nat) : Prop where
  count : inputs.length ≤ 65535
  names : ∀ i ∈ inputs, i.name.length ≤ 65535
  sizes : ∀ i ∈ inputs,
    i.data.length < 2 ^ 32 ∧ (i.stored miniz).length < 2 ^ 32
  room : (inputs.map fun i => i.entrySize miniz).sum
    + (inputs.map fun i => 46 + i.name.length).sum + 22 + 4
    ≤ targetWorldSize
  target : targetWorldSize ≤ 2 ^ 32 - 503
  aux : auxData.length ≤ 2 ^ 32 - 503

/-- Within the bounds the world is rebuilt. -/
theorem rebuildWorld_of_fits (hcrc : crc.IsIsoHdlc) {chunks : ChunkMap}
    {fuel : Nat} {world : FactorioWorldDescription}
    {files : List (FactorioFileDescription × Bytes)}
    (hstreamed : (streamed (mapProvider chunks) fuel world.files ()).1
      = files)
    {targetWorldSize : Nat}
    (hfits : RebuildFits miniz (files.map (toInput miniz)) world.auxData
      targetWorldSize) (targetCrc : UInt32) :
    ∃ archive, rebuildWorld crc miniz chunks fuel world targetWorldSize
      targetCrc = some archive := by
  have hencoded : ∀ file ∈ files, EncodedFits miniz file := by
    intro file hfile
    have hmem := List.mem_map_of_mem (f := toInput miniz) hfile
    exact ⟨hfits.names _ hmem, (hfits.sizes _ hmem).1,
      (hfits.sizes _ hmem).2⟩
  obtain ⟨r, entries, hadd, hlength, hemitting⟩ :=
    addFiles_spec (emitting_new : Emitting (.new : WorldReconstructor crc)
      []) hencoded
  rw [List.nil_append] at hemitting
  have hadded := added_of_addFiles hadd
  have hroom : r.totalSize ≤ targetWorldSize := by
    have hsize := hfits.room
    have hoffset : r.zipWriter.currentOffset
        = ((files.map (toInput miniz)).map
          fun i => i.entrySize miniz).sum := by
      rw [hadded.offset]
      exact Nat.zero_add _
    have hdirectory := centralDirectorySize_eq r.zipWriter
    have hmetas : r.zipWriter.entries
        = metas crc miniz 0 (files.map (toInput miniz)) := hadded.metas
    rw [hmetas, sum_names_metas] at hdirectory
    rw [totalSize, ZipWriter.currentSize, hoffset, hdirectory]
    omega
  have hcount : entries.length ≤ 65535 := by
    have := hfits.count
    rw [List.length_map] at this
    omega
  have htarget := hfits.target
  obtain ⟨output, hclose, hsize, -⟩ := finalizeWorld_closes hcrc hemitting
    hcount world targetCrc (by omega) hroom
  rw [alignWorld_spec hsize hfits.target hfits.aux] at hclose
  unfold rebuildWorld
  rw [(reconstructWorldFiles_eq ..).1, hstreamed, hadd]
  dsimp only
  rw [hclose]
  exact ⟨_, rfl⟩

/-- What a reader finds in the world rebuilt from its parts, and when
that is what was there. -/
theorem fidelity_of_parts (hcrc : crc.IsIsoHdlc) {zip : ZipCrate}
    {inflate : Bytes → Option Bytes} (hminiz : miniz.Undoes inflate)
    (hzip : zip.Reads inflate) {worldData : Bytes} {chunks : ChunkMap}
    {parts : List WorldPart}
    (harchive : zip.archive worldData
      = some ((parts.map WorldPart.zipFile).map some))
    (hparts : ∀ p ∈ parts, Described miniz chunks p) {fuel : Nat}
    {world : FactorioWorldDescription}
    (hfiles : world.files = parts.map WorldPart.desc)
    (hstreamed : (streamed (mapProvider chunks) fuel world.files ()).1
      = parts.map fun p => (p.desc, p.data))
    {targetWorldSize : Nat} {targetCrc : UInt32} {archive : Bytes}
    (htarget : targetWorldSize < 2 ^ 32)
    (hempty : world.files = [] → targetWorldSize ≤ 2 ^ 32 - 503)
    (hrebuilt : rebuildWorld crc miniz chunks fuel world targetWorldSize
      targetCrc = some archive)
    (hzip64 : world.files.length = 65535 → ¬ HasZip64Locator archive) :
    zip.archive archive = some ((parts.map (rebuiltFile miniz)).map some)
    ∧ (SameWorld zip miniz worldData archive
      ↔ ∀ file ∈ world.files, ∀ b ∈ file.fileName, b < 128) := by
  obtain ⟨padding, directory, hfits, hdirectory, hparts', hsize⟩ :=
    rebuildWorld_archive hfiles hstreamed htarget hempty hrebuilt
  rw [hfiles, List.length_map] at hzip64
  have hnames : (parts.map fun p => p.desc.fileName).Nodup := by
    have hdistinct := hzip.distinct _ _ harchive
    rw [List.map_map] at hdistinct
    have hsame : (parts.map fun p => p.desc.fileName)
        = parts.map (ZipFile.name ∘ WorldPart.zipFile) :=
      List.map_congr_left fun p hp => (hparts p hp).name
    rwa [hsame]
  have hfound := rebuildWorld_reads hcrc hminiz hzip hfits hnames hdirectory
    hparts' (hsize ▸ htarget) hzip64
  have hmap : Function.Injective (List.map (some : ZipFile → _)) :=
    List.map_injective_iff.mpr (Option.some_injective _)
  refine ⟨hfound, ?_, ?_⟩
  · intro hsame file hfile
    obtain ⟨originals, rebuilts, horiginal, hrebuilts, hall⟩ := hsame
    rw [harchive] at horiginal
    rw [hfound] at hrebuilts
    cases hmap (Option.some.inj horiginal)
    cases hmap (Option.some.inj hrebuilts)
    rw [hfiles] at hfile
    obtain ⟨p, hp, rfl⟩ := List.mem_map.mp hfile
    rw [List.forall₂_map_left_iff, List.forall₂_map_right_iff,
      List.forall₂_same] at hall
    exact (sameFile_iff hminiz (hparts p hp)).mp (hall p hp)
  · intro hascii
    refine ⟨_, _, harchive, hfound, ?_⟩
    rw [List.forall₂_map_left_iff, List.forall₂_map_right_iff,
      List.forall₂_same]
    intro p hp
    apply (sameFile_iff hminiz (hparts p hp)).mpr
    apply hascii p.desc
    rw [hfiles]
    exact List.mem_map_of_mem hp

/-- For every save that `deconstruct_world` accepts: if a world is
rebuilt from its description, a reader finds all of its files there,
under their names and with their contents, if and only if every name is
ASCII. Within the bounds of the format it is rebuilt. Left out are the
empty archive where the sizes wrap, and an archive of 65535 entries that
ends like a ZIP64 one. -/
theorem world_fidelity_iff_ascii (hcrc : crc.IsIsoHdlc) {zip : ZipCrate}
    {inflate : Bytes → Option Bytes} (hminiz : miniz.Undoes inflate)
    (hzip : zip.Reads inflate) {worldData auxData : Bytes}
    {world : FactorioWorldDescription} {chunks : ChunkMap}
    (hworld : deconstructWorld blake3 miniz zip worldData auxData
      = .ok (world, chunks))
    (hfree : CollisionFree blake3 chunks) :
    ∃ depth, ∀ fuel, depth ≤ fuel →
      ∀ (targetWorldSize : Nat) (targetCrc : UInt32),
      (∀ archive, rebuildWorld crc miniz chunks fuel world targetWorldSize
          targetCrc = some archive →
        targetWorldSize < 2 ^ 32 →
        (world.files = [] → targetWorldSize ≤ 2 ^ 32 - 503) →
        (world.files.length = 65535 → ¬ HasZip64Locator archive) →
        (SameWorld zip miniz worldData archive
          ↔ ∀ file ∈ world.files, ∀ b ∈ file.fileName, b < 128))
      ∧ (RebuildFits miniz ((streamed (mapProvider chunks) fuel
            world.files ()).1.map (toInput miniz)) auxData
            targetWorldSize →
          ∃ archive, rebuildWorld crc miniz chunks fuel world
            targetWorldSize targetCrc = some archive) := by
  unfold deconstructWorld at hworld
  split at hworld
  case h_1 => cases hworld
  case h_2 zipFiles harchive =>
    split at hworld
    case h_1 => cases hworld
    case h_2 files chunks' hfiles =>
      cases hworld
      obtain ⟨hg, parts, rfl, rfl, hparts⟩ := deconstructFiles_spec hfiles
      obtain ⟨depth, hstreamed⟩ := streamed_parts (hfree.get hg) hparts
      refine ⟨depth, fun fuel hfuel targetWorldSize targetCrc => ⟨?_, ?_⟩⟩
      · intro archive hrebuilt htarget hempty hzip64
        have hread := congrArg Prod.fst (hstreamed fuel hfuel ())
        exact (fidelity_of_parts hcrc hminiz hzip harchive hparts rfl hread
          htarget hempty hrebuilt hzip64).2
      · intro hfits
        exact rebuildWorld_of_fits hcrc rfl hfits targetCrc

-- ============================================================ small worlds

/-- The Adler-32 checksum of a zlib stream. -/
def adler32 (data : Bytes) : Nat :=
  let sums := data.foldl (fun (a, b) byte =>
    ((a + byte.toNat) % 65521, (b + a + byte.toNat) % 65521)) (1, 0)
  sums.2 * 65536 + sums.1

/-- zlib on small inputs: header, deflate as in `smallMiniz`, checksum. -/
def smallZlib : MinizOxide where
  compressToVec := smallMiniz.compressToVec
  compressToVecZlib data level :=
    [0x78, 0x01] ++ (smallMiniz.compressToVec data level
      ++ toBE 4 (adler32 data))
  decompressToVecZlibWithLimit stored limit :=
    (smallInflate ((stored.drop 2).take (stored.length - 6))).filter
      fun data => data.length ≤ limit

theorem smallZlib_undoes : smallZlib.Undoes smallInflate where
  deflate := smallInflate_compressToVec
  zlib data level limit hlimit := by
    have hstored : ((smallZlib.compressToVecZlib data level).drop 2).take
        ((smallZlib.compressToVecZlib data level).length - 6)
        = smallMiniz.compressToVec data level := by
      simp [smallZlib]
    show (smallInflate _).filter _ = _
    rw [hstored, smallInflate_compressToVec]
    exact Option.filter_some_pos (by simpa using hlimit)
  limit stored limit data h := by
    have hkept := (Option.filter_eq_some_iff.mp h).2
    simpa using hkept

/-- A reader of plain archives whose names are all different. -/
def plainReader (inflate : Bytes → Option Bytes) : ZipCrate where
  archive archive :=
    match readZip inflate archive with
    | none => none
    | some (_, entries) =>
        if (entries.map fun x => x.central.decodedName).Nodup then
          some (entries.map fun x => some
            { name := x.central.decodedName, contents := some x.data })
        else none

theorem plainReader_reads (inflate : Bytes → Option Bytes) :
    (plainReader inflate).Reads inflate where
  plain archive e entries hread _ _ _ hnames := by
    unfold plainReader
    dsimp only
    rw [hread]
    exact if_pos hnames
  distinct archive files h := by
    unfold plainReader at h
    dsimp only at h
    split at h
    case h_1 => cases h
    case h_2 entries _ =>
      split at h
      case isFalse => cases h
      case isTrue hnames =>
        have hfiles : files.map some = (entries.map fun x =>
            ({ name := x.central.decodedName
               contents := some x.data } : ZipFile)).map some := by
          rw [List.map_map]
          exact (Option.some.inj h).symm
        have hmap : Function.Injective (List.map (some : ZipFile → _)) :=
          List.map_injective_iff.mpr (Option.some_injective _)
        rw [hmap hfiles, List.map_map]
        exact hnames

/-- A save of one stored file. -/
def oneFileSave (flags : UInt16) (name data : Bytes) : Bytes :=
  let header (magic : UInt32) (versions : List UInt16) : Bytes :=
    List.flatten [ putU32Le magic, versions.flatMap putU16Le,
      putU16Le flags, putU16Le 0, putU16Le 0, putU16Le 0,
      putU32Le (Crc.crc32 data), putU32Le (UInt32.ofNat data.length),
      putU32Le (UInt32.ofNat data.length),
      putU16Le (UInt16.ofNat name.length), putU16Le 0 ]
  List.flatten [ header localMagic [20], name, data,
    header centralMagic [20, 20], putU16Le 0, putU16Le 0, putU16Le 0,
    putU32Le 0, putU32Le 0, name,
    putU32Le endMagic, putU16Le 0, putU16Le 0, putU16Le 1, putU16Le 1,
    putU32Le (UInt32.ofNat (46 + name.length)),
    putU32Le (UInt32.ofNat (30 + name.length + data.length)), putU16Le 0 ]

/-- The name `é`, in UTF-8 and marked as such. -/
def accentedSave : Bytes := oneFileSave utf8Flag [0xC3, 0xA9] [0]

/-- A save of level data, with its real zlib stream. -/
def levelSave : Bytes :=
  oneFileSave 0 levelDat (smallZlib.compressToVecZlib [0, 1] 1)

/-- The description of one short file. -/
def shortDesc (name : Bytes) (file : FactorioFile) :
    FactorioFileDescription where
  fileType := file.fileType
  fileName := name
  contentSize := UInt64.ofNat file.data.length
  chunkList := { isLeaf := true, chunks := [blake3Sample file.data] }

/-- The description of a save with nothing else in it. -/
def shortWorld (name : Bytes) (file : FactorioFile) :
    FactorioWorldDescription where
  files := [shortDesc name file]
  auxData := []
  totalChunks := 1

/-- ... and its chunk. -/
def shortChunks (file : FactorioFile) : ChunkMap :=
  WriteMap.empty.insert (blake3Sample file.data) file.data

section Short

variable {name buf : Bytes} {file : FactorioFile} (hne : file.data ≠ [])
  (hlen : file.data.length ≤ minChunkSize)

include hne hlen

theorem chunkFile_short :
    chunkFile blake3Sample name file WriteMap.empty
      = some (shortDesc name file, shortChunks file) := by
  rw [chunkFile, chunkData_of_short hne hlen]
  rfl

theorem deconstructWorld_short {zip : ZipCrate} {save : Bytes}
    (harchive : zip.archive save = some [some ⟨name, some buf⟩])
    (hfile : decodeFactorioFile smallZlib name buf = some file) :
    deconstructWorld blake3Sample smallZlib zip save []
      = .ok (shortWorld name file, shortChunks file) := by
  unfold deconstructWorld
  rw [harchive]
  simp only [deconstructFiles, hfile, chunkFile_short hne hlen]
  rfl

theorem described_short
    (hfile : decodeFactorioFile smallZlib name buf = some file) :
    Described smallZlib (shortChunks file)
      ⟨⟨name, some buf⟩, shortDesc name file, file.data⟩ where
  name := rfl
  decoded := ⟨buf, rfl, hfile⟩
  means := (chunkFile_spec (chunkFile_short hne hlen)).2.2.2

end Short

theorem collisionFree_short (file : FactorioFile) :
    CollisionFree blake3Sample (shortChunks file) := by
  intro a ha b hb _
  have honly : ∀ c ∈ {blob | ∃ key, (shortChunks file).Written key blob},
      c = file.data := by
    intro c hc
    obtain ⟨key, hw⟩ := hc
    rcases (WriteMap.written_insert ..).mp hw with ⟨-, hc⟩ | hw
    · exact hc
    · exact absurd hw (WriteMap.written_empty _ _)
  rw [honly a ha, honly b hb]

/-- A save with the name `é` is taken apart, rebuilt, and read: the name
has become `├⌐`. -/
theorem accented_name_garbled :
    smallZlib.Undoes smallInflate
    ∧ (plainReader smallInflate).Reads smallInflate
    ∧ ∃ world chunks archive,
      deconstructWorld blake3Sample smallZlib (plainReader smallInflate)
        accentedSave [] = .ok (world, chunks)
      ∧ CollisionFree blake3Sample chunks
      ∧ rebuildWorld isoHdlcCrate smallZlib chunks 1 world 200 0
        = some archive
      ∧ (plainReader smallInflate).archive accentedSave
        = some [some ⟨[0xC3, 0xA9], some [0]⟩]
      ∧ (plainReader smallInflate).archive archive
        = some [some ⟨[0xE2, 0x94, 0x9C, 0xE2, 0x8C, 0x90], some [0]⟩]
      ∧ ¬ SameWorld (plainReader smallInflate) smallZlib accentedSave
        archive := by
  have hne : FactorioFile.data ⟨.normal, [0]⟩ ≠ [] := by decide
  have hlen : (FactorioFile.data ⟨.normal, [0]⟩).length ≤ minChunkSize := by
    decide
  have harchive : (plainReader smallInflate).archive accentedSave
      = some [some ⟨[0xC3, 0xA9], some [0]⟩] := rfl
  have hfile : decodeFactorioFile smallZlib [0xC3, 0xA9] [0]
      = some ⟨.normal, [0]⟩ := rfl
  have hworld := deconstructWorld_short hne hlen harchive hfile
  have hfits : RebuildFits smallZlib ((streamed (mapProvider
      (shortChunks ⟨.normal, [0]⟩)) 1 (shortWorld [0xC3, 0xA9]
        ⟨.normal, [0]⟩).files ()).1.map (toInput smallZlib)) [] 200 := by
    constructor <;> decide
  obtain ⟨archive, hrebuilt⟩ := rebuildWorld_of_fits
    isoHdlcCrate_isIsoHdlc rfl hfits 0
  have hparts := List.forall_mem_singleton.mpr
    (described_short hne hlen hfile)
  obtain ⟨hfound, hsame⟩ := fidelity_of_parts isoHdlcCrate_isIsoHdlc
    smallZlib_undoes (plainReader_reads smallInflate) harchive hparts rfl
    rfl (by decide) (fun h => absurd h (List.cons_ne_nil _ _)) hrebuilt
    (fun h => absurd h (by decide))
  refine ⟨smallZlib_undoes, plainReader_reads smallInflate, _, _, archive,
    hworld, collisionFree_short _, hrebuilt, harchive, hfound, ?_⟩
  rw [hsame]
  intro hascii
  exact absurd (hascii _ (List.mem_singleton_self _) 0xC3
    (List.mem_cons_self ..)) (by decide)

/-- A save of level data, rebuilt: a reader finds its data again. -/
theorem world_fidelity_level_data :
    ∃ world chunks fuel archive,
      deconstructWorld blake3Sample smallZlib (plainReader smallInflate)
        levelSave [] = .ok (world, chunks)
      ∧ rebuildWorld isoHdlcCrate smallZlib chunks fuel world 200 0
        = some archive
      ∧ SameWorld (plainReader smallInflate) smallZlib levelSave
        archive := by
  have hne : FactorioFile.data ⟨.zlib, [0, 1]⟩ ≠ [] := by decide
  have hlen : (FactorioFile.data ⟨.zlib, [0, 1]⟩).length ≤ minChunkSize := by
    decide
  have harchive : (plainReader smallInflate).archive levelSave
      = some [some ⟨levelDat,
        some (smallZlib.compressToVecZlib [0, 1] 1)⟩] := by
    decide +kernel
  have hfile : decodeFactorioFile smallZlib levelDat
      (smallZlib.compressToVecZlib [0, 1] 1) = some ⟨.zlib, [0, 1]⟩ := rfl
  have hworld := deconstructWorld_short hne hlen harchive hfile
  obtain ⟨depth, hfidelity⟩ := world_fidelity_iff_ascii
    isoHdlcCrate_isIsoHdlc smallZlib_undoes
    (plainReader_reads smallInflate) hworld (collisionFree_short _)
  obtain ⟨hsame, hrebuilds⟩ := hfidelity (depth + 1) (Nat.le_succ _) 200 0
  have hstreamed : (streamed (mapProvider (shortChunks ⟨.zlib, [0, 1]⟩))
      (depth + 1) (shortWorld levelDat ⟨.zlib, [0, 1]⟩).files ()).1
      = [(shortDesc levelDat ⟨.zlib, [0, 1]⟩, [0, 1])] := rfl
  rw [hstreamed] at hrebuilds
  obtain ⟨archive, hrebuilt⟩ := hrebuilds (by constructor <;> decide)
  refine ⟨_, _, depth + 1, archive, hworld, hrebuilt, ?_⟩
  apply (hsame archive hrebuilt (by decide)
    (fun h => absurd h (List.cons_ne_nil _ _))
    (fun h => absurd h (by decide))).mpr
  decide +kernel

end FactoryCacher
