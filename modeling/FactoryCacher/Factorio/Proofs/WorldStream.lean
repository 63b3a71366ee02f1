/-
The reconstructed world stream: what the entries and the output of
`finalize_world` amount to, for every sequence of files and every
target.

# The argument

`Emitting` relates a reconstructor to the entries it has returned: the
writer's offset is their length, the hasher has seen exactly them, and
the writer's records are within it. `addFile` keeps it (`addFile_spec`),
so a whole sequence of calls does (`addFiles_spec`).

`finalizeWorld` then splits into what closes the archive and
what aligns it. Closing: the predicted directory size is the real one
(`encodeCentralDirectory_spec`), so padding, forged bytes and directory
end exactly at the target, and the forged bytes make the checksum of
everything the target one (`crc32_forge`). Aligning: below the bound no
`u32` wraps and no `usize` goes below zero, so each `resize` appends
zeros up to whole blocks.

The streams that feed the files do not depend on the reconstructor:
`streamed` runs them alone, and `reconstructWorldFiles_spec` puts the
two back together.
-/
import FactoryCacher.Lib.Faults
import FactoryCacher.Factorio.World
import FactoryCacher.Factorio.Proofs.ZipRoundTrip

namespace FactoryCacher

open WorldReconstructor

-- ======================================================= sequences of calls

section Calls

variable {σ : Type} {crc : CrcCrate} (miniz : MinizOxide)
  (provider : ChunkProvider (ExceptT Fault (StateM σ))) (fuel : Nat)

/-- `reconstruct_world_file` on each description in turn: the final
reconstructor and the entries returned. A call that returns an error
returns no entry; `none` is a panic. -/
def reconstructWorldFiles (r : WorldReconstructor crc) :
    List FactorioFileDescription →
    StateM σ (Option (WorldReconstructor crc × List Bytes))
  | [], s => (some (r, []), s)
  | desc :: rest, s =>
      match (r.reconstructWorldFile miniz provider fuel desc).run s with
      | (.error _, s) => reconstructWorldFiles r rest s
      | (.ok none, s) => (none, s)
      | (.ok (some (r, entry)), s) =>
          match reconstructWorldFiles r rest s with
          | (none, s) => (none, s)
          | (some (r, entries), s) => (some (r, entry :: entries), s)

/-- The streams behind those calls: every file that was read, with its
bytes. -/
def streamed : List FactorioFileDescription →
    StateM σ (List (FactorioFileDescription × Bytes))
  | [], s => ([], s)
  | desc :: rest, s =>
      match (collectData provider fuel desc.chunkList).run s with
      | (.error _, s) => streamed rest s
      | (.ok buf, s) =>
          ((desc, buf) :: (streamed rest s).1, (streamed rest s).2)

/-- `addFile` on each file in turn. -/
def addFiles (r : WorldReconstructor crc) :
    List (FactorioFileDescription × Bytes) →
    Option (WorldReconstructor crc × List Bytes)
  | [] => some (r, [])
  | file :: rest =>
      match r.addFile miniz file.1 file.2 with
      | none => none
      | some (r, entry) =>
          match addFiles r rest with
          | none => none
          | some (r, entries) => some (r, entry :: entries)

theorem length_streamed_le (descs : List FactorioFileDescription) (s : σ) :
    (streamed provider fuel descs s).1.length ≤ descs.length := by
  induction descs generalizing s with
  | nil => exact Nat.le_refl _
  | cons desc rest ih =>
      rw [streamed]
      cases (collectData provider fuel desc.chunkList).run s with
      | mk result s' =>
          cases result with
          | error e => exact Nat.le_succ_of_le (ih s')
          | ok buf => exact Nat.succ_le_succ (ih s')

/-- A call is its stream followed by `addFile`. -/
theorem run_reconstructWorldFile (r : WorldReconstructor crc)
    (desc : FactorioFileDescription) (s : σ) :
    (r.reconstructWorldFile miniz provider fuel desc).run s
      = match (collectData provider fuel desc.chunkList).run s with
        | (.error e, s) => (.error e, s)
        | (.ok buf, s) => (.ok (r.addFile miniz desc buf), s) := by
  rw [reconstructWorldFile, Faults.run_bind]
  rcases (collectData provider fuel desc.chunkList).run s with
    ⟨e | buf, s'⟩
  · rfl
  · rfl

/-- Calls in sequence are the streams in sequence, then `addFiles`; a
panic stops the streams too. -/
theorem reconstructWorldFiles_eq (r : WorldReconstructor crc)
    (descs : List FactorioFileDescription) (s : σ) :
    (reconstructWorldFiles miniz provider fuel r descs s).1
        = addFiles miniz r (streamed provider fuel descs s).1
    ∧ ∀ out, addFiles miniz r (streamed provider fuel descs s).1 = some out →
      (reconstructWorldFiles miniz provider fuel r descs s).2
        = (streamed provider fuel descs s).2 := by
  induction descs generalizing r s with
  | nil => exact ⟨rfl, fun _ _ => rfl⟩
  | cons desc rest ih =>
      rw [reconstructWorldFiles, run_reconstructWorldFile, streamed]
      rcases (collectData provider fuel desc.chunkList).run s with
        ⟨e | buf, s'⟩
      · exact ih r s'
      · dsimp only
        rw [addFiles]
        cases r.addFile miniz desc buf with
        | none => exact ⟨rfl, fun _ h => nomatch h⟩
        | some added =>
            obtain ⟨r₁, entry⟩ := added
            obtain ⟨hresult, hstate⟩ := ih r₁ s'
            dsimp only
            rw [← hresult] at hstate ⊢
            revert hstate
            rcases reconstructWorldFiles miniz provider fuel r₁ rest s' with
              ⟨_ | finished, s''⟩ <;> intro hstate
            · exact ⟨rfl, fun _ h => nomatch h⟩
            · exact ⟨rfl, fun _ _ => hstate finished rfl⟩

theorem reconstructWorldFiles_spec {r r' : WorldReconstructor crc}
    {descs : List FactorioFileDescription} {entries : List Bytes} {s : σ}
    (h : addFiles miniz r (streamed provider fuel descs s).1
      = some (r', entries)) :
    reconstructWorldFiles miniz provider fuel r descs s
      = (some (r', entries), (streamed provider fuel descs s).2) := by
  obtain ⟨hresult, hstate⟩ :=
    reconstructWorldFiles_eq miniz provider fuel r descs s
  exact Prod.ext (hresult.trans h) (hstate _ h)

end Calls

-- ============================================================ what is kept

section Emit

variable {crc : CrcCrate} {miniz : MinizOxide}

/-- The file `reconstruct_world_file` writes for a description and the
bytes read for it. -/
def toInput (miniz : MinizOxide)
    (file : FactorioFileDescription × Bytes) : ZipInput where
  name := file.1.fileName
  data := encodeFactorioFile miniz
    { fileType := file.1.fileType, data := file.2 }
  level := match file.1.fileType with
    | .normal => some reconstructDeflateLevel
    | .zlib => none

/-- The bounds on one file: its name, and its size before and after
deflate. -/
structure EncodedFits (miniz : MinizOxide)
    (file : FactorioFileDescription × Bytes) : Prop where
  name : (toInput miniz file).name.length ≤ 65535
  data : (toInput miniz file).data.length < 2 ^ 32
  stored : ((toInput miniz file).stored miniz).length < 2 ^ 32

/-- A reconstructor that has returned `entries`. -/
structure Emitting (r : WorldReconstructor crc) (entries : List Bytes) :
    Prop where
  size : r.zipWriter.currentOffset = entries.flatten.length
  hasher : r.crcHasher = entries.foldl crc.update crc.digest
  count : r.zipWriter.entries.length = entries.length
  names : ∀ e ∈ r.zipWriter.entries,
    e.fileName.length = e.fileNameSize.toNat
  offsets : ∀ e ∈ r.zipWriter.entries,
    e.startOffset ≤ r.zipWriter.currentOffset

theorem emitting_new :
    Emitting (WorldReconstructor.new : WorldReconstructor crc) [] where
  size := rfl
  hasher := rfl
  count := rfl
  names := by simp [WorldReconstructor.new, ZipWriter.new]
  offsets := by simp [WorldReconstructor.new, ZipWriter.new]

/-- `addFile` writes the entry of its input and hashes it. -/
theorem addFile_eq (r : WorldReconstructor crc)
    (file : FactorioFileDescription × Bytes) :
    r.addFile miniz file.1 file.2
      = (r.zipWriter.encodeFile crc miniz (toInput miniz file).name
          (toInput miniz file).data (toInput miniz file).level).map
        fun out => (⟨out.1, crc.update r.crcHasher out.2⟩, out.2) := by
  obtain ⟨desc, buf⟩ := file
  unfold addFile toInput
  cases desc.fileType with
  | normal =>
      dsimp only
      cases r.zipWriter.encodeFile crc miniz desc.fileName _ _ <;> rfl
  | zlib =>
      dsimp only
      cases r.zipWriter.encodeFile crc miniz desc.fileName _ _ <;> rfl

/-- One more file. -/
theorem addFile_spec {r : WorldReconstructor crc} {entries : List Bytes}
    (h : Emitting r entries) {file : FactorioFileDescription × Bytes}
    (hfits : EncodedFits miniz file) :
    ∃ r' entry, r.addFile miniz file.1 file.2 = some (r', entry)
      ∧ Emitting r' (entries ++ [entry]) := by
  have hlen : (entryBytes crc miniz (toInput miniz file)).length
      = (toInput miniz file).entrySize miniz := length_entryBytes _
  refine ⟨⟨⟨r.zipWriter.currentOffset
        + (toInput miniz file).entrySize miniz,
      r.zipWriter.entries ++ [metaOf crc miniz r.zipWriter.currentOffset
        (toInput miniz file)]⟩,
      crc.update r.crcHasher (entryBytes crc miniz (toInput miniz file))⟩,
    entryBytes crc miniz (toInput miniz file), ?_, ?_⟩
  · rw [addFile_eq, encodeFile_spec hfits.name hfits.data hfits.stored]
    rfl
  · constructor
    case size => simp [h.size, hlen]
    case hasher => rw [List.foldl_append, ← h.hasher]; rfl
    case count => simp [h.count]
    case names =>
      intro e he
      rcases List.mem_append.mp he with he | he
      · exact h.names e he
      · cases List.mem_singleton.mp he
        exact (UInt16.toNat_ofNat_of_lt' (Nat.lt_succ_of_le hfits.name)).symm
    case offsets =>
      intro e he
      rcases List.mem_append.mp he with he | he
      · exact Nat.le_add_right_of_le (h.offsets e he)
      · cases List.mem_singleton.mp he
        exact Nat.le_add_right ..

/-- Any number of files. -/
theorem addFiles_spec {files : List (FactorioFileDescription × Bytes)}
    {r : WorldReconstructor crc} {before : List Bytes}
    (h : Emitting r before) (hfits : ∀ file ∈ files, EncodedFits miniz file) :
    ∃ r' entries, addFiles miniz r files = some (r', entries)
      ∧ entries.length = files.length
      ∧ Emitting r' (before ++ entries) := by
  induction files generalizing r before with
  | nil => exact ⟨r, [], rfl, rfl, by rwa [List.append_nil]⟩
  | cons file rest ih =>
      obtain ⟨r₁, entry, hadd, h₁⟩ := addFile_spec h (hfits file (by simp))
      obtain ⟨r', entries, hrest, hlength, h'⟩ :=
        ih h₁ fun f hf => hfits f (by simp [hf])
      refine ⟨r', entry :: entries, ?_, by simp [hlength], ?_⟩
      · rw [addFiles, hadd]
        dsimp only
        rw [hrest]
      · rwa [List.append_assoc] at h'

/-- The writer after files were added, and the entries returned: those of
the files, which all fit. -/
structure Added (miniz : MinizOxide) (r r' : WorldReconstructor crc)
    (inputs : List ZipInput) (entries : List Bytes) : Prop where
  names : ∀ i ∈ inputs, i.name.length ≤ 65535
  sizes : ∀ i ∈ inputs,
    i.data.length < 2 ^ 32 ∧ (i.stored miniz).length < 2 ^ 32
  offset : r'.zipWriter.currentOffset = r.zipWriter.currentOffset
    + (inputs.map fun i => i.entrySize miniz).sum
  metas : r'.zipWriter.entries = r.zipWriter.entries
    ++ metas crc miniz r.zipWriter.currentOffset inputs
  entries : entries = inputs.map (entryBytes crc miniz)

theorem added_of_addFiles {files : List (FactorioFileDescription × Bytes)}
    {r r' : WorldReconstructor crc} {entries : List Bytes}
    (h : addFiles miniz r files = some (r', entries)) :
    Added miniz r r' (files.map (toInput miniz)) entries := by
  induction files generalizing r entries with
  | nil =>
      cases h
      exact ⟨by simp, by simp, rfl, by simp [metas], rfl⟩
  | cons file rest ih =>
      rw [addFiles, addFile_eq] at h
      cases hencode : r.zipWriter.encodeFile crc miniz
          (toInput miniz file).name (toInput miniz file).data
          (toInput miniz file).level with
      | none =>
          rw [hencode] at h
          cases h
      | some out =>
          obtain ⟨hname, hdata, hstored⟩ := fits_of_encodeFile hencode
          rw [encodeFile_spec hname hdata hstored] at h
          dsimp only [Option.map_some] at h
          split at h
          case h_1 => cases h
          case h_2 r₁ tail hrest =>
            cases h
            have htail := ih hrest
            constructor
            case names =>
              exact List.forall_mem_cons.mpr ⟨hname, htail.names⟩
            case sizes =>
              exact List.forall_mem_cons.mpr
                ⟨⟨hdata, hstored⟩, htail.sizes⟩
            case offset => simp [htail.offset, Nat.add_assoc]
            case metas => simp [htail.metas, metas]
            case entries => simp [htail.entries]

-- ====================================================== closing the archive

/-- The hasher after more pieces. -/
theorem Emitting.finalize (hcrc : crc.IsIsoHdlc) {r : WorldReconstructor crc}
    {entries : List Bytes} (h : Emitting r entries) (pieces : List Bytes) :
    crc.finalize (pieces.foldl crc.update r.crcHasher)
      = Crc.crc32 (entries.flatten ++ pieces.flatten) := by
  rw [h.hasher, ← List.foldl_append, hcrc.finalize, List.flatten_append]

/-- The writer `finalize_world` closes is within the format's bounds. -/
theorem Emitting.writerFits {r : WorldReconstructor crc}
    {entries : List Bytes} (h : Emitting r entries)
    (hcount : entries.length ≤ 65535) (gap : Nat)
    (hroom : r.totalSize + gap < 2 ^ 32) :
    WriterFits (r.zipWriter.advanceOffset (gap + 4)) := by
  have htotal : r.totalSize = r.zipWriter.currentOffset
      + r.zipWriter.centralDirectorySize + 4 := rfl
  have hdirectory := centralDirectorySize_eq r.zipWriter
  constructor
  case offset =>
    show r.zipWriter.currentOffset + (gap + 4) < 2 ^ 32
    omega
  case count =>
    show r.zipWriter.entries.length ≤ 65535
    rw [h.count]
    exact hcount
  case entries =>
    intro e he
    have hoffset := h.offsets e he
    exact ⟨h.names e he, by omega⟩
  case directory =>
    show (r.zipWriter.entries.map fun e => 46 + e.fileName.length).sum
      < 2 ^ 32
    omega

/-- Four bytes, whatever the digests. -/
theorem length_forgeBytes (r : WorldReconstructor crc)
    (padding zipFooter auxData : Bytes) (targetCrc : UInt32) :
    (r.forgeBytes padding zipFooter auxData targetCrc).length = 4 :=
  length_putU32Le _

/-- The forged bytes make the checksum the target. -/
theorem crc32_forgeBytes (hcrc : crc.IsIsoHdlc)
    {r : WorldReconstructor crc} {entries : List Bytes}
    (h : Emitting r entries) (padding zipFooter auxData : Bytes)
    (targetCrc : UInt32) :
    Crc.crc32 (entries.flatten ++ (padding
        ++ r.forgeBytes padding zipFooter auxData targetCrc ++ zipFooter)
        ++ auxData) = targetCrc := by
  have hforward := h.finalize hcrc [padding]
  rw [List.flatten_singleton] at hforward
  have hforge := crc32_forge hcrc (entries.flatten ++ padding)
    (zipFooter ++ auxData) targetCrc
  unfold forgeBytes
  rw [RevDigest.update_update]
  rw [← hforward] at hforge
  simpa only [List.append_assoc, List.foldl_cons, List.foldl_nil]
    using hforge

/-- What `finalize_world` appends up to the target size, and that its
first two assertions hold of it. -/
theorem finalizeWorld_closes (hcrc : crc.IsIsoHdlc)
    {r : WorldReconstructor crc} {entries : List Bytes}
    (h : Emitting r entries) (hcount : entries.length ≤ 65535)
    (worldDesc : FactorioWorldDescription) {targetWorldSize : Nat}
    (targetCrc : UInt32) (htarget : targetWorldSize < 2 ^ 32)
    (hroom : r.totalSize ≤ targetWorldSize) :
    ∃ output, r.finalizeWorld worldDesc targetWorldSize targetCrc
        = alignWorld entries.flatten.length output worldDesc.auxData
            targetWorldSize
      ∧ entries.flatten.length + output.length = targetWorldSize
      ∧ Crc.crc32 (entries.flatten ++ output ++ worldDesc.auxData)
        = targetCrc := by
  obtain ⟨records, hfooter, -, hpredicted, -⟩ :=
    encodeCentralDirectory_spec (h.writerFits hcount
      (targetWorldSize - r.totalSize) (by omega))
  generalize hf : records ++ ZipWriter.endRecord _ _ _ = zipFooter at hfooter
  have hlength : zipFooter.length = r.zipWriter.centralDirectorySize := by
    rw [← hf, List.length_append, length_endRecord]
    exact hpredicted.symm
  have htotal : r.totalSize = entries.flatten.length
      + r.zipWriter.centralDirectorySize + 4 := by
    rw [← h.size]
    rfl
  have hcurrent : r.zipWriter.currentSize = entries.flatten.length := h.size
  generalize hp : List.replicate (targetWorldSize - r.totalSize)
    (0 : UInt8) = padding
  have hpadding : padding.length = targetWorldSize - r.totalSize := by
    rw [← hp, List.length_replicate]
  have hsize : entries.flatten.length + (padding ++ r.forgeBytes padding
      zipFooter worldDesc.auxData targetCrc ++ zipFooter).length
      = targetWorldSize := by
    simp only [List.length_append, length_forgeBytes, hlength, hpadding]
    omega
  have hforged := crc32_forgeBytes hcrc h padding zipFooter
    worldDesc.auxData targetCrc
  refine ⟨_, ?_, hsize, hforged⟩
  -- the checksum the assertion computes, piece by piece
  have hfinal := h.finalize hcrc [padding, r.forgeBytes padding zipFooter
    worldDesc.auxData targetCrc, zipFooter, worldDesc.auxData]
  have hflatten : entries.flatten ++ [padding, r.forgeBytes padding
      zipFooter worldDesc.auxData targetCrc, zipFooter,
      worldDesc.auxData].flatten
      = entries.flatten ++ (padding ++ r.forgeBytes padding zipFooter
        worldDesc.auxData targetCrc ++ zipFooter) ++ worldDesc.auxData := by
    simp
  rw [hflatten, hforged] at hfinal
  simp only [List.foldl_cons, List.foldl_nil] at hfinal
  unfold finalizeWorld
  rw [if_neg (by omega), hp]
  unfold closeWorld
  rw [hpadding, hfooter]
  dsimp only
  unfold checkWorld
  rw [hcurrent, if_neg (not_not.mpr hsize), if_neg (not_not.mpr hfinal)]

-- ================================================================ alignment

theorem resize_of_le {buf : Bytes} {extra : Nat}
    (h : buf.length + extra < 2 ^ 63) :
    resize buf (buf.length + extra)
      = some (buf ++ List.replicate extra 0) := by
  unfold resize
  by_cases hextra : extra = 0
  case pos => simp [hextra]
  case neg =>
    rw [if_neg (by omega), if_pos h, Nat.add_sub_cancel_left]

theorem usizeSubAdd_of_le {a b c : Nat} (h : b ≤ a) :
    usizeSubAdd a b c = c + (a - b) := by
  unfold usizeSubAdd
  rw [if_pos (by omega)]
  omega

theorem alignedLength_eq {n : Nat} (h : n ≤ 2 ^ 32 - 503) :
    alignedLength n = alignUp n := by
  have hn : (UInt32.ofNat n).toNat = n :=
    UInt32.toNat_ofNat_of_lt' (by unfold UInt32.size; omega)
  unfold alignedLength
  rw [blockCount_mul_toNat (by rwa [hn]), hn]

/-- One alignment below the bound: zeros up to whole blocks. -/
theorem resize_aligned {buf : Bytes} {n : Nat} (h : n ≤ 2 ^ 32 - 503)
    (hbuf : buf.length < 2 ^ 62) :
    resize buf (usizeSubAdd (alignedLength n) n buf.length)
      = some (buf ++ List.replicate (alignUp n - n) 0) := by
  have hle := le_alignUp n
  have hlt := alignUp_lt n
  rw [alignedLength_eq (by omega), usizeSubAdd_of_le hle]
  exact resize_of_le (by omega)

/-- Below the bound both alignments append zeros up to whole blocks, and
the final check passes. -/
theorem alignWorld_spec {currentSize targetWorldSize : Nat}
    {output auxData : Bytes}
    (hsize : currentSize + output.length = targetWorldSize)
    (htarget : targetWorldSize ≤ 2 ^ 32 - 503)
    (haux : auxData.length ≤ 2 ^ 32 - 503) :
    alignWorld currentSize output auxData targetWorldSize
      = .ok (output
          ++ List.replicate (alignUp targetWorldSize - targetWorldSize) 0
          ++ auxData
          ++ List.replicate (alignUp auxData.length - auxData.length) 0) := by
  have hle := le_alignUp targetWorldSize
  have hlt := alignUp_lt targetWorldSize
  have hauxLe := le_alignUp auxData.length
  have hworld : (output ++ List.replicate
      (alignUp targetWorldSize - targetWorldSize) 0 ++ auxData).length
      < 2 ^ 62 := by
    simp only [List.length_append, List.length_replicate]
    omega
  have hblocks : (currentSize + (output
      ++ List.replicate (alignUp targetWorldSize - targetWorldSize) 0
      ++ auxData ++ List.replicate
        (alignUp auxData.length - auxData.length) 0).length)
      % transferBlockSize.toNat = 0 := by
    have htotal : currentSize + (output
        ++ List.replicate (alignUp targetWorldSize - targetWorldSize) 0
        ++ auxData ++ List.replicate
          (alignUp auxData.length - auxData.length) 0).length
        = 503 * (ceilBlocks targetWorldSize
          + ceilBlocks auxData.length) := by
      simp only [List.length_append, List.length_replicate]
      unfold alignUp at *
      omega
    rw [htotal, transferBlockSize_toNat]
    exact Nat.mul_mod_right ..
  unfold alignWorld
  rw [resize_aligned htarget (by omega)]
  dsimp only
  rw [resize_aligned haux hworld]
  dsimp only
  rw [if_pos hblocks]

-- ================================================================ the stream

/-- A world stream as the game expects it: `world` bytes of archive and
the auxiliary data, each filled up to whole blocks with zeros, with the
announced checksum. -/
structure WorldStream (stream : Bytes) (world : Nat) (auxData : Bytes)
    (targetCrc : UInt32) : Prop where
  length : stream.length
    = 503 * ceilBlocks world + 503 * ceilBlocks auxData.length
  crc : Crc.crc32 (stream.take world ++ auxData) = targetCrc
  aux : (stream.drop (503 * ceilBlocks world)).take auxData.length
    = auxData
  worldGap : ∀ b ∈ (stream.take (503 * ceilBlocks world)).drop world, b = 0
  auxGap : ∀ b ∈ stream.drop (503 * ceilBlocks world + auxData.length),
    b = 0

/-- Archive, zeros, auxiliary data, zeros. -/
theorem worldStream_of_parts {world auxData : Bytes} {targetCrc : UInt32}
    (hcrc : Crc.crc32 (world ++ auxData) = targetCrc) :
    WorldStream (world
      ++ List.replicate (alignUp world.length - world.length) 0 ++ auxData
      ++ List.replicate (alignUp auxData.length - auxData.length) 0)
      world.length auxData targetCrc := by
  have hle := le_alignUp world.length
  have hauxLe := le_alignUp auxData.length
  have haligned : (world ++ List.replicate
      (alignUp world.length - world.length) (0 : UInt8)).length
      = 503 * ceilBlocks world.length := by
    rw [List.length_append, List.length_replicate]
    unfold alignUp at *
    omega
  constructor
  case length =>
    rw [List.length_append, List.length_append, haligned,
      List.length_replicate]
    unfold alignUp at *
    omega
  case crc =>
    rw [List.append_assoc, List.append_assoc, List.take_left]
    exact hcrc
  case aux =>
    rw [List.append_assoc, ← haligned, List.drop_left, List.take_left]
  case worldGap =>
    rw [List.append_assoc, ← haligned, List.take_left, List.drop_left]
    intro b hb
    exact List.eq_of_mem_replicate hb
  case auxGap =>
    rw [← haligned, ← List.length_append, List.drop_left]
    intro b hb
    exact List.eq_of_mem_replicate hb

end Emit

/-- For every sequence of calls whose files are within the bounds of the
archive format, and every target: the calls succeed, `finalize_world`
refuses exactly when the archive does not fit the target size, and
otherwise entries and output together are the world stream. -/
theorem reconstructed_world_stream {σ : Type} {crc : CrcCrate}
    {miniz : MinizOxide} (hcrc : crc.IsIsoHdlc)
    (provider : ChunkProvider (ExceptT Fault (StateM σ))) (fuel : Nat)
    (descs : List FactorioFileDescription) (s : σ)
    (worldDesc : FactorioWorldDescription) (targetWorldSize : Nat)
    (targetCrc : UInt32)
    (hcount : descs.length ≤ 65535)
    (hfits : ∀ file ∈ (streamed provider fuel descs s).1,
      EncodedFits miniz file)
    (htarget : targetWorldSize ≤ 2 ^ 32 - 504)
    (haux : worldDesc.auxData.length ≤ 2 ^ 32 - 504) :
    ∃ (r : WorldReconstructor crc) (entries : List Bytes) (s' : σ),
      reconstructWorldFiles miniz provider fuel .new descs s
        = (some (r, entries), s')
      ∧ ((∃ a b, r.finalizeWorld worldDesc targetWorldSize targetCrc
            = .error (.wontFit a b))
          ↔ entries.flatten.length + r.zipWriter.centralDirectorySize + 4
            > targetWorldSize)
      ∧ (entries.flatten.length + r.zipWriter.centralDirectorySize + 4
            ≤ targetWorldSize →
          ∃ output, r.finalizeWorld worldDesc targetWorldSize targetCrc
              = .ok output
            ∧ WorldStream (entries.flatten ++ output) targetWorldSize
              worldDesc.auxData targetCrc) := by
  obtain ⟨r, entries, hadd, hlength, hemitting⟩ :=
    addFiles_spec (r := (.new : WorldReconstructor crc)) emitting_new hfits
  rw [List.nil_append] at hemitting
  have htotal : r.totalSize = entries.flatten.length
      + r.zipWriter.centralDirectorySize + 4 := by
    rw [← hemitting.size]
    rfl
  have hentries : entries.length ≤ 65535 := by
    have := length_streamed_le provider fuel descs s
    omega
  have hlt : targetWorldSize < 2 ^ 32 := by omega
  refine ⟨r, entries, _, reconstructWorldFiles_spec miniz provider fuel hadd,
    ⟨?_, ?_⟩, ?_⟩
  · rintro ⟨a, b, herr⟩
    by_contra hroom
    obtain ⟨output, hclose, hsize, -⟩ := finalizeWorld_closes hcrc hemitting
      hentries worldDesc targetCrc hlt (by omega)
    rw [hclose, alignWorld_spec hsize (by omega) (by omega)] at herr
    cases herr
  · intro hroom
    refine ⟨r.totalSize, targetWorldSize, ?_⟩
    unfold finalizeWorld
    rw [if_pos (by omega)]
  · intro hroom
    obtain ⟨output, hclose, hsize, hforged⟩ := finalizeWorld_closes hcrc
      hemitting hentries worldDesc targetCrc hlt (by omega)
    refine ⟨_, hclose.trans (alignWorld_spec hsize (by omega) (by omega)),
      ?_⟩
    have hstream := worldStream_of_parts hforged
    rw [List.length_append, hsize] at hstream
    simpa only [List.append_assoc] using hstream

/-- A chunk map of one chunk. -/
def oneChunk : ChunkMap :=
  WriteMap.empty.insert (blake3Sample [0]) [0]

/-- A one-byte file, in one chunk. -/
def oneFile : List FactorioFileDescription :=
  [{ fileType := .normal
     fileName := [97]
     contentSize := 1
     chunkList := { isLeaf := true, chunks := [blake3Sample [0]] } }]

/-- What is streamed for it from `oneChunk`. -/
theorem streamed_oneFile :
    (streamed (mapProvider oneChunk) 1 oneFile ()).1
      = oneFile.map fun desc => (desc, [0]) := by
  rfl

/-- The world description that goes with it. -/
def oneFileWorld : FactorioWorldDescription where
  files := oneFile
  auxData := [1, 2]
  totalChunks := 1

theorem encodedFits_oneFile :
    ∀ file ∈ (streamed (mapProvider oneChunk) 1 oneFile ()).1,
      EncodedFits smallMiniz file := by
  rw [streamed_oneFile]
  intro file hfile
  cases List.mem_singleton.mp hfile
  exact ⟨by decide, by decide, by decide⟩

theorem reconstructed_world_stream_oneFile :
    ∃ (r : WorldReconstructor isoHdlcCrate) (entries : List Bytes)
      (s' : Unit),
      reconstructWorldFiles smallMiniz (mapProvider oneChunk) 1 .new oneFile
        () = (some (r, entries), s')
      ∧ ((∃ a b, r.finalizeWorld oneFileWorld 120 0xDEADBEEF
            = .error (.wontFit a b))
          ↔ entries.flatten.length + r.zipWriter.centralDirectorySize + 4
            > 120)
      ∧ (entries.flatten.length + r.zipWriter.centralDirectorySize + 4
            ≤ 120 →
          ∃ output, r.finalizeWorld oneFileWorld 120 0xDEADBEEF
              = .ok output
            ∧ WorldStream (entries.flatten ++ output) 120
              oneFileWorld.auxData 0xDEADBEEF) :=
  reconstructed_world_stream isoHdlcCrate_isIsoHdlc (mapProvider oneChunk) 1
    oneFile () oneFileWorld 120 0xDEADBEEF (by decide) encodedFits_oneFile
    (by decide) (by decide)

end FactoryCacher
