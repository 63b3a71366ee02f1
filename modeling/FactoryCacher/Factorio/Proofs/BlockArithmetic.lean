/-
The block arithmetic on `u32`, and where it is exact.

Both proxies count the blocks of a length as `(n + 503 - 1) / 503` on
`u32`. From `2^32 - 502` on the sum wraps, and the count with it, to
nothing: a world of that size is a world of no blocks. The offset of the
auxiliary data is a product that fits wherever the count is right, but
its sum with the size of the auxiliary data wraps earlier still. The
length check before the slice adds the same two numbers as `usize` and
so does not see it.

`ServerExact` and `ClientExact` list the values the two sides compute,
`ServerFits` and `ClientFits` are the sizes for which all of them are
exact, and they are no stronger than that. On the server the values are
those of a download: the counts are taken when it starts, the offsets
from what is left of it when it is handed over.
-/
import FactoryCacher.Factorio.Proofs.DownloadWindow
import FactoryCacher.Factorio.Proofs.WorldStream

namespace FactoryCacher

open ServerProxyState
open WorldReconstructor (alignedLength)

-- ============================================================== the server

/-- The values the server's proxy computes for a download, on exact
integers. -/
structure ServerExact (state : DownloadingWorldState) : Prop where
  worldBlocks : state.worldBlockCount.toNat
    = ceilBlocks state.worldInfo.worldSize.toNat
  auxBlocks : (blockCount state.worldInfo.auxSize).toNat
    = ceilBlocks state.worldInfo.auxSize.toNat
  allBlocks : (totalBlockCount state.worldInfo).toNat
    = ceilBlocks state.worldInfo.worldSize.toNat
      + ceilBlocks state.worldInfo.auxSize.toNat
  auxStart : (auxDataOffset state).toNat
    = 503 * ceilBlocks state.worldInfo.worldSize.toNat
  auxStop : (auxDataOffset state + state.worldInfo.auxSize).toNat
    = 503 * ceilBlocks state.worldInfo.worldSize.toNat
      + state.worldInfo.auxSize.toNat

/-- The sizes for which they are. -/
def ServerFits (worldInfo : FactorioWorldMetadata) : Prop :=
  worldInfo.worldSize.toNat ≤ 2 ^ 32 - 503
    ∧ worldInfo.auxSize.toNat ≤ 2 ^ 32 - 503
    ∧ 503 * ceilBlocks worldInfo.worldSize.toNat
        + worldInfo.auxSize.toNat < 2 ^ 32

/-- A count is exact just where it does not wrap. -/
theorem blockCount_exact_iff (size : UInt32) :
    (blockCount size).toNat = ceilBlocks size.toNat
      ↔ size.toNat ≤ 2 ^ 32 - 503 := by
  constructor
  · intro hexact
    by_contra hwraps
    rw [blockCount_of_wraps (not_le.mp hwraps)] at hexact
    have hzero : (0 : UInt32).toNat = 0 := rfl
    rw [hzero] at hexact
    unfold ceilBlocks at hexact
    omega
  · exact blockCount_toNat

/-- The counts of two lengths fit together. -/
theorem totalBlockCount_toNat {worldInfo : FactorioWorldMetadata}
    (hworld : worldInfo.worldSize.toNat ≤ 2 ^ 32 - 503)
    (haux : worldInfo.auxSize.toNat ≤ 2 ^ 32 - 503) :
    (totalBlockCount worldInfo).toNat
      = ceilBlocks worldInfo.worldSize.toNat
        + ceilBlocks worldInfo.auxSize.toNat := by
  rw [totalBlockCount, UInt32.toNat_add, blockCount_toNat hworld,
    blockCount_toNat haux]
  apply Nat.mod_eq_of_lt
  unfold ceilBlocks
  omega

/-- The server's values are exact just for the sizes that fit. -/
theorem serverExact_iff {state : DownloadingWorldState}
    (hcount : state.worldBlockCount
      = blockCount state.worldInfo.worldSize) :
    ServerExact state ↔ ServerFits state.worldInfo := by
  constructor
  · intro h
    have hworld := h.worldBlocks
    rw [hcount, blockCount_exact_iff] at hworld
    have hend := h.auxStop
    have hlt := (auxDataOffset state + state.worldInfo.auxSize).toNat_lt
    rw [hend] at hlt
    exact ⟨hworld, (blockCount_exact_iff _).mp h.auxBlocks, hlt⟩
  · intro h
    obtain ⟨hworld, haux, hend⟩ := h
    have hoffset : (auxDataOffset state).toNat
        = 503 * ceilBlocks state.worldInfo.worldSize.toNat := by
      rw [auxDataOffset, hcount, blockCount_mul_toNat hworld, alignUp]
    refine ⟨?_, blockCount_toNat haux, totalBlockCount_toNat hworld haux,
      hoffset, ?_⟩
    · rw [hcount, blockCount_toNat hworld]
    · rw [UInt32.toNat_add, hoffset]
      exact Nat.mod_eq_of_lt hend

/-- With exact values the slices are in order, and the length check is
all they need. -/
theorem ServerExact.slices {state : DownloadingWorldState}
    (h : ServerExact state) :
    state.worldInfo.worldSize ≤ auxDataOffset state
      ∧ auxDataOffset state ≤ auxDataOffset state + state.worldInfo.auxSize
      ∧ worldAndAuxData state ≠ .error .slice := by
  have hoffset := h.auxStart
  have hend := h.auxStop
  have hle := le_alignUp state.worldInfo.worldSize.toNat
  unfold alignUp at hle
  refine ⟨?_, ?_, ?_⟩
  · rw [UInt32.le_iff_toNat_le]
    omega
  · rw [UInt32.le_iff_toNat_le]
    omega
  · unfold worldAndAuxData
    by_cases hshort : (receivedData state).length
        < (auxDataOffset state).toNat + state.worldInfo.auxSize.toNat
    · rw [if_pos hshort]
      intro hslice
      cases hslice
    · rw [if_neg hshort, sliceBytes, if_pos ⟨Nat.zero_le _, by omega⟩,
        sliceBytes, if_pos ⟨by omega, by omega⟩]
      intro hslice
      cases hslice

-- ============================================================== the client

/-- The lengths `finalize_world` aligns to, on exact integers. -/
structure ClientExact (targetWorldSize auxLength : UInt32) : Prop where
  worldAlignedLength : alignedLength targetWorldSize.toNat
    = 503 * ceilBlocks targetWorldSize.toNat
  auxAlignedLength : alignedLength auxLength.toNat
    = 503 * ceilBlocks auxLength.toNat

/-- The sizes for which they are. -/
def ClientFits (targetWorldSize auxLength : UInt32) : Prop :=
  targetWorldSize.toNat ≤ 2 ^ 32 - 503 ∧ auxLength.toNat ≤ 2 ^ 32 - 503

/-- An aligned length is exact just where the count is. -/
theorem alignedLength_exact_iff (n : UInt32) :
    alignedLength n.toNat = 503 * ceilBlocks n.toNat
      ↔ n.toNat ≤ 2 ^ 32 - 503 := by
  constructor
  · intro hexact
    by_contra hwraps
    rw [alignedLength, UInt32.ofNat_toNat,
      blockCount_of_wraps (not_le.mp hwraps), UInt32.zero_mul] at hexact
    have hzero : (0 : UInt32).toNat = 0 := rfl
    rw [hzero] at hexact
    unfold ceilBlocks at hexact
    omega
  · exact alignedLength_eq

theorem clientExact_iff (targetWorldSize auxLength : UInt32) :
    ClientExact targetWorldSize auxLength
      ↔ ClientFits targetWorldSize auxLength := by
  constructor
  · intro h
    exact ⟨(alignedLength_exact_iff _).mp h.worldAlignedLength,
      (alignedLength_exact_iff _).mp h.auxAlignedLength⟩
  · intro h
    exact ⟨(alignedLength_exact_iff _).mpr h.1,
      (alignedLength_exact_iff _).mpr h.2⟩

-- ============================================================ both together

/-- What a run knows of a download that goes on or was handed over. -/
theorem downloadInv_of_run {worldEstimate : UInt32 → UInt32}
    {deliveries : List Delivery} {s : ServerProxyState}
    {out : List ServerEvent} {state : DownloadingWorldState}
    (hrun : Machine.run onPacketFromServer
      (ServerProxyState.new worldEstimate) deliveries = some (s, out))
    (hstate : s.phase = .downloadingWorld state ∨ state ∈ transfers out) :
    DownloadInv state.worldInfo (totalBlockCount state.worldInfo).toNat
      (fun _ => True) state := by
  cases windowRun_run hrun with
  | waiting hphase _ hnone =>
      rw [hphase, hnone] at hstate
      rcases hstate with hstate | hstate <;> cases hstate
  | running hphase hwindow _ _ hnone =>
      rw [hphase, hnone] at hstate
      rcases hstate with hstate | hstate
      · cases hstate
        rw [hwindow.blocks.info]
        exact hwindow.blocks
      · cases hstate
  | finished hphase hone hblocks =>
      rw [hphase, hone] at hstate
      rcases hstate with hstate | hstate
      · cases hstate
      · rw [List.mem_singleton.mp hstate, hblocks.info]
        exact hblocks

/-- The block arithmetic of both proxies. On the server, of every
download in every run, the values are exact just for the sizes that fit;
for these every block of the world and the auxiliary data is requested
or was, and the slices of `transfer_world_data` are in order. On the
client, the aligned lengths are exact just for the sizes that fit, and
then nothing is subtracted from less. -/
theorem block_arithmetic {worldEstimate : UInt32 → UInt32}
    {deliveries : List Delivery} {s : ServerProxyState}
    {out : List ServerEvent} {state : DownloadingWorldState}
    (hrun : Machine.run onPacketFromServer
      (ServerProxyState.new worldEstimate) deliveries = some (s, out))
    (hstate : s.phase = .downloadingWorld state ∨ state ∈ transfers out)
    (targetWorldSize auxLength : UInt32) :
    (ServerExact state ↔ ServerFits state.worldInfo)
    ∧ (ServerFits state.worldInfo →
        (∀ id : UInt32, id.toNat
            < ceilBlocks state.worldInfo.worldSize.toNat
              + ceilBlocks state.worldInfo.auxSize.toNat
          ↔ id ∈ state.receivedBlocks.map TransferBlockPacket.blockId
            ∨ id ∈ state.inflightBlockRequests
            ∨ id ∈ state.blockRequestQueue)
        ∧ state.worldInfo.worldSize ≤ auxDataOffset state
        ∧ auxDataOffset state
            ≤ auxDataOffset state + state.worldInfo.auxSize
        ∧ worldAndAuxData state ≠ .error .slice)
    ∧ (ClientExact targetWorldSize auxLength
        ↔ ClientFits targetWorldSize auxLength)
    ∧ (ClientFits targetWorldSize auxLength →
        targetWorldSize.toNat ≤ alignedLength targetWorldSize.toNat
        ∧ auxLength.toNat ≤ alignedLength auxLength.toNat) := by
  have hblocks := downloadInv_of_run hrun hstate
  have hserver := serverExact_iff hblocks.worldBlocks
  refine ⟨hserver, ?_, clientExact_iff _ _, ?_⟩
  · intro hfits
    have hexact := hserver.mpr hfits
    refine ⟨?_, hexact.slices⟩
    rw [← hexact.allBlocks]
    exact hblocks.everywhere
  · intro hfits
    rw [alignedLength_eq hfits.1, alignedLength_eq hfits.2]
    exact ⟨le_alignUp _, le_alignUp _⟩

/-- A world of one byte fits, and its only block is asked for. -/
theorem block_arithmetic_tiny :
    ∃ s out state,
      Machine.run onPacketFromServer (ServerProxyState.new id)
        [tinyAnnouncement] = some (s, out)
      ∧ s.phase = .downloadingWorld state
      ∧ ServerFits state.worldInfo ∧ ServerExact state
      ∧ ClientFits 1 0 ∧ ClientExact 1 0 := by
  have hrun : Machine.run onPacketFromServer (ServerProxyState.new id)
      [tinyAnnouncement] = some (_, _) := rfl
  obtain ⟨hserver, -, hclient, -⟩ :=
    block_arithmetic hrun (Or.inl rfl) 1 0
  have hserverFits : ServerFits tinyWorldInfo := by
    refine ⟨?_, ?_, ?_⟩ <;> decide
  have hclientFits : ClientFits 1 0 := by
    refine ⟨?_, ?_⟩ <;> decide
  exact ⟨_, _, _, hrun, rfl, hserverFits, hserver.mpr hserverFits,
    hclientFits, hclient.mpr hclientFits⟩

/-- A map-ready heartbeat for a world of `u32::MAX` bytes. -/
def hugeAnnouncement : Delivery :=
  ⟨[7, 0x10, 0, 0, 0, 0, 1, 5]
    ++ FactorioWorldMetadata.encode ⟨0xFFFFFFFF, 0, 0, 0, 0⟩, atRest⟩

/-- The proxy takes it for a world of no blocks and asks for none of its
8538703. With half of `u32::MAX` for the world and for the auxiliary
data each, the slice of the latter ends before it starts. And on the
client the aligned length of the huge world is nothing. -/
theorem block_arithmetic_wraps :
    (∃ s out state,
      Machine.run onPacketFromServer (ServerProxyState.new id)
        [hugeAnnouncement] = some (s, out)
      ∧ s.phase = .downloadingWorld state
      ∧ state.worldInfo.worldSize = 0xFFFFFFFF
      ∧ ceilBlocks state.worldInfo.worldSize.toNat = 8538703
      ∧ state.worldBlockCount = 0
      ∧ totalBlockCount state.worldInfo = 0
      ∧ state.blockRequestQueue.isEmpty = true
      ∧ state.inflightBlockRequests.isEmpty = true
      ∧ ¬ ServerExact state)
    ∧ (let worldInfo : FactorioWorldMetadata :=
        ⟨0x80000000, 0, 0x80000000, 0, 0⟩
      let state := startDownload worldInfo worldInfo 0
      auxDataOffset state + worldInfo.auxSize < auxDataOffset state)
    ∧ alignedLength (0xFFFFFFFF : UInt32).toNat = 0 := by
  refine ⟨⟨_, _, _, rfl, rfl, rfl, by decide, by decide, by decide, rfl, rfl,
    ?_⟩, by decide, by decide⟩
  intro h
  have hcount := h.worldBlocks
  revert hcount
  decide

end FactoryCacher
