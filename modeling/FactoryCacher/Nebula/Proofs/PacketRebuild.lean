/-
The Nebula packet rebuild: a deduplicated packet, reconstructed, says
what the original said.

# What a packet says

`PacketContent` is a packet without its encoding: the kind, the leading
field, the content of the LZ4 frame, and the trailing fields. It has one
header for every frame length, one trailer, and one description by chunk
lists (`describe`), since the root of a chunk tree depends on the data
alone (`chunkData_rootOf`).

# The chain

`deconstruct_spec`: a packet that deconstructs says some content, its
description is that content's, and the chunk map stands for its parts.
`reconstruct_eq`: over any provider that has those chunks, `reconstruct`
sends `fragments`, whatever the monad it runs in. `flatten_fragments` and
`deconstruct_frame` read those back: the same header but for the length,
a frame of that length with the same content, and the same trailer.
-/
import FactoryCacher.Common.Proofs.ChunkTree
import FactoryCacher.Nebula.NebulaProtocol
import FactoryCacher.Nebula.Proofs.Lz4Framing

namespace FactoryCacher

-- ================================================================== content

/-- What a packet says: its kind, the leading field, the data in its
frame, and the trailing fields. -/
inductive PacketContent
  | globalGameData (dataType : UInt8) (data : Bytes)
  | factoryData (planetId : UInt32) (data : Bytes)
      (terrain : {terrain : Bytes // terrain.length < 2 ^ 32})
  | dysonSphereData (starIndex : UInt32) (data : Bytes) (eventType : UInt32)

namespace PacketContent

/-- The content of the frame. -/
def data : PacketContent → Bytes
  | .globalGameData _ data => data
  | .factoryData _ data _ => data
  | .dysonSphereData _ data _ => data

/-- The header, with a frame of `dataLength` bytes to follow. -/
def header (dataLength : UInt32) : PacketContent → NebulaPacketHeader
  | .globalGameData dataType _ => .globalGameData { dataType, dataLength }
  | .factoryData planetId _ _ => .factoryData { planetId, dataLength }
  | .dysonSphereData starIndex _ _ =>
      .dysonSphereData { starIndex, dataLength }

/-- What follows the frame. -/
def trailer : PacketContent → Bytes
  | .globalGameData .. => []
  | .factoryData _ _ terrain =>
      putU32Le (UInt32.ofNat terrain.val.length) ++ terrain.val
  | .dysonSphereData _ _ eventType => putU32Le eventType

/-- The byte strings that are chunked. -/
def parts : PacketContent → List Bytes
  | .globalGameData _ data => [data]
  | .factoryData _ data terrain => [data, terrain.val]
  | .dysonSphereData _ data _ => [data]

/-- The description of the packet. -/
def describe (blake3 : Bytes → ChunkKey) : PacketContent → NebulaPacket
  | .globalGameData dataType data => .globalGameData
      { dataType
        dataUncompressedLength := UInt64.ofNat data.length
        dataChunkList := rootOf blake3 data }
  | .factoryData planetId data terrain => .factoryData
      { planetId
        dataUncompressedLength := UInt64.ofNat data.length
        dataChunkList := rootOf blake3 data
        terrainDataLength := UInt32.ofNat terrain.val.length
        terrainDataChunkList := rootOf blake3 terrain.val }
  | .dysonSphereData starIndex data eventType => .dysonSphereData
      { starIndex
        dataUncompressedLength := UInt64.ofNat data.length
        dataChunkList := rootOf blake3 data
        eventType }

/-- The fragments after the frame. -/
def trailerFragments : PacketContent → List Bytes
  | .globalGameData .. => []
  | .factoryData _ _ terrain =>
      putU32Le (UInt32.ofNat terrain.val.length) :: chunksOf terrain.val
  | .dysonSphereData _ _ eventType => [putU32Le eventType]

theorem flatten_trailerFragments (content : PacketContent) :
    content.trailerFragments.flatten = content.trailer := by
  cases content with
  | globalGameData => rfl
  | factoryData planetId data terrain =>
      show _ ++ (chunksOf terrain.val).flatten = _
      rw [flatten_chunksOf]
      rfl
  | dysonSphereData => exact List.flatten_singleton

end PacketContent

-- ================================================================== headers

/-- A header as it is sent. -/
def NebulaPacketHeader.text : NebulaPacketHeader → Bytes
  | .globalGameData header =>
      putU64Le gameDataPacketId ++ header.dataType
        :: putU32Le header.dataLength
  | .factoryData header =>
      putU64Le factoryDataPacketId ++ (putU32Le header.planetId
        ++ putU32Le header.dataLength)
  | .dysonSphereData header =>
      putU64Le dysonSphereDataPacketId ++ (putU32Le header.starIndex
        ++ putU32Le header.dataLength)

/-- The three ids differ. -/
theorem packetIds : factoryDataPacketId ≠ gameDataPacketId
    ∧ dysonSphereDataPacketId ≠ gameDataPacketId
    ∧ dysonSphereDataPacketId ≠ factoryDataPacketId := by
  decide +kernel

/-- A header that is sent is decoded. -/
theorem NebulaPacketHeader.decode_text (header : NebulaPacketHeader)
    (rest : Bytes) :
    NebulaPacketHeader.decode (header.text ++ rest)
      = .ok (some header, rest) := by
  obtain ⟨hfactory, hdyson, hdyson'⟩ := packetIds
  unfold NebulaPacketHeader.decode
  cases header with
  | globalGameData header =>
      rw [NebulaPacketHeader.text, List.append_assoc, get_u64Le_append,
        if_pos rfl]
      rw [GlobalGameDataHeader.decode, bind_assoc, List.cons_append,
        get_u8_cons, bind_assoc, get_u32Le_append]
      rfl
  | factoryData header =>
      rw [NebulaPacketHeader.text, List.append_assoc, get_u64Le_append,
        if_neg hfactory, if_pos rfl]
      rw [FactoryDataHeader.decode, bind_assoc, List.append_assoc,
        get_u32Le_append, bind_assoc, get_u32Le_append]
      rfl
  | dysonSphereData header =>
      rw [NebulaPacketHeader.text, List.append_assoc, get_u64Le_append,
        if_neg hdyson, if_neg hdyson', if_pos rfl]
      rw [DysonSphereDataHeader.decode, bind_assoc, List.append_assoc,
        get_u32Le_append, bind_assoc, get_u32Le_append]
      rfl

-- =========================================================== deconstructing

variable {blake3 : Bytes → ChunkKey} {lz4 : Bytes → Option Bytes}

/-- A split that succeeds. -/
theorem trySplitTo_eq_ok {packetData first rest : Bytes} {n : Nat}
    (h : trySplitTo packetData n = .ok (first, rest)) :
    packetData = first ++ rest ∧ first.length = n := by
  unfold trySplitTo at h
  split at h
  case isTrue => cases h
  case isFalse hlen =>
    cases h
    refine ⟨(List.take_append_drop ..).symm, ?_⟩
    rw [List.length_take]
    omega

/-- A split of what is there. -/
theorem trySplitTo_append (first rest : Bytes) :
    trySplitTo (first ++ rest) first.length = .ok (first, rest) := by
  rw [trySplitTo, if_neg (by simp), List.take_left, List.drop_left]

/-- What `deconstruct_lz4_data` has done when it succeeds. -/
theorem deconstructLz4Data_eq_ok {packetData rest : Bytes} {n : Nat}
    {chunks chunks' : ChunkMap} {list : ChunkList} {len : UInt64}
    (h : deconstructLz4Data blake3 lz4 packetData n chunks
      = .ok ((list, len), rest, chunks')) :
    ∃ frame data, packetData = frame ++ rest ∧ frame.length = n
      ∧ lz4 frame = some data ∧ len = UInt64.ofNat data.length
      ∧ list = rootOf blake3 data
      ∧ RootDone blake3 chunks (chunksOf data) list chunks' := by
  unfold deconstructLz4Data at h
  split at h
  case h_1 => cases h
  case h_2 frame rest' hsplit =>
    obtain ⟨hdata, hlen⟩ := trySplitTo_eq_ok hsplit
    split at h
    case h_1 => cases h
    case h_2 data hlz4 =>
      obtain ⟨chunks₁, hchunk, hdone⟩ := chunkData_rootOf blake3 data chunks
      rw [hchunk] at h
      cases h
      exact ⟨frame, data, hdata, hlen, hlz4, rfl, rfl, hdone⟩

/-- And that it succeeds, on a frame that decompresses. -/
theorem deconstructLz4Data_append {frame data : Bytes}
    (hlz4 : lz4 frame = some data) (rest : Bytes) (chunks : ChunkMap) :
    ∃ chunks', deconstructLz4Data blake3 lz4 (frame ++ rest) frame.length
      chunks = .ok ((rootOf blake3 data, UInt64.ofNat data.length), rest,
        chunks') := by
  obtain ⟨chunks', hchunk, -⟩ := chunkData_rootOf blake3 data chunks
  refine ⟨chunks', ?_⟩
  simp only [deconstructLz4Data, trySplitTo_append, hlz4, hchunk]

/-- A packet said `content`, was described by `packet`, and left
`chunks` behind. -/
structure Deconstructed (blake3 : Bytes → ChunkKey)
    (lz4 : Bytes → Option Bytes) (header : NebulaPacketHeader)
    (packetData : Bytes) (start : ChunkMap) (packet : NebulaPacket)
    (chunks : ChunkMap) (content : PacketContent) : Prop where
  leading : header = content.header header.dataLength
  /-- the frame, the trailer, and bytes nobody reads -/
  parse : ∃ frame ignored, packetData
      = frame ++ (content.trailer ++ ignored)
    ∧ frame.length = header.dataLength.toNat
    ∧ lz4 frame = some content.data
  described : packet = content.describe blake3
  grown : Grown blake3 start chunks
  means : ∀ part ∈ content.parts,
    Means chunks (rootOf blake3 part) (chunksOf part)

/-- What `deconstruct` has done when it succeeds. -/
theorem NebulaPacketHeader.deconstruct_spec {header : NebulaPacketHeader}
    {packetData : Bytes} {start chunks : ChunkMap} {packet : NebulaPacket}
    (h : header.deconstruct blake3 lz4 packetData start
      = .ok (packet, chunks)) :
    ∃ content, Deconstructed blake3 lz4 header packetData start packet
      chunks content := by
  cases header with
  | globalGameData header =>
      simp only [NebulaPacketHeader.deconstruct,
        GlobalGameDataPacket.deconstruct] at h
      split at h
      case h_1 => cases h
      case h_2 list len rest chunks₁ hframe =>
        cases h
        obtain ⟨frame, data, rfl, hlen, hlz4, rfl, rfl, hdone⟩ :=
          deconstructLz4Data_eq_ok hframe
        refine ⟨.globalGameData header.dataType data, rfl,
          ⟨frame, rest, rfl, hlen, hlz4⟩, rfl, hdone.grown, ?_⟩
        intro part hpart
        rw [List.mem_singleton.mp hpart]
        exact hdone.means
  | factoryData header =>
      simp only [NebulaPacketHeader.deconstruct,
        FactoryDataPacket.deconstruct] at h
      split at h
      case h_1 => cases h
      case h_2 list len rest chunks₁ hframe =>
        obtain ⟨frame, data, rfl, hlen, hlz4, rfl, rfl, hdone⟩ :=
          deconstructLz4Data_eq_ok hframe
        split at h
        case h_1 => cases h
        case h_2 terrainLength rest₁ hlength =>
          split at h
          case h_1 => cases h
          case h_2 terrain ignored hsplit =>
            obtain ⟨rfl, hterrain⟩ := trySplitTo_eq_ok hsplit
            obtain rfl := tryGetU32Le_eq_ok hlength
            obtain ⟨chunks₂, hchunk, hdone'⟩ :=
              chunkData_rootOf blake3 terrain chunks₁
            rw [hchunk] at h
            cases h
            have hfits : terrain.length < 2 ^ 32 :=
              hterrain ▸ terrainLength.toNat_lt
            have hofNat : UInt32.ofNat terrain.length = terrainLength := by
              rw [hterrain]
              exact UInt32.ofNat_toNat
            refine ⟨.factoryData header.planetId data ⟨terrain, hfits⟩, rfl,
              ⟨frame, ignored, ?_, hlen, hlz4⟩, ?_,
              hdone.grown.trans hdone'.grown, ?_⟩
            · simp only [PacketContent.trailer, hofNat, List.append_assoc]
            · simp only [PacketContent.describe, hofNat]
            · intro part hpart
              rcases List.mem_pair.mp hpart with rfl | rfl
              · exact hdone.means.mono hdone'.grown
              · exact hdone'.means
  | dysonSphereData header =>
      simp only [NebulaPacketHeader.deconstruct,
        DysonSphereDataPacket.deconstruct] at h
      split at h
      case h_1 => cases h
      case h_2 list len rest chunks₁ hframe =>
        obtain ⟨frame, data, rfl, hlen, hlz4, rfl, rfl, hdone⟩ :=
          deconstructLz4Data_eq_ok hframe
        split at h
        case h_1 => cases h
        case h_2 eventType ignored hevent =>
          obtain rfl := tryGetU32Le_eq_ok hevent
          cases h
          refine ⟨.dysonSphereData header.starIndex data eventType, rfl,
            ⟨frame, ignored, rfl, hlen, hlz4⟩, rfl, hdone.grown, ?_⟩
          intro part hpart
          rw [List.mem_singleton.mp hpart]
          exact hdone.means

/-- Whatever the frame, a packet that says `content` is described as
`content` is. -/
theorem deconstruct_frame (content : PacketContent) {frame : Bytes}
    (hlen : frame.length < 2 ^ 32) (hlz4 : lz4 frame = some content.data)
    (start : ChunkMap) :
    ∃ chunks, (content.header (UInt32.ofNat frame.length)).deconstruct
      blake3 lz4 (frame ++ content.trailer) start
        = .ok (content.describe blake3, chunks) := by
  have hofNat : (UInt32.ofNat frame.length).toNat = frame.length :=
    UInt32.toNat_ofNat_of_lt' hlen
  obtain ⟨chunks₁, hframe⟩ : ∃ chunks', deconstructLz4Data blake3 lz4
      (frame ++ content.trailer) frame.length start
        = .ok ((rootOf blake3 content.data,
            UInt64.ofNat content.data.length), content.trailer, chunks') :=
    deconstructLz4Data_append hlz4 content.trailer start
  cases content with
  | globalGameData dataType data =>
      refine ⟨chunks₁, ?_⟩
      simp only [PacketContent.header, NebulaPacketHeader.deconstruct,
        GlobalGameDataPacket.deconstruct, hofNat, hframe]
      rfl
  | factoryData planetId data terrain =>
      have hterrain : (UInt32.ofNat terrain.val.length).toNat
          = terrain.val.length := UInt32.toNat_ofNat_of_lt' terrain.property
      have hsplit := trySplitTo_append terrain.val []
      rw [List.append_nil] at hsplit
      obtain ⟨chunks₂, hchunk, -⟩ :=
        chunkData_rootOf blake3 terrain.val chunks₁
      refine ⟨chunks₂, ?_⟩
      simp only [PacketContent.trailer] at hframe ⊢
      simp only [PacketContent.header, NebulaPacketHeader.deconstruct,
        FactoryDataPacket.deconstruct, hofNat, hframe,
        run_tryGetU32Le_append, hterrain, hsplit, hchunk]
      rfl
  | dysonSphereData starIndex data eventType =>
      have hevent := run_tryGetU32Le_append eventType []
      rw [List.append_nil] at hevent
      refine ⟨chunks₁, ?_⟩
      simp only [PacketContent.trailer] at hframe ⊢
      simp only [PacketContent.header, NebulaPacketHeader.deconstruct,
        DysonSphereDataPacket.deconstruct, hofNat, hframe, hevent]
      rfl

-- =========================================================== reconstructing

/-- The fragments a packet is sent in. -/
def PacketContent.fragments (xx : XxHash32) (content : PacketContent) :
    List Bytes :=
  (content.header (UInt32.ofNat (frameOf xx content.data).length)).text
    :: (encodeAll xx (chunksOf content.data) ++ content.trailerFragments)

section Send

variable {xx : XxHash32} {m : Type → Type} [Monad m] [LawfulMonad m]
  [MonadExceptOf Fault m] {provider : ChunkProvider m}
  {store : ChunkKey → Bytes → Prop}

omit [MonadExceptOf Fault m] in
/-- Chunks through the encoder: the fragments it returns are sent. -/
theorem run_forM_frameChunk (send : Bytes → m Unit) (data : List Bytes)
    (e : Lz4DeterministicFrameEncoder xx) :
    (forM data (frameChunk xx send)).run e
      = forM (addAll e data).2 send
        >>= fun _ => pure ((), (addAll e data).1) := by
  induction data generalizing e with
  | nil =>
      simp only [addAll, List.forM_nil, pure_bind]
      rfl
  | cons chunk data ih =>
      rw [List.forM_cons, StateT.run_bind]
      show frameChunk xx send chunk e >>= _ = _
      simp only [addAll, frameChunk]
      rcases e.addData chunk with ⟨e', _ | fragment⟩
      · simp only [pure_bind, ih, Option.toList_none, List.nil_append]
      · simp only [bind_assoc, pure_bind, ih, Option.toList_some,
          List.singleton_append, List.forM_cons]

/-- The LZ4 data of a root that stands for `data`. -/
theorem reconstructLz4Data_eq (xx : XxHash32) {root : ChunkList}
    {data : List Bytes}
    (h : Denotes store parseList root.isLeaf root.chunks data) :
    ∃ depth, ∀ {m : Type → Type} [Monad m] [LawfulMonad m]
      [MonadExceptOf Fault m] {provider : ChunkProvider m}
      (send : Bytes → m Unit) (fuel : Nat),
      Answers store provider → depth ≤ fuel →
      reconstructLz4Data xx provider send fuel root
        = forM (encodeAll xx data) send := by
  obtain ⟨n, hwithin⟩ := h.within
  obtain ⟨depth, hread⟩ := reconstructData_eq h
  refine ⟨max (n + 2) depth, ?_⟩
  intro m _ _ _ provider send fuel hprovider hfuel
  have hmetadata : prefetchMetadataChunks provider fuel [root] = pure () :=
    prefetchMetadataChunks_eq hprovider
      (List.forall_mem_singleton.mpr hwithin) (by omega : n + 2 ≤ fuel)
  rw [reconstructLz4Data, hmetadata, pure_bind,
    hread (frameChunk xx send) fuel (hprovider.liftState _) (by omega),
    run_forM_frameChunk, bind_assoc]
  simp only [pure_bind, encodeAll, List.forM_append, List.forM_cons,
    List.forM_nil, bind_pure_unit]

omit [LawfulMonad m] in
/-- The length announced is that of the frame to come. -/
theorem tryFramedSize_eq {data : Bytes}
    (hfits : (frameOf xx data).length < 2 ^ 32) :
    (tryFramedSize (UInt64.ofNat data.length) : m UInt32)
      = pure (UInt32.ofNat (frameOf xx data).length) := by
  have hsize : (framedSize (UInt64.ofNat data.length)).toNat
      = (frameOf xx data).length := framedSize_toNat (by omega)
  rw [tryFramedSize, hsize, if_pos hfits]

/-- Over a provider that has the chunks of a packet's parts,
`reconstruct` sends the packet's fragments. -/
theorem reconstruct_eq (content : PacketContent)
    (hfits : (frameOf xx content.data).length < 2 ^ 32)
    (hparts : ∀ part ∈ content.parts, Denotes store parseList
      (rootOf blake3 part).isLeaf (rootOf blake3 part).chunks
      (chunksOf part)) :
    ∃ depth, ∀ {m : Type → Type} [Monad m] [LawfulMonad m]
      [MonadExceptOf Fault m] {provider : ChunkProvider m}
      (send : Bytes → m Unit) (fuel : Nat),
      Answers store provider → depth ≤ fuel →
      (content.describe blake3).reconstruct xx provider send fuel
        = forM (content.fragments xx) send := by
  have hdata : content.data ∈ content.parts := by
    cases content <;> exact List.mem_cons_self
  obtain ⟨depth, hframe⟩ := reconstructLz4Data_eq xx
    (hparts content.data hdata)
  cases content with
  | globalGameData dataType data =>
      refine ⟨depth, ?_⟩
      intro m _ _ _ provider send fuel hprovider hfuel
      simp only [PacketContent.data] at hfits hframe
      simp only [PacketContent.describe, NebulaPacket.reconstruct,
        GlobalGameDataPacket.reconstruct, tryFramedSize_eq hfits, pure_bind,
        hframe send fuel hprovider hfuel, PacketContent.fragments,
        PacketContent.header, PacketContent.data, NebulaPacketHeader.text,
        PacketContent.trailerFragments, List.append_nil, List.forM_cons]
  | factoryData planetId data terrain =>
      obtain ⟨depth', hterrain⟩ := reconstructData_eq
        (hparts terrain.val (List.mem_cons_of_mem _ List.mem_cons_self))
      refine ⟨max depth depth', ?_⟩
      intro m _ _ _ provider send fuel hprovider hfuel
      simp only [PacketContent.data] at hfits hframe
      simp only [PacketContent.describe, NebulaPacket.reconstruct,
        FactoryDataPacket.reconstruct, tryFramedSize_eq hfits, pure_bind,
        hframe send fuel hprovider (by omega),
        hterrain send fuel hprovider (by omega), PacketContent.fragments,
        PacketContent.header, PacketContent.data, NebulaPacketHeader.text,
        PacketContent.trailerFragments, List.forM_append, List.forM_cons]
  | dysonSphereData starIndex data eventType =>
      refine ⟨depth, ?_⟩
      intro m _ _ _ provider send fuel hprovider hfuel
      simp only [PacketContent.data] at hfits hframe
      simp only [PacketContent.describe, NebulaPacket.reconstruct,
        DysonSphereDataPacket.reconstruct, tryFramedSize_eq hfits,
        pure_bind, hframe send fuel hprovider hfuel,
        PacketContent.fragments, PacketContent.header, PacketContent.data,
        NebulaPacketHeader.text, PacketContent.trailerFragments,
        List.forM_append, List.forM_cons, List.forM_nil, bind_pure_unit]

end Send

-- ========================================================== reading it again

variable {xx : XxHash32}

/-- The fragments in sequence are a header, a frame and the trailer. -/
theorem flatten_fragments (hxx : xx.Streams) (content : PacketContent) :
    (content.fragments xx).flatten
      = (content.header (UInt32.ofNat
          (frameOf xx content.data).length)).text
        ++ (frameOf xx content.data ++ content.trailer) := by
  rw [PacketContent.fragments, List.flatten_cons, List.flatten_append,
    encodeAll_eq hxx, flatten_chunksOf,
    PacketContent.flatten_trailerFragments]

/-- A decoder that decodes every valid frame of stored blocks, if it
announces neither a content size nor a dictionary and no block is
empty. -/
def DecodesFrames (xx : XxHash32) (lz4 : Bytes → Option Bytes) : Prop :=
  ∀ text f content, Lz4.readFrame text = .ok (f, []) →
    f.Valid (xx.oneshot 0) → f.Plain → f.Holds (xx.oneshot 0) content →
    lz4 text = some content

/-- Then it decodes the frames of this program. -/
theorem DecodesFrames.frameOf (hlz4 : DecodesFrames xx lz4)
    (data : Bytes) : lz4 (frameOf xx data) = some data := by
  have hread := readFrame_frameOf xx data []
  rw [List.append_nil] at hread
  exact hlz4 _ _ _ hread (valid_frameRead data) (plain_frameRead data)
    (holds_frameRead data)

/-- `reconstruct` over a chunk map, with the fragments kept: how it
ended and what was sent. -/
def reconstructFragments (xx : XxHash32) (chunks : ChunkMap) (fuel : Nat)
    (packet : NebulaPacket) : Except Fault Unit × List Bytes :=
  (packet.reconstruct xx (m := StreamM) (mapProvider chunks) keepChunk
    fuel).run.run []

-- ============================================================ the statement

/-- A packet whose header decodes and whose `deconstruct` succeeds says
some content: kind and leading field in its header, the data its frame
decompresses to, and a trailer. If the data framed again fits a `u32`,
`reconstruct` over the chunk map ends without error, and the fragments in
sequence decode to the same kind and leading field, are followed by a
frame of exactly the announced length that decompresses to the same data
and by the same trailer, where they end; and deconstructing them, into
whatever map, gives the same description. -/
theorem packet_rebuild (hxx : xx.Streams) (hlz4 : DecodesFrames xx lz4)
    {p packetData : Bytes} {header : NebulaPacketHeader}
    (_hdecode : NebulaPacketHeader.decode p = .ok (some header, packetData))
    {packet : NebulaPacket} {chunks : ChunkMap}
    (hdeconstruct : header.deconstruct blake3 lz4 packetData WriteMap.empty
      = .ok (packet, chunks))
    (hfree : CollisionFree blake3 chunks) :
    ∃ content : PacketContent,
      header = content.header header.dataLength
      ∧ (∃ frame ignored,
        packetData = frame ++ (content.trailer ++ ignored)
        ∧ frame.length = header.dataLength.toNat
        ∧ lz4 frame = some content.data)
      ∧ ((frameOf xx content.data).length < 2 ^ 32 →
        ∃ depth fragments frame,
          (∀ fuel, depth ≤ fuel →
            reconstructFragments xx chunks fuel packet
              = (.ok (), fragments))
          ∧ frame.length < 2 ^ 32
          ∧ NebulaPacketHeader.decode fragments.flatten
            = .ok (some (content.header (UInt32.ofNat frame.length)),
              frame ++ content.trailer)
          ∧ lz4 frame = some content.data
          ∧ ∀ start, ∃ chunks',
            (content.header (UInt32.ofNat frame.length)).deconstruct blake3
                lz4 (frame ++ content.trailer) start
              = .ok (packet, chunks')) := by
  obtain ⟨content, hcontent⟩ :=
    NebulaPacketHeader.deconstruct_spec hdeconstruct
  refine ⟨content, hcontent.leading, hcontent.parse, fun hfits => ?_⟩
  obtain ⟨depth, hsend⟩ := reconstruct_eq content hfits hcontent.means
  have hget := hfree.get hcontent.grown
  have hframe := hlz4.frameOf content.data
  refine ⟨depth, content.fragments xx, frameOf xx content.data, ?_, hfits,
    ?_, hframe, ?_⟩
  · intro fuel hfuel
    rw [reconstructFragments, hcontent.described,
      hsend keepChunk fuel (answers_map hget) hfuel]
    exact run_forM_keepChunk _ []
  · rw [flatten_fragments hxx, NebulaPacketHeader.decode_text]
  · intro start
    rw [hcontent.described]
    exact deconstruct_frame content hfits hframe start

-- ================================================================= a packet

/-- An LZ4 decoder for frames of stored blocks. -/
def storedLz4 (text : Bytes) : Option Bytes :=
  match Lz4.readFrame text with
  | .ok (f, []) => some (f.blocks.flatMap Lz4.Block.data)
  | _ => none

theorem storedLz4_decodes (xx : XxHash32) : DecodesFrames xx storedLz4 := by
  intro text f content hread _ _ hholds
  simp only [storedLz4, hread, hholds.data]

/-- A factory on planet 7, with one byte of data and two of terrain. -/
def smallFactory : PacketContent :=
  .factoryData 7 [0] ⟨[0, 1], by decide⟩

/-- Its frame. -/
def smallFactoryFrame : Bytes := frameOf keptXxHash32 [0]

theorem length_smallFactoryFrame : smallFactoryFrame.length = 20 := by
  rw [smallFactoryFrame, length_frameOf]
  rfl

/-- The map it leaves behind. -/
def smallFactoryChunks : ChunkMap :=
  ⟨[(blake3Sample [0, 1], [0, 1]), (blake3Sample [0], [0])]⟩

theorem deconstruct_smallFactory :
    (smallFactory.header 20).deconstruct blake3Sample storedLz4
        (smallFactoryFrame ++ smallFactory.trailer) WriteMap.empty
      = .ok (smallFactory.describe blake3Sample, smallFactoryChunks) := by
  have hlz4 : storedLz4 smallFactoryFrame = some [0] :=
    (storedLz4_decodes keptXxHash32).frameOf [0]
  have hsplit := trySplitTo_append smallFactoryFrame smallFactory.trailer
  rw [length_smallFactoryFrame] at hsplit
  have hdata : ∀ chunks, chunkData blake3Sample [0] chunks
      = some (⟨true, [blake3Sample [0]]⟩,
          chunks.insert (blake3Sample [0]) [0]) :=
    chunkData_of_short (by decide) (by decide)
  have hterrain : ∀ chunks, chunkData blake3Sample [0, 1] chunks
      = some (⟨true, [blake3Sample [0, 1]]⟩,
          chunks.insert (blake3Sample [0, 1]) [0, 1]) :=
    chunkData_of_short (by decide) (by decide)
  have hlength : tryGetU32Le smallFactory.trailer = .ok (2, [0, 1]) :=
    run_tryGetU32Le_append 2 [0, 1]
  have hroots : smallFactory.describe blake3Sample = .factoryData
      { planetId := 7, dataUncompressedLength := 1
        dataChunkList := ⟨true, [blake3Sample [0]]⟩
        terrainDataLength := 2
        terrainDataChunkList := ⟨true, [blake3Sample [0, 1]]⟩ } := by
    simp only [smallFactory, PacketContent.describe, rootOf, hdata, hterrain]
    rfl
  rw [hroots]
  show Except.map _ (FactoryDataPacket.deconstruct blake3Sample storedLz4
    ⟨7, 20⟩ _ _) = _
  simp only [FactoryDataPacket.deconstruct, deconstructLz4Data,
    show (20 : UInt32).toNat = 20 from rfl, hsplit, hlz4, hdata, hlength,
    show trySplitTo [0, 1] (2 : UInt32).toNat
      = .ok ([0, 1], []) from rfl, hterrain]
  rfl

/-- The factory packet, taken apart and rebuilt. -/
theorem packet_rebuild_small_factory :
    NebulaPacketHeader.decode ((smallFactory.header 20).text
          ++ (smallFactoryFrame ++ smallFactory.trailer))
        = .ok (some (smallFactory.header 20),
          smallFactoryFrame ++ smallFactory.trailer)
      ∧ CollisionFree blake3Sample smallFactoryChunks
      ∧ ∃ depth fragments frame content,
        (∀ fuel, depth ≤ fuel →
          reconstructFragments keptXxHash32 smallFactoryChunks fuel
              (smallFactory.describe blake3Sample)
            = (.ok (), fragments))
        ∧ NebulaPacketHeader.decode fragments.flatten
          = .ok (some (PacketContent.header (UInt32.ofNat frame.length)
            content), frame ++ content.trailer)
        ∧ storedLz4 frame = some [0] := by
  have hdecode := NebulaPacketHeader.decode_text (smallFactory.header 20)
    (smallFactoryFrame ++ smallFactory.trailer)
  refine ⟨hdecode, collisionFree_sample, ?_⟩
  obtain ⟨content, -, ⟨frame, ignored, hsplit, hlen, hframe⟩, hrebuild⟩ :=
    packet_rebuild keptXxHash32_streams (storedLz4_decodes keptXxHash32)
      hdecode deconstruct_smallFactory collisionFree_sample
  -- the frame is the first twenty bytes, so its content is known
  have hsame : smallFactoryFrame = frame := by
    refine (List.append_inj hsplit ?_).1
    rw [length_smallFactoryFrame, hlen]
    rfl
  have hdata : content.data = [0] := by
    have hlz4 : storedLz4 smallFactoryFrame = some [0] :=
      (storedLz4_decodes keptXxHash32).frameOf [0]
    rw [← hsame, hlz4] at hframe
    exact (Option.some.inj hframe).symm
  have hfits : (frameOf keptXxHash32 content.data).length < 2 ^ 32 := by
    rw [hdata]
    exact length_smallFactoryFrame.trans_lt (by decide)
  obtain ⟨depth, fragments, frame', hrun, -, hdecode', hframe', -⟩ :=
    hrebuild hfits
  rw [hdata] at hframe'
  exact ⟨depth, fragments, frame', content, hrun, hdecode', hframe'⟩

end FactoryCacher
