/-
The size of a reply with chunks, against the limit on messages.

A blob of a chunk map is a data chunk, at most 4096 bytes, or the text of
a list: a flag, a count and at most 512 keys of 32 bytes. That no list
has more keys is the shape of the tree (Common/Proofs/TreeShape.lean),
up to the root that `minimize_chunk_list` stores. A request has the keys
of one batch, at most 512, and the rest is addition: with what
MessagePack adds per string and array and zstd adds to a text it cannot
compress, a reply is less than half of the limit.
-/
import FactoryCacher.Lib.MsgPack
import FactoryCacher.Common.Fetcher
import FactoryCacher.Common.Messages
import FactoryCacher.Common.Proofs.CacheOps
import FactoryCacher.Common.Proofs.ChunkerSpec
import FactoryCacher.Common.Proofs.TreeShape

namespace FactoryCacher

variable {blake3 : Bytes → ChunkKey}

-- ================================================================ the blobs

theorem ChunkList.length_serialized (l : ChunkList) :
    l.serialized.length = 5 + 32 * l.chunks.length := by
  have hkeys : (l.chunks.flatMap ChunkKey.bytes).length
      = 32 * l.chunks.length := by
    induction l.chunks with
    | nil => rfl
    | cons key keys ih =>
        rw [List.flatMap_cons, List.length_append, key.len, ih,
          List.length_cons]
        omega
  rw [ChunkList.serialized, List.length_cons, List.length_append,
    length_putU32, hkeys]
  omega

/-- Every blob of a map fits: a flag, a count and 512 keys. -/
def BlobsFit (chunks : ChunkMap) : Prop :=
  ∀ key blob, chunks.Written key blob → blob.length ≤ 16389

theorem BlobsFit.insert {chunks : ChunkMap} (h : BlobsFit chunks)
    (key : ChunkKey) {blob : Bytes} (hblob : blob.length ≤ 16389) :
    BlobsFit (chunks.insert key blob) := by
  intro k b hwritten
  rcases (WriteMap.written_insert ..).1 hwritten with ⟨-, hb⟩ | hold
  · rwa [hb]
  · exact h k b hold

theorem length_serialized_le {l : ChunkList} (h : l.chunks.length ≤ 512) :
    l.serialized.length ≤ 16389 := by
  rw [ChunkList.length_serialized]
  omega

theorem chunkData_fits {data : Bytes} {chunks chunks' : ChunkMap}
    {root : ChunkList} (h : BlobsFit chunks)
    (hrun : chunkData blake3 data chunks = some (root, chunks')) :
    BlobsFit chunks' ∧ root.chunks.length ≤ 512 := by
  obtain ⟨root₁, chunks₁, levels, hrun₁, hclosed, hgives, -⟩ :=
    chunkData_closed blake3 data chunks
  obtain ⟨root₂, chunks₂, hrun₂, hroot⟩ := chunkData_spec blake3 data chunks
  rw [hrun] at hrun₁ hrun₂
  cases hrun₁
  cases hrun₂
  refine ⟨?_, hroot.len⟩
  intro key blob hwritten
  rcases (hgives key blob).1 hwritten with hold | ⟨hblob, -⟩
  · exact h key blob hold
  · rcases List.mem_append.1 hblob with hchunk | hlist
    · obtain ⟨before, after, hsplit⟩ := List.append_of_mem hchunk
      have hlen := (chunkEnd_of_chunksOf hsplit).2.2
      omega
    · obtain ⟨l, hl, rfl⟩ := List.mem_map.1 hlist
      obtain ⟨lists, hlists, hl⟩ := List.mem_flatten.1 hl
      exact length_serialized_le (hclosed.shaped.most lists
        ((List.dropLast_sublist levels).subset hlists) l hl)

theorem chunkOne_fits {input : Bytes × Bool} {chunks chunks' : ChunkMap}
    {root : ChunkList} (h : BlobsFit chunks)
    (hrun : chunkOne blake3 input chunks = some (root, chunks')) :
    BlobsFit chunks' := by
  unfold chunkOne at hrun
  cases hdata : chunkData blake3 input.1 chunks with
  | none =>
      rw [hdata] at hrun
      cases hrun
  | some built =>
      obtain ⟨root₁, chunks₁⟩ := built
      obtain ⟨hfits, hlen⟩ := chunkData_fits h hdata
      rw [hdata] at hrun
      dsimp only at hrun
      by_cases hmin : input.2 = true
      · rw [if_pos hmin] at hrun
        unfold minimizeChunkList at hrun
        by_cases hshort : root₁.chunks.length < minimizeThreshold
        · rw [if_pos hshort] at hrun
          cases hrun
          exact hfits
        · rw [if_neg hshort, (ChunkList.encode_of_le hlen).1] at hrun
          cases hrun
          exact hfits.insert _ (length_serialized_le hlen)
      · rw [if_neg hmin] at hrun
        cases hrun
        exact hfits

/-- Whatever is chunked into a map. -/
theorem chunkAll_fits {inputs : List (Bytes × Bool)} :
    ∀ {chunks chunks' : ChunkMap} {roots : List ChunkList},
      BlobsFit chunks →
      chunkAll blake3 inputs chunks = some (roots, chunks') →
      BlobsFit chunks' := by
  induction inputs with
  | nil =>
      intro chunks chunks' roots h hrun
      cases hrun
      exact h
  | cons input inputs ih =>
      intro chunks chunks' roots h hrun
      rw [chunkAll] at hrun
      cases hone : chunkOne blake3 input chunks with
      | none =>
          rw [hone] at hrun
          cases hrun
      | some first =>
          rw [hone] at hrun
          dsimp only at hrun
          cases hrest : chunkAll blake3 inputs first.2 with
          | none =>
              rw [hrest] at hrun
              cases hrun
          | some others =>
              rw [hrest] at hrun
              cases hrun
              exact ih (chunkOne_fits h hone) hrest

-- =============================================================== the replies

/-- What MessagePack adds to a byte string or an array. -/
def MessagePack.AddsAtMostFive (rmp : MessagePack) : Prop :=
  ∀ n, (rmp.arrayHeader n).length ≤ 5 ∧ (rmp.binHeader n).length ≤ 5

/-- What zstd adds to a text it cannot compress. -/
def Zstd.Bounded (zstd : Zstd) : Prop :=
  ∀ level contents, (zstd.encode level contents).length
    ≤ contents.length + contents.length / 128 + 1024

/-- A reply has a blob of the map for every key. -/
theorem collectChunks_spec {chunks : ChunkMap} {keys : List ChunkKey}
    {found : List Bytes} (h : collectChunks chunks keys = some found) :
    found.length = keys.length
      ∧ ∀ chunk ∈ found, ∃ key, chunks.Written key chunk := by
  induction keys generalizing found with
  | nil =>
      cases h
      exact ⟨rfl, fun _ hin => absurd hin List.not_mem_nil⟩
  | cons key keys ih =>
      rw [collectChunks] at h
      split at h
      case h_1 chunk rest hget hrest =>
        cases h
        obtain ⟨hlen, hall⟩ := ih hrest
        refine ⟨by rw [List.length_cons, hlen, List.length_cons], ?_⟩
        intro c hc
        rcases List.mem_cons.1 hc with rfl | hc
        · exact ⟨key, WriteMap.written_of_get hget⟩
        · exact hall c hc
      case h_2 => cases h

theorem length_writeBytes_flatMap {rmp : MessagePack}
    (hrmp : rmp.AddsAtMostFive) {found : List Bytes}
    (hfound : ∀ chunk ∈ found, chunk.length ≤ 16389) :
    (found.flatMap rmp.writeBytes).length ≤ 16394 * found.length := by
  induction found with
  | nil => exact Nat.zero_le _
  | cons chunk rest ih =>
      obtain ⟨hchunk, hrest⟩ := List.forall_mem_cons.1 hfound
      have hheader := (hrmp chunk.length).2
      have htail := ih hrest
      rw [List.flatMap_cons, List.length_append, MessagePack.writeBytes,
        List.length_append, List.length_cons]
      omega

/-- A reply to at most 512 keys, before it is compressed. -/
theorem length_writeSendChunks {rmp : MessagePack}
    (hrmp : rmp.AddsAtMostFive) {chunks : ChunkMap} (hfit : BlobsFit chunks)
    {request : RequestChunksMessage}
    (hkeys : request.requestedChunks.length ≤ 512)
    {response : SendChunksMessage}
    (hreply : replyTo chunks request = some response) :
    (rmp.writeSendChunks response).length ≤ 8393738 := by
  unfold replyTo at hreply
  obtain ⟨found, hfound, rfl⟩ := Option.map_eq_some_iff.1 hreply
  obtain ⟨hlen, hall⟩ := collectChunks_spec hfound
  have hbody := length_writeBytes_flatMap hrmp fun chunk hchunk => by
    obtain ⟨key, hwritten⟩ := hall chunk hchunk
    exact hfit key chunk hwritten
  have hstruct := (hrmp 1).1
  have harray := (hrmp found.length).1
  show (rmp.arrayHeader 1 ++ rmp.arrayHeader found.length
    ++ found.flatMap rmp.writeBytes).length ≤ 8393738
  rw [List.length_append, List.length_append]
  omega

/-- A message within the limit is written, and read again. -/
theorem readMessage_written {msgData : Bytes}
    (h : msgData.length ≤ messageSizeLimit) :
    ∃ written, writeMessage msgData = some written
      ∧ ∀ rest, readMessage (written ++ rest) = .ok (msgData, rest) := by
  have hcount : (UInt32.ofNat msgData.length).toNat = msgData.length :=
    UInt32.toNat_ofNat_of_lt'
      (by unfold messageSizeLimit at h; unfold UInt32.size; omega)
  refine ⟨_, if_neg (not_lt.2 h), ?_⟩
  intro rest
  unfold readMessage
  rw [List.append_assoc, run_tryGetU32Le_append]
  dsimp only
  rw [hcount, if_neg (not_lt.2 h), if_neg (by simp), List.take_left,
    List.drop_left]

/-- A reply to at most 512 keys: within the limit as it is, and
compressed. -/
theorem reply_fits {rmp : MessagePack} (hrmp : rmp.AddsAtMostFive)
    {zstd : Zstd} (hzstd : zstd.Bounded) (transport : MessageTransport)
    {chunks : ChunkMap} (hfit : BlobsFit chunks)
    {request : RequestChunksMessage}
    (hkeys : request.requestedChunks.length ≤ 512)
    {response : SendChunksMessage}
    (hreply : replyTo chunks request = some response) :
    (rmp.writeSendChunks response).length < messageSizeLimit
      ∧ (replyData zstd rmp transport response).length
        ≤ messageSizeLimit := by
  have hplain := length_writeSendChunks hrmp hfit hkeys hreply
  have hpacked := hzstd transport.compressionLevel
    (rmp.writeSendChunks response)
  unfold replyData MessageTransport.encodeMessage messageSizeLimit
  omega

-- ========================================================== the conversation

/-- The messages of a stream, up to where it ends or one is too long. -/
def messagesOf (stream : Bytes) : List Bytes :=
  match _hread : readMessage stream with
  | .error _ => []
  | .ok (msgData, rest) => msgData :: messagesOf rest
termination_by stream.length
decreasing_by exact length_of_readMessage _hread

theorem messagesOf_eq_cons {stream msgData rest : Bytes}
    (h : readMessage stream = .ok (msgData, rest)) :
    messagesOf stream = msgData :: messagesOf rest := by
  rw [messagesOf]
  split
  case h_1 e herror =>
    rw [h] at herror
    cases herror
  case h_2 msgData' rest' hread =>
    rw [h] at hread
    cases hread
    rfl

/-- A request for the keys of a batch, as `fetch_chunk_batch` sends it,
whatever the state of the client's cache. -/
def IsBatchRequest (request : RequestChunksMessage) : Prop :=
  ∃ inner chunksRequested event batch,
    (getChunksBatched inner chunksRequested fetchBatchSize event).outcome
      = .batch batch
    ∧ request.requestedChunks = batch.batchKeys

theorem IsBatchRequest.length_le {request : RequestChunksMessage}
    (h : IsBatchRequest request) :
    request.requestedChunks.length ≤ 512 := by
  obtain ⟨inner, chunksRequested, event, batch, houtcome, hkeys⟩ := h
  rw [hkeys]
  cases (getChunksBatched_spec inner chunksRequested fetchBatchSize
    event).ends with
  | batch batch' houtcome' hbatch =>
      rw [houtcome] at houtcome'
      cases houtcome'
      exact hbatch.bounded
  | wait _ houtcome' =>
      rw [houtcome] at houtcome'
      cases houtcome'
  | complete houtcome' =>
      rw [houtcome] at houtcome'
      cases houtcome'
  | notPending houtcome' =>
      rw [houtcome] at houtcome'
      cases houtcome'

/-- As long as it is asked for batches, the loop does not panic over what
it writes. -/
theorem provideChunksAsRequested_writes {rmp : MessagePack}
    (hrmp : rmp.AddsAtMostFive) {zstd : Zstd} (hzstd : zstd.Bounded)
    (transport : MessageTransport) {chunks : ChunkMap}
    (hfit : BlobsFit chunks) (recvStream : Bytes)
    (hrequests : ∀ requestData ∈ messagesOf recvStream, ∀ request,
      MessageTransport.decodeMessage zstd rmp.readRequestChunks requestData
        = some request → IsBatchRequest request)
    (totalTransferred : Nat) (sent : Bytes) :
    (provideChunksAsRequested zstd rmp transport chunks recvStream
      totalTransferred sent).2 ≠ .error .writeSize := by
  -- along the turns of the loop
  fun_induction provideChunksAsRequested zstd rmp transport chunks recvStream
    totalTransferred sent with
  | case1 => nofun
  | case2 => nofun
  | case3 => nofun
  | case4 => nofun
  | case5 recvStream _ _ requestData rest hread request hdecode response
      hreply hwrite =>
      -- the reply would have been written
      rw [messagesOf_eq_cons hread] at hrequests
      have hbatch := hrequests requestData (List.mem_cons_self ..) request
        hdecode
      have hfits := (reply_fits hrmp hzstd transport hfit hbatch.length_le
        hreply).2
      obtain ⟨written, hwritten, -⟩ := readMessage_written hfits
      rw [hwrite] at hwritten
      cases hwritten
  | case6 recvStream _ _ requestData rest hread request hdecode response
      hreply written hwrite ih =>
      rw [messagesOf_eq_cons hread] at hrequests
      exact ih fun data hdata =>
        hrequests data (List.mem_cons_of_mem _ hdata)

/-- Replies fit. Every blob of a map into which byte strings were chunked
has at most 5 + 32 * 512 bytes. So the reply to any request for a batch
is below the limit before it is compressed, and by so much that after it
`write_message` writes it and `read_message` reads it; and no stream of
such requests makes `provide_chunks_as_requested` panic over a reply. -/
theorem chunk_replies_fit {rmp : MessagePack} (hrmp : rmp.AddsAtMostFive)
    {zstd : Zstd} (hzstd : zstd.Bounded) (transport : MessageTransport)
    (blake3 : Bytes → ChunkKey) (inputs : List (Bytes × Bool)) :
    ∃ roots chunks,
      chunkAll blake3 inputs WriteMap.empty = some (roots, chunks)
      ∧ (∀ key blob, chunks.get key = some blob → blob.length ≤ 16389)
      ∧ (∀ request response, IsBatchRequest request →
          replyTo chunks request = some response →
          (rmp.writeSendChunks response).length < messageSizeLimit
          ∧ ∃ written,
            writeMessage (replyData zstd rmp transport response)
              = some written
            ∧ ∀ rest, readMessage (written ++ rest)
              = .ok (replyData zstd rmp transport response, rest))
      ∧ ∀ recvStream, (∀ requestData ∈ messagesOf recvStream, ∀ request,
          MessageTransport.decodeMessage zstd rmp.readRequestChunks
            requestData = some request → IsBatchRequest request) →
        (provideChunksAsRequested zstd rmp transport chunks recvStream 0
          []).2 ≠ .error .writeSize := by
  obtain ⟨roots, chunks, hrun, -⟩ :=
    chunkAll_spec blake3 inputs WriteMap.empty
  have hempty : BlobsFit WriteMap.empty := fun key blob h =>
    absurd h (WriteMap.written_empty key blob)
  have hfit := chunkAll_fits hempty hrun
  refine ⟨roots, chunks, hrun, ?_, ?_, ?_⟩
  · intro key blob hget
    exact hfit key blob (WriteMap.written_of_get hget)
  · intro request response hbatch hreply
    obtain ⟨hplain, hpacked⟩ :=
      reply_fits hrmp hzstd transport hfit hbatch.length_le hreply
    exact ⟨hplain, readMessage_written hpacked⟩
  · intro recvStream hrequests
    exact provideChunksAsRequested_writes hrmp hzstd transport hfit
      recvStream hrequests 0 []

-- ================================================================ one reply

/-- A key, which is a byte string of 32 bytes. -/
def keyCodec : MsgPack.Codec ChunkKey :=
  MsgPack.Codec.bin.via ChunkKey.bytes
    (fun bytes => if h : bytes.length = 32 then some ⟨bytes, h⟩ else none)
    (fun key => dif_pos key.len)

/-- A request: a struct of one field, which is an array of keys. -/
def requestCodec : MsgPack.Codec RequestChunksMessage :=
  (MsgPack.Codec.struct 1 (by decide) keyCodec.array).via
    RequestChunksMessage.requestedChunks (fun keys => some ⟨keys⟩)
    (fun _ => rfl)

/-- A reply: a struct of one field, which is an array of byte strings. -/
def responseCodec : MsgPack.Codec SendChunksMessage :=
  (MsgPack.Codec.struct 1 (by decide) MsgPack.Codec.bin.array).via
    SendChunksMessage.chunks (fun chunks => some ⟨chunks⟩) (fun _ => rfl)

/-- MessagePack itself, as the answering side uses it. -/
def plainMessagePack : MessagePack where
  arrayHeader := MsgPack.arrayHeader
  binHeader := MsgPack.binHeader
  readRequestChunks := requestCodec.decode

/-- Its headers are short enough. -/
theorem plainMessagePack_adds : plainMessagePack.AddsAtMostFive := fun n =>
  ⟨MsgPack.length_arrayHeader_le n, MsgPack.length_binHeader_le n⟩

/-- What zstd makes of a short text it cannot compress: a frame with one
raw block. -/
def rawZstd : Zstd where
  encode _ contents := [0x28, 0xb5, 0x2f, 0xfd, 0x00, 0x60]
    ++ toLE 3 (8 * contents.length + 1) ++ contents
  decode frame :=
    if frame.take 6 = [0x28, 0xb5, 0x2f, 0xfd, 0x00, 0x60] then
      some (frame.drop 9)
    else none

theorem rawZstd_bounded : rawZstd.Bounded := by
  intro level contents
  show ([0x28, 0xb5, 0x2f, 0xfd, 0x00, 0x60]
    ++ toLE 3 (8 * contents.length + 1) ++ contents : Bytes).length ≤ _
  rw [List.length_append, List.length_append, length_toLE]
  simp only [List.length_cons, List.length_nil]
  omega

/-- A request for the one chunk of a byte, and its reply. -/
theorem chunk_replies_fit_one :
    ∃ roots chunks written,
      chunkAll blake3Sample [([0], true)] WriteMap.empty
        = some (roots, chunks)
      ∧ plainMessagePack.AddsAtMostFive ∧ rawZstd.Bounded
      ∧ IsBatchRequest ⟨[blake3Sample [0]]⟩
      ∧ replyTo chunks ⟨[blake3Sample [0]]⟩ = some ⟨[[0]]⟩
      ∧ writeMessage (replyData rawZstd plainMessagePack ⟨11⟩ ⟨[[0]]⟩)
        = some written
      ∧ readMessage written
        = .ok (replyData rawZstd plainMessagePack ⟨11⟩ ⟨[[0]]⟩, []) := by
  obtain ⟨roots, chunks, hrun, -, hreplies, -⟩ :=
    chunk_replies_fit plainMessagePack_adds rawZstd_bounded ⟨11⟩
      blake3Sample [([0], true)]
  have hbatch : IsBatchRequest ⟨[blake3Sample [0]]⟩ :=
    ⟨⟨RawChunkCache.new 1, fun _ => none, false⟩, [blake3Sample [0]], 0,
      ⟨0, [blake3Sample [0]]⟩, rfl, rfl⟩
  have hmap : chunks = WriteMap.empty.insert (blake3Sample [0]) [0] := by
    simp only [chunkAll, chunkOne, minimizeChunkList, minimizeThreshold,
      chunkData_of_short (List.cons_ne_nil _ _)
        (show [0].length ≤ minChunkSize by decide)] at hrun
    cases hrun
    rfl
  have hreply : replyTo chunks ⟨[blake3Sample [0]]⟩ = some ⟨[[0]]⟩ := by
    rw [hmap]
    rfl
  obtain ⟨-, written, hwrite, hread⟩ := hreplies _ _ hbatch hreply
  have hread := hread []
  rw [List.append_nil] at hread
  exact ⟨roots, chunks, written, hrun, plainMessagePack_adds,
    rawZstd_bounded, hbatch, hreply, hwrite, hread⟩

end FactoryCacher
