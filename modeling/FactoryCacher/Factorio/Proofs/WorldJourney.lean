/-
From the game server to the game client: the world that arrives is the
world that was downloaded.

# The way

The server proxy has downloaded a world and takes it apart; its
description is the first message on the stream. The client proxy's task
reads it, fetches chunks and sends pieces into a channel; the proxy takes
them out and answers the game's block requests from them. Each of these
has its own file. Here they are put together.

- The description arrives whole or not at all (`readWorldReady_front`).
- What the task sends is the front of the pieces of the world
  (Factorio/Proofs/WorldPieces.lean).
- Within the bounds of the format the pieces are the world stream the
  game expects, with an archive in it that a reader takes for the
  original (`pieces_of_fits`).
- What the proxy answers is blocks of that (`serves_step`), also after it
  has dropped its copy: that happens only when no more pieces will come,
  and from then on it answers nothing.
-/
import FactoryCacher.Factorio.WorldMessage
import FactoryCacher.Factorio.Proofs.BlockServing
import FactoryCacher.Factorio.Proofs.WorldDownload
import FactoryCacher.Factorio.Proofs.WorldPieces

namespace FactoryCacher

open ClientProxy ClientProxyState
open Nebula (Channel)

-- =========================================================== the description

section Stream

variable {zstd : Zstd} (hzstd : zstd.Lossless) {worldRmp : WorldMessagePack}
  {transport : MessageTransport} {worldReady : WorldReadyMessage}
  (hrmp : worldRmp.readWorldReady (worldRmp.writeWorldReady worldReady)
    = some worldReady) {written : Bytes}
  (hwritten : writeMessage (transport.encodeMessage zstd
    worldRmp.writeWorldReady worldReady) = some written)
  {stream : Bytes} (streamEnd : StreamEnd)

include hzstd hrmp hwritten

/-- A description that is there is read. -/
theorem readWorldReady_whole (harrived : written <+: stream) :
    readWorldReady zstd worldRmp stream streamEnd
      = .ok (some worldReady) := by
  obtain ⟨rest, rfl⟩ := harrived
  have hdecode : MessageTransport.decodeMessage zstd worldRmp.readWorldReady
      (transport.encodeMessage zstd worldRmp.writeWorldReady worldReady)
      = some worldReady := by
    rw [MessageTransport.decodeMessage, MessageTransport.encodeMessage,
      hzstd]
    exact hrmp
  unfold readWorldReady
  rw [readMessage_append hwritten]
  dsimp only
  rw [hdecode]

/-- What the client makes of the front of a stream that starts with a
description: it is there, or there is nothing. -/
theorem readWorldReady_front {rest : Bytes}
    (hfront : stream <+: written ++ rest) :
    readWorldReady zstd worldRmp stream streamEnd = .ok (some worldReady)
    ∨ readWorldReady zstd worldRmp stream streamEnd = .ok none
    ∨ readWorldReady zstd worldRmp stream streamEnd
      = .error .readDescription := by
  rcases List.prefix_or_prefix_of_prefix hfront
    (List.prefix_append written rest) with hpart | hwhole
  · obtain ⟨missing, hmissing⟩ := hpart
    by_cases hnone : missing = []
    · rw [hnone, List.append_nil] at hmissing
      exact Or.inl (readWorldReady_whole hzstd hrmp hwritten streamEnd
        (hmissing ▸ List.prefix_rfl))
    · right
      unfold readWorldReady
      rw [readMessage_part hwritten hmissing hnone]
      cases streamEnd with
      | finished => exact Or.inl rfl
      | failed => exact Or.inr rfl
  · exact Or.inl (readWorldReady_whole hzstd hrmp hwritten streamEnd hwhole)

end Stream

/-- What was sent stays in front of what is sent. -/
theorem provideChunksAsRequested_front (zstd : Zstd) (rmp : MessagePack)
    (transport : MessageTransport) (chunks : ChunkMap) (recvStream : Bytes)
    (totalTransferred : Nat) (sent : Bytes) :
    sent <+: (provideChunksAsRequested zstd rmp transport chunks recvStream
      totalTransferred sent).1 := by
  fun_induction provideChunksAsRequested zstd rmp transport chunks recvStream
    totalTransferred sent with
  | case6 _ _ _ _ _ _ _ _ _ _ _ _ ih =>
      exact (List.prefix_append _ _).trans ih
  | _ => exact List.prefix_rfl

section Description

variable {blake3 : Bytes → ChunkKey} {miniz : MinizOxide} {zip : ZipCrate}
  {zstd : Zstd} {rmp : MessagePack} {worldRmp : WorldMessagePack}
  {transport : MessageTransport} {state : DownloadingWorldState}
  {worldData auxData : Bytes} {world : FactorioWorldDescription}
  {chunks : ChunkMap}

/-- The same of what a server sends that has taken its world apart. -/
theorem readWorldReady_sent (hzstd : zstd.Lossless)
    (hrmp : worldRmp.readWorldReady (worldRmp.writeWorldReady
        ⟨world, state.worldInfo, state.newWorldInfo⟩)
      = some ⟨world, state.worldInfo, state.newWorldInfo⟩)
    (hcut : worldAndAuxData state = .ok (worldData, auxData))
    (hworld : deconstructWorld blake3 miniz zip worldData auxData
      = .ok (world, chunks)) {recvStream stream : Bytes}
    (hfront : stream <+: (ServerProxy.transferWorldData blake3 miniz zip
      zstd rmp worldRmp transport state recvStream).1)
    (streamEnd : StreamEnd) :
    readWorldReady zstd worldRmp stream streamEnd
      = .ok (some ⟨world, state.worldInfo, state.newWorldInfo⟩)
    ∨ readWorldReady zstd worldRmp stream streamEnd = .ok none
    ∨ readWorldReady zstd worldRmp stream streamEnd
      = .error .readDescription := by
  have hstate : FactoryCacher.transferWorldData blake3 miniz zip state
      = .ok (world, chunks) := by
    rw [FactoryCacher.transferWorldData, hcut]
    dsimp only
    rw [hworld]
    rfl
  rw [ServerProxy.transferWorldData, hstate] at hfront
  dsimp only at hfront
  cases hwritten : writeMessage (ServerProxy.worldReadyData zstd worldRmp
      transport state world) with
  | none =>
      -- the server panicked, and nothing was written
      rw [hwritten] at hfront
      rw [List.prefix_nil.mp hfront]
      right
      cases streamEnd with
      | finished => exact Or.inl rfl
      | failed => exact Or.inr rfl
  | some written =>
      rw [hwritten] at hfront
      dsimp only at hfront
      obtain ⟨rest, hrest⟩ := provideChunksAsRequested_front zstd rmp
        transport chunks recvStream 0 written
      have hsent : stream <+: written ++ rest := by
        rw [hrest]
        revert hfront
        rcases provideChunksAsRequested zstd rmp transport chunks recvStream
          0 written with ⟨sent, _ | _⟩ <;> exact id
      exact readWorldReady_front hzstd hrmp hwritten streamEnd hsent

end Description

-- ================================================================ the stream

theorem RebuildFits.encoded {miniz : MinizOxide}
    {files : List (FactorioFileDescription × Bytes)} {auxData : Bytes}
    {targetWorldSize : Nat}
    (h : RebuildFits miniz (files.map (toInput miniz)) auxData
      targetWorldSize) : ∀ file ∈ files, EncodedFits miniz file := by
  intro file hfile
  have hmem := List.mem_map_of_mem (f := toInput miniz) hfile
  exact ⟨h.names _ hmem, (h.sizes _ hmem).1, (h.sizes _ hmem).2⟩

/-- Within the bounds of the format: all files are added, the archive is
closed, and together they are the world stream, with the rebuilt archive
in front. -/
theorem pieces_of_fits {crc : CrcCrate} {miniz : MinizOxide}
    (hcrc : crc.IsIsoHdlc) {chunks : ChunkMap} {fuel : Nat}
    {worldReady : WorldReadyMessage}
    {files : List (FactorioFileDescription × Bytes)}
    (hstreamed : (streamed (mapProvider chunks) fuel
      worldReady.world.files ()).1 = files)
    (hfits : RebuildFits miniz (files.map (toInput miniz))
      worldReady.world.auxData worldReady.newInfo.worldSize.toNat) :
    ∃ (r : WorldReconstructor crc) (entries : List Bytes) (output : Bytes),
      addFiles miniz .new files = some (r, entries)
      ∧ lastPiece worldReady r = .ok output
      ∧ WorldStream (entries.flatten ++ output)
        worldReady.newInfo.worldSize.toNat worldReady.world.auxData
        worldReady.newInfo.worldCrc
      ∧ rebuildWorld crc miniz chunks fuel worldReady.world
          worldReady.newInfo.worldSize.toNat worldReady.newInfo.worldCrc
        = some ((entries.flatten ++ output).take
          worldReady.newInfo.worldSize.toNat) := by
  obtain ⟨archive, hrebuilt⟩ := rebuildWorld_of_fits hcrc hstreamed hfits
    worldReady.newInfo.worldCrc
  obtain ⟨r, entries, hadds, hlength, hemitting⟩ :=
    addFiles_spec (emitting_new : Emitting (.new : WorldReconstructor crc)
      []) hfits.encoded
  rw [List.nil_append] at hemitting
  have hcount : entries.length ≤ 65535 := by
    have := hfits.count
    rw [List.length_map] at this
    omega
  -- that it was rebuilt says that there is room
  have hfinal := hrebuilt
  unfold rebuildWorld at hfinal
  rw [(reconstructWorldFiles_eq ..).1, hstreamed, hadds] at hfinal
  dsimp only at hfinal
  have hroom : r.totalSize ≤ worldReady.newInfo.worldSize.toNat := by
    by_contra hover
    unfold WorldReconstructor.finalizeWorld at hfinal
    rw [if_pos (by omega)] at hfinal
    cases hfinal
  have htarget := hfits.target
  obtain ⟨output, hclose, hsize, hforged⟩ := finalizeWorld_closes hcrc
    hemitting hcount worldReady.world worldReady.newInfo.worldCrc
    (by omega) hroom
  have halign := hclose.trans (alignWorld_spec hsize hfits.target hfits.aux)
  refine ⟨r, entries, _, hadds, halign, ?_, ?_⟩
  · have hstream := worldStream_of_parts hforged
    rw [List.length_append, hsize] at hstream
    simpa only [List.append_assoc] using hstream
  · rw [halign] at hfinal
    rw [hrebuilt, ← hfinal]

/-- So the pieces are the world stream, and a reader takes the archive in
it for the original, if and only if the names are ASCII. -/
theorem pieces_stream {crc : CrcCrate} {miniz : MinizOxide}
    {zip : ZipCrate} {inflate : Bytes → Option Bytes}
    (hcrc : crc.IsIsoHdlc) (hminiz : miniz.Undoes inflate)
    (hzip : zip.Reads inflate) {worldData : Bytes} {chunks : ChunkMap}
    {parts : List WorldPart}
    (harchive : zip.archive worldData
      = some ((parts.map WorldPart.zipFile).map some))
    (hparts : ∀ p ∈ parts, Described miniz chunks p) {fuel : Nat}
    {worldReady : WorldReadyMessage}
    (hfiles : worldReady.world.files = parts.map WorldPart.desc)
    (hstreamed : (streamed (mapProvider chunks) fuel
      worldReady.world.files ()).1 = partFiles parts)
    (hfits : RebuildFits miniz ((partFiles parts).map (toInput miniz))
      worldReady.world.auxData worldReady.newInfo.worldSize.toNat)
    {whole : Bytes}
    (hwhole : (worldPieces miniz worldReady
      (.new : WorldReconstructor crc) (partFiles parts)).flatten = whole) :
    WorldStream whole worldReady.newInfo.worldSize.toNat
      worldReady.world.auxData worldReady.newInfo.worldCrc
    ∧ ((worldReady.world.files.length = 65535 → ¬ Zip.HasZip64Locator
        (whole.take worldReady.newInfo.worldSize.toNat)) →
      (SameWorld zip miniz worldData
          (whole.take worldReady.newInfo.worldSize.toNat)
        ↔ ∀ file ∈ worldReady.world.files, ∀ b ∈ file.fileName,
          b < 128)) := by
  obtain ⟨r, entries, output, hadds, hlast, hstream, hrebuilt⟩ :=
    @pieces_of_fits crc miniz hcrc _ _ worldReady _ hstreamed hfits
  have hpieces : entries.flatten ++ output = whole := by
    rw [← hwhole, worldPieces_eq _ hadds, hlast, List.flatten_append]
    simp [Except.toOption]
  rw [hpieces] at hstream hrebuilt
  have htarget := hfits.target
  refine ⟨hstream, fun hzip64 => ?_⟩
  exact (fidelity_of_parts hcrc hminiz hzip harchive hparts hfiles hstreamed
    (by omega) (fun _ => htarget) hrebuilt hzip64).2

-- ============================================================ what is served

/-- One input more. -/
theorem receivedPieces_append (a b : List ClientInput) :
    receivedPieces (a ++ b) = receivedPieces a ++ receivedPieces b :=
  List.filterMap_append ..

theorem flatten_receivedPieces (inputs : List ClientInput) :
    (receivedPieces inputs).flatten = receivedWorld inputs := by
  induction inputs with
  | nil => rfl
  | cons input inputs ih =>
      cases input with
      | packet => exact ih
      | worldData newData now =>
          cases newData with
          | none => exact ih
          | some newData => exact congrArg (newData ++ ·) ih

/-- What a channel delivered before its last delivery. -/
theorem ClientProxy.DeliversWorld.before {sent : List Bytes}
    {past : List ClientInput} {input : ClientInput}
    (h : DeliversWorld sent (past ++ [input])) :
    DeliversWorld sent past := by
  constructor
  case inOrder =>
    have hfront := h.inOrder
    rw [receivedPieces_append] at hfront
    exact (List.prefix_append _ _).trans hfront
  case ended =>
    intro before now after hpast
    obtain ⟨hall, hnone⟩ := h.ended before now (after ++ [input])
      (by rw [hpast]; simp)
    rw [receivedPieces_append] at hnone
    exact ⟨hall, (List.append_eq_nil_iff.mp hnone).1⟩

/-- The proxy while it is given the pieces in `sent`: it has those it was
given, or it has dropped them and there will be no more. Everything it
has told the game are blocks of them. -/
structure ServesFrom (sent : List Bytes) (s : ClientProxyState)
    (past : List ClientInput) (emitted : List PushedPacket) : Prop where
  data : s.worldData = receivedWorld past
    ∨ s.worldData = [] ∧ ∃ now, .worldData none now ∈ past
  done : s.worldDataDone = true → ∃ now, .worldData none now ∈ past
  toClient : ∀ packet, (packet, PacketDirection.toClient) ∈ emitted →
    ∃ k, Complete sent.flatten k
      ∧ packet = (answer sent.flatten k).1

/-- What the proxy has is the front of what was sent. -/
theorem ServesFrom.front {sent : List Bytes} {s : ClientProxyState}
    {past : List ClientInput} {emitted : List PushedPacket}
    (h : ServesFrom sent s past emitted)
    (hdelivers : DeliversWorld sent past) :
    ∃ more, s.worldData ++ more = sent.flatten := by
  rcases h.data with hdata | ⟨hdata, -⟩
  · obtain ⟨rest, hrest⟩ := hdelivers.inOrder
    refine ⟨rest.flatten, ?_⟩
    rw [hdata, ← flatten_receivedPieces, ← hrest, List.flatten_append]
  · exact ⟨sent.flatten, by rw [hdata, List.nil_append]⟩

/-- A block of the front is one of the whole. -/
theorem answer_of_front {world whole more : Bytes} {k : UInt32}
    (hfront : world ++ more = whole) (h : Complete world k) :
    Complete whole k ∧ answer world k = answer whole k := by
  subst hfront
  exact ⟨h.append more, (answer_append h more).symm⟩

section Steps

variable {sent : List Bytes} {s : ClientProxyState}
  {past : List ClientInput} {emitted : List PushedPacket}

/-- Later inputs and packets; `s'` has the data `s` had, or none. -/
theorem ServesFrom.next {s' : ClientProxyState} {input : ClientInput}
    {out : List PushedPacket} (h : ServesFrom sent s past emitted)
    (hworld : receivedWorld (past ++ [input]) = receivedWorld past)
    (hdata : s'.worldData = s.worldData
      ∨ s'.worldData = [] ∧ s.worldDataDone = true)
    (hdone : s'.worldDataDone = true →
      s.worldDataDone = true ∨ ∃ now, input = .worldData none now)
    (hout : ∀ packet, (packet, PacketDirection.toClient) ∈ out →
      ∃ k, Complete sent.flatten k
        ∧ packet = (answer sent.flatten k).1) :
    ServesFrom sent s' (past ++ [input]) (emitted ++ out) := by
  -- the end of the data, once received, stays so
  have hended : (∃ now, .worldData none now ∈ past) →
      ∃ now, .worldData none now ∈ past ++ [input] := by
    intro hpast
    obtain ⟨now, hnow⟩ := hpast
    exact ⟨now, List.mem_append_left _ hnow⟩
  constructor
  case data =>
    rw [hworld]
    rcases hdata with hsame | ⟨hempty, hwas⟩
    · rw [hsame]
      exact h.data.imp_right fun hdropped =>
        ⟨hdropped.1, hended hdropped.2⟩
    · exact Or.inr ⟨hempty, hended (h.done hwas)⟩
  case done =>
    intro hnow
    rcases hdone hnow with hwas | ⟨now, rfl⟩
    · exact hended (h.done hwas)
    · exact ⟨now, List.mem_append_right _ (List.mem_singleton_self _)⟩
  case toClient =>
    intro packet hpacket
    rcases List.mem_append.mp hpacket with hpacket | hpacket
    · exact h.toClient packet hpacket
    · exact hout packet hpacket

/-- A packet from the game. -/
theorem ServesFrom.packet (h : ServesFrom sent s past emitted)
    (hdelivers : DeliversWorld sent past) (packetData : Bytes)
    (elapsedAt now : Nat) :
    ServesFrom sent (s.onPacketFromClient packetData elapsedAt now).1
      (past ++ [.packet packetData elapsedAt now])
      (emitted ++ (s.onPacketFromClient packetData elapsedAt now).2) := by
  have hworld : receivedWorld (past ++ [.packet packetData elapsedAt now])
      = receivedWorld past := by
    rw [receivedWorld_snoc]
    exact List.append_nil _
  unfold onPacketFromClient
  cases hrequest : decodeBlockRequest packetData with
  | none =>
      dsimp only
      apply h.next hworld
      · cases htimed : s.timedOut elapsedAt with
        | false => exact Or.inl rfl
        | true =>
            refine Or.inr ⟨rfl, ?_⟩
            unfold timedOut at htimed
            simp only [Bool.and_eq_true] at htimed
            exact htimed.1.2
      · intro hdone
        left
        cases htimed : s.timedOut elapsedAt with
        | false =>
            rw [htimed] at hdone
            exact hdone
        | true =>
            rw [htimed] at hdone
            exact hdone
      · simp
  | some request =>
      dsimp only
      rw [tryFulfillBlockRequest_eq]
      by_cases hcomplete : 503 * (request.blockId.toNat + 1)
          ≤ s.worldData.length
      · rw [if_pos hcomplete]
        refine h.next hworld (Or.inl rfl) Or.inl ?_
        intro packet hpacket
        obtain ⟨more, hfront⟩ := h.front hdelivers
        obtain ⟨hwhole, hanswer⟩ := answer_of_front hfront hcomplete
        cases List.mem_singleton.mp hpacket
        exact ⟨request.blockId, hwhole, congrArg Prod.fst hanswer⟩
      · rw [if_neg hcomplete]
        exact h.next hworld (Or.inl rfl) Or.inl (by simp)

/-- A piece. -/
theorem ServesFrom.piece (h : ServesFrom sent s past emitted)
    {newData : Bytes} {now : Nat}
    (hdelivers : DeliversWorld sent
      (past ++ [.worldData (some newData) now])) :
    ServesFrom sent (s.onNewWorldData (some newData) now).1
      (past ++ [.worldData (some newData) now])
      (emitted ++ (s.onNewWorldData (some newData) now).2) := by
  -- it comes before the end, so nothing was dropped
  have hnone : ∀ now', .worldData none now' ∉ past := by
    intro now' hmem
    obtain ⟨before, after, hpast⟩ := List.append_of_mem hmem
    obtain ⟨-, hafter⟩ := hdelivers.ended before now'
      (after ++ [.worldData (some newData) now]) (by rw [hpast]; simp)
    rw [receivedPieces_append] at hafter
    exact absurd (List.append_eq_nil_iff.mp hafter).2
      (List.cons_ne_nil newData [])
  have hdata : s.worldData = receivedWorld past := by
    rcases h.data with hdata | ⟨-, now', hmem⟩
    · exact hdata
    · exact absurd hmem (hnone now')
  have hworld : (s.extend newData).worldData
      = receivedWorld (past ++ [.worldData (some newData) now]) := by
    rw [receivedWorld_snoc, ← hdata]
    rfl
  obtain ⟨-, hpush⟩ := fulfillPending_spec (s.extend newData)
    s.pendingRequests.toList s.pendingRequestsSwap
  constructor
  case data => exact Or.inl hworld
  case done =>
    intro hdone
    obtain ⟨now', hmem⟩ := h.done hdone
    exact absurd hmem (hnone now')
  case toClient =>
    intro packet hpacket
    rcases List.mem_append.mp hpacket with hpacket | hpacket
    · exact h.toClient packet hpacket
    · obtain ⟨k, -, hcomplete, hanswer⟩ := (hpush _).mp hpacket
      obtain ⟨rest, hrest⟩ := hdelivers.inOrder
      have hfront : (s.extend newData).worldData ++ rest.flatten
          = sent.flatten := by
        rw [hworld, ← flatten_receivedPieces, ← hrest, List.flatten_append]
      obtain ⟨hwhole, hsame⟩ := answer_of_front hfront hcomplete
      exact ⟨k, hwhole, congrArg Prod.fst (hanswer.trans hsame)⟩

/-- Anything that happens to the proxy. -/
theorem serves_step {input : ClientInput} {s' : ClientProxyState}
    {out : List PushedPacket}
    (h : DeliversWorld sent past → ServesFrom sent s past emitted)
    (hstep : s.step input = some (s', out))
    (hdelivers : DeliversWorld sent (past ++ [input])) :
    ServesFrom sent s' (past ++ [input]) (emitted ++ out) := by
  have hbefore := hdelivers.before
  cases input with
  | packet packetData elapsedAt now =>
      have hnext : s.onPacketFromClient packetData elapsedAt now
          = (s', out) := Option.some.inj hstep
      have hserves := (h hbefore).packet hbefore packetData elapsedAt now
      rwa [hnext] at hserves
  | worldData newData now =>
      cases newData with
      | some newData =>
          cases hstep
          exact (h hbefore).piece hdelivers
      | none =>
          cases hstep
          apply (h hbefore).next
          · rw [receivedWorld_snoc]
            exact List.append_nil _
          · exact Or.inl rfl
          · exact fun _ => Or.inr ⟨now, rfl⟩
          · simp

end Steps

/-- In every run of the proxy, clean-up included. -/
theorem serves_run {sent : List Bytes} {start : Nat}
    {inputs : List ClientInput} {s : ClientProxyState}
    {out : List PushedPacket} (hdelivers : DeliversWorld sent inputs)
    (hrun : Machine.run step (.new start) inputs = some (s, out)) :
    ServesFrom sent s inputs out := by
  have hstep : ∀ s past emitted input s' out,
      (DeliversWorld sent past → ServesFrom sent s past emitted) →
      ClientProxyState.step s input = some (s', out) →
      DeliversWorld sent (past ++ [input]) →
      ServesFrom sent s' (past ++ [input]) (emitted ++ out) :=
    fun _ _ _ _ _ _ h hstep => serves_step h hstep
  have hstart : DeliversWorld sent [] →
      ServesFrom sent (.new start) [] [] :=
    fun _ => ⟨Or.inl rfl, nofun, by simp⟩
  exact Machine.run_history hstep hstart hrun hdelivers

-- ============================================================= the whole way

theorem NoSecondPreimage.collisionFree {blake3 : Bytes → ChunkKey}
    {chunks : ChunkMap} (h : NoSecondPreimage blake3 chunks)
    (hg : Grown blake3 WriteMap.empty chunks) :
    CollisionFree blake3 chunks := by
  intro a _ b hb heq
  obtain ⟨key, hkey⟩ := hb
  rcases hg.hashed key b hkey with hempty | hhash
  · exact absurd hempty (WriteMap.written_empty key b)
  · exact h key b a hkey (heq.trans hhash.symm)

/-- What a client's transfer sends of a world that a server took apart,
whatever it gets to see of the server's stream. -/
theorem only_pieces_described {blake3 : Bytes → ChunkKey}
    {miniz : MinizOxide} {chunks : ChunkMap}
    (hunique : NoSecondPreimage blake3 chunks) {parts : List WorldPart}
    (hparts : ∀ p ∈ parts, Described miniz chunks p)
    {worldReady : WorldReadyMessage}
    (hfiles : worldReady.world.files = parts.map WorldPart.desc) :
    ∃ depth, ∀ fuel, depth ≤ fuel →
      ∀ {crc : CrcCrate} {i : Nat} {s : FetcherState}
        {schedule : List FetchAction} {goneAfter : Option Nat}
        {description : Except TransferFault (Option WorldReadyMessage)}
        {result : Except TransferFault Unit} {run : FetchRun}
        {channel : Channel},
      Reachable blake3 s →
      (description = .ok (some worldReady) ∨ description = .ok none
        ∨ description = .error .readDescription) →
      (ClientProxy.transferWorldData miniz (fetchProvider blake3 i) fuel crc
        (fetchMarkDirty blake3) description).run
        (⟨s, schedule⟩, .new goneAfter) = (result, run, channel) →
      channel.sent <+: worldPieces miniz worldReady
        (.new : WorldReconstructor crc) (partFiles parts)
      ∧ (result = .ok () → description ≠ .ok none →
        channel.sent = worldPieces miniz worldReady
          (.new : WorldReconstructor crc) (partFiles parts)) := by
  obtain ⟨depth, hsent⟩ := only_pieces_sent hunique hparts
  refine ⟨depth, ?_⟩
  intro fuel hfuel crc i s schedule goneAfter description result run channel
    hreach hdescription hrun
  rcases hdescription with hsome | hnone | herror
  · rw [hsome] at hrun
    obtain ⟨hfront, hall⟩ := hsent fuel hfuel hfiles hreach hrun
    exact ⟨hfront, fun hok _ => hall hok⟩
  · subst hnone
    cases hrun
    exact ⟨List.nil_prefix, fun _ hsome => absurd rfl hsome⟩
  · subst herror
    cases hrun
    exact ⟨List.nil_prefix, fun hok => nomatch hok⟩

/-- The world of a game server on its way to a game client. There is one
stream, within the bounds of the format the one the game expects, with an
archive in it that a reader takes for the original unless a name is not
ASCII. Whatever a client's transfer sees of the server's messages,
whatever its cache and the responses hold, however its session is
scheduled and however it ends: what the proxy tells the game is blocks of
that stream. If the transfer succeeded and its pieces were delivered,
every block the game asked for is among them. -/
theorem game_client_served_the_world {blake3 : Bytes → ChunkKey}
    {miniz : MinizOxide} {zip : ZipCrate} {crc : CrcCrate} {zstd : Zstd}
    {rmp : MessagePack} {worldRmp : WorldMessagePack}
    {transport : MessageTransport} {inflate : Bytes → Option Bytes}
    (hcrc : crc.IsIsoHdlc) (hminiz : miniz.Undoes inflate)
    (hzip : zip.Reads inflate) (hzstd : zstd.Lossless)
    {state : DownloadingWorldState} {worldData auxData : Bytes}
    (hcut : worldAndAuxData state = .ok (worldData, auxData))
    {world : FactorioWorldDescription} {chunks : ChunkMap}
    (hworld : deconstructWorld blake3 miniz zip worldData auxData
      = .ok (world, chunks))
    (hrmp : worldRmp.readWorldReady (worldRmp.writeWorldReady
        ⟨world, state.worldInfo, state.newWorldInfo⟩)
      = some ⟨world, state.worldInfo, state.newWorldInfo⟩)
    (hunique : NoSecondPreimage blake3 chunks) :
    ∃ (depth : Nat) (whole : Bytes), ∀ fuel, depth ≤ fuel →
      (RebuildFits miniz ((streamed (mapProvider chunks) fuel
          world.files ()).1.map (toInput miniz)) auxData
          state.newWorldInfo.worldSize.toNat →
        WorldStream whole state.newWorldInfo.worldSize.toNat auxData
          state.newWorldInfo.worldCrc
        ∧ ((world.files.length = 65535 → ¬ Zip.HasZip64Locator
            (whole.take state.newWorldInfo.worldSize.toNat)) →
          (SameWorld zip miniz worldData
              (whole.take state.newWorldInfo.worldSize.toNat)
            ↔ ∀ file ∈ world.files, ∀ b ∈ file.fileName, b < 128)))
      ∧ ∀ (recvStream stream : Bytes) (streamEnd : StreamEnd) (i : Nat)
          (s : FetcherState) (schedule : List FetchAction)
          (goneAfter : Option Nat) (result : Except TransferFault Unit)
          (run : FetchRun) (channel : Channel) (start : Nat)
          (inputs : List ClientInput) (proxy : ClientProxyState)
          (out : List PushedPacket),
        stream <+: (ServerProxy.transferWorldData blake3 miniz zip zstd rmp
          worldRmp transport state recvStream).1 →
        Reachable blake3 s →
        (ClientProxy.transferWorldData miniz (fetchProvider blake3 i) fuel
          crc (fetchMarkDirty blake3)
          (readWorldReady zstd worldRmp stream streamEnd)).run
          (⟨s, schedule⟩, .new goneAfter) = (result, run, channel) →
        DeliversWorld channel.sent inputs →
        Machine.run step (.new start) inputs = some (proxy, out) →
        (∀ packet, (packet, PacketDirection.toClient) ∈ out →
          ∃ k, Complete whole k ∧ packet = (answer whole k).1)
        ∧ (result = .ok () →
          readWorldReady zstd worldRmp stream streamEnd ≠ .ok none →
          receivedPieces inputs = channel.sent →
          Machine.StepsMeet step KeepsWorld (.new start) inputs →
          ∀ k ∈ requestedIds inputs, Complete whole k →
            answer whole k ∈ out) := by
  obtain ⟨hg, haux, parts, harchive, hfiles, hparts⟩ :=
    deconstructWorld_spec hworld
  have hready : (WorldReadyMessage.mk world state.worldInfo
      state.newWorldInfo).world.files = parts.map WorldPart.desc := hfiles
  obtain ⟨readDepth, hstreamed⟩ :=
    streamed_parts ((hunique.collisionFree hg).get hg) hparts
  obtain ⟨sendDepth, hsent⟩ := only_pieces_described hunique hparts hready
  refine ⟨max readDepth sendDepth, (worldPieces miniz
    ⟨world, state.worldInfo, state.newWorldInfo⟩
    (.new : WorldReconstructor crc) (partFiles parts)).flatten, ?_⟩
  intro fuel hfuel
  have hread : (streamed (mapProvider chunks) fuel world.files ()).1
      = partFiles parts := by
    rw [hfiles, hstreamed fuel (by omega) ()]
    rfl
  constructor
  · intro hfits
    rw [hread, ← haux] at hfits
    rw [← haux]
    exact @pieces_stream _ _ _ _ hcrc hminiz hzip _ _ _ harchive hparts _
      ⟨world, state.worldInfo, state.newWorldInfo⟩ hfiles hread hfits _ rfl
  · intro recvStream stream streamEnd i s schedule goneAfter result run
      channel start inputs proxy out hfront hreach hrun hdelivers hproxy
    obtain ⟨hpieces, hall⟩ := hsent fuel (by omega) hreach
      (readWorldReady_sent hzstd hrmp hcut hworld hfront streamEnd) hrun
    constructor
    · intro packet hpacket
      obtain ⟨k, hcomplete, hanswer⟩ :=
        (serves_run hdelivers hproxy).toClient packet hpacket
      obtain ⟨more, hmore⟩ := hpieces
      have hfront : channel.sent.flatten ++ more.flatten = _ :=
        (List.flatten_append).symm.trans (congrArg List.flatten hmore)
      obtain ⟨hwhole, hsame⟩ := answer_of_front hfront hcomplete
      exact ⟨k, hwhole, by rw [hanswer, hsame]⟩
    · intro hok hdescribed hdelivered hkeeps k hk hcomplete
      obtain ⟨proxy', out', hrun', hserving⟩ := Machine.run_induction
        (fun s past emitted =>
          Serving s (receivedWorld past) (requestedIds past) emitted)
        serving_step hkeeps (serving_new start)
      rw [hproxy] at hrun'
      cases hrun'
      have hwhole := flatten_receivedPieces inputs
      rw [hdelivered, hall hok hdescribed] at hwhole
      rw [← hwhole] at hserving
      exact hserving.answered k hk hcomplete

/-- The end of a download of `levelSave`. -/
def levelState : DownloadingWorldState where
  worldInfo := ⟨UInt32.ofNat levelSave.length, 0, 0, 0, 0⟩
  newWorldInfo := ⟨200, 0, 0, 0, 0⟩
  worldBlockCount := 1
  receivedBlocks := [⟨0, paddedWorld levelSave⟩]
  blockRequestQueue := OrdSet.empty
  inflightBlockRequests := OrdSet.empty
  lastBlockTime := 0

theorem worldAndAuxData_level :
    worldAndAuxData levelState = .ok (levelSave, []) := by
  have hlength : levelSave.length < 503 := by decide +kernel
  have hsize : (UInt32.ofNat levelSave.length).toNat = levelSave.length :=
    UInt32.toNat_ofNat_of_lt (hlength.trans (by decide))
  refine @worldAndAuxData_eq levelState.worldInfo levelSave [] levelState rfl
    ?_ hsize rfl (by omega) ?_ [] ?_
  · decide +kernel
  · decide +kernel
  · simp [receivedData, levelState]

theorem noSecondPreimage_short :
    NoSecondPreimage blake3Sample (shortChunks ⟨.zlib, [0, 1]⟩) := by
  intro key chunk other hwritten hhash
  rcases (WriteMap.written_insert ..).mp hwritten with ⟨rfl, rfl⟩ | hempty
  · by_contra hother
    have hsecond : ¬ (other = [0, 1]) := hother
    unfold blake3Sample at hhash
    rw [if_neg hsecond] at hhash
    split at hhash
    · exact absurd hhash (by decide)
    · exact absurd hhash (by decide)
  · exact absurd hempty (WriteMap.written_empty _ _)

/-- The level data again, from the download to the game's blocks, with
everything the server will send on the stream. -/
theorem game_client_served_level_data :
    ∃ (depth : Nat) (whole : Bytes),
      WorldStream whole 200 [] 0
      ∧ SameWorld (plainReader smallInflate) smallZlib levelSave
        (whole.take 200)
      ∧ ∀ (recvStream : Bytes) (s : FetcherState)
          (schedule : List FetchAction) (result : Except TransferFault Unit)
          (run : FetchRun) (channel : Channel) (inputs : List ClientInput)
          (proxy : ClientProxyState) (out : List PushedPacket),
        Reachable blake3Sample s →
        (ClientProxy.transferWorldData smallZlib
          (fetchProvider blake3Sample 0) depth isoHdlcCrate
          (fetchMarkDirty blake3Sample)
          (readWorldReady rawZstd standardWorldMessagePack
            (ServerProxy.transferWorldData blake3Sample smallZlib
              (plainReader smallInflate) rawZstd
              standardMessagePack.toMessagePack standardWorldMessagePack
              ⟨11⟩ levelState recvStream).1 .finished)).run
          (⟨s, schedule⟩, .new none) = (result, run, channel) →
        DeliversWorld channel.sent inputs →
        Machine.run step (.new 0) inputs = some (proxy, out) →
        ∀ packet, (packet, PacketDirection.toClient) ∈ out →
          ∃ k, Complete whole k ∧ packet = (answer whole k).1 := by
  have hne : FactorioFile.data ⟨.zlib, [0, 1]⟩ ≠ [] := by decide
  have hlen : (FactorioFile.data ⟨.zlib, [0, 1]⟩).length ≤ minChunkSize := by
    decide
  have harchive : (plainReader smallInflate).archive levelSave
      = some [some ⟨levelDat,
        some (smallZlib.compressToVecZlib [0, 1] 1)⟩] := by
    decide +kernel
  have hfile : decodeFactorioFile smallZlib levelDat
      (smallZlib.compressToVecZlib [0, 1] 1) = some ⟨.zlib, [0, 1]⟩ := rfl
  have hworld := deconstructWorld_short hne hlen harchive hfile
  have hpackable : WorldReadyMessage.Packable
      ⟨shortWorld levelDat ⟨.zlib, [0, 1]⟩, levelState.worldInfo,
        levelState.newWorldInfo⟩ := by
    constructor <;> decide
  obtain ⟨depth, whole, hserved⟩ := game_client_served_the_world
    isoHdlcCrate_isIsoHdlc smallZlib_undoes (plainReader_reads smallInflate)
    rawZstd_lossless worldAndAuxData_level hworld
    (standardWorldMessagePack_reads hpackable) noSecondPreimage_short
  obtain ⟨-, hclient⟩ := hserved depth (Nat.le_refl _)
  obtain ⟨hstream, -⟩ := hserved (depth + 1) (Nat.le_succ _)
  have hstreamed : (streamed (mapProvider (shortChunks ⟨.zlib, [0, 1]⟩))
      (depth + 1) (shortWorld levelDat ⟨.zlib, [0, 1]⟩).files ()).1
      = [(shortDesc levelDat ⟨.zlib, [0, 1]⟩, [0, 1])] := rfl
  rw [hstreamed] at hstream
  obtain ⟨hwhole, hsame⟩ := hstream (by constructor <;> decide)
  refine ⟨depth, whole, hwhole, (hsame (fun h => absurd h (by decide))).mpr
    (by decide +kernel), ?_⟩
  intro recvStream s schedule result run channel inputs proxy out hreach
    hrun hdelivers hproxy
  exact (hclient _ _ .finished 0 s schedule none result run channel 0 inputs
    proxy out List.prefix_rfl hreach hrun hdelivers hproxy).1

end FactoryCacher
