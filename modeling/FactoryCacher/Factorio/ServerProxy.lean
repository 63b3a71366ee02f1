/-
The server proxy's handling of one peer
(factorio-cacher/src/proxy/server_proxy.rs, `ServerProxyState`).

The proxy forwards the game server's packets to the client. When the
server announces a world it starts downloading the world itself: the
announcement goes on with the world size replaced by an estimate, the
blocks are requested from the server sixteen at a time, and the blocks
that arrive are kept. Once every block is there the download is handed
to a task of its own (`transfer_world_data`) and the phase is `done`.

# The machine

`onPacketFromServer` is a step of `Lib/Machine.lean`: the events it
emits are the packets pushed, with their direction, and the download
handed over. `none` is a panic: the `unreachable!()` and the `unwrap()`
of `finalize_world`.

# Time

The clock is read several times while one packet is handled. Each
reading is part of the input (`Instants`, in nanoseconds since some
start), so the branches that depend on it are taken whenever the
readings say so. `Instant::elapsed` saturates at zero, as subtraction on
`Nat` does.

# Parameters

`worldEstimate` is the floating point product
`(world_size as f64 * world_estimate_multiplier) as u32`. Log messages
are left out, and with them the time the download started.
-/
import FactoryCacher.Lib.Containers
import FactoryCacher.Lib.Machine
import FactoryCacher.Lib.Search
import FactoryCacher.Factorio.Protocol
import FactoryCacher.Factorio.World

namespace FactoryCacher

-- ================================================================== states

structure DownloadingWorldState where
  worldInfo : FactorioWorldMetadata
  newWorldInfo : FactorioWorldMetadata
  worldBlockCount : UInt32
  receivedBlocks : List TransferBlockPacket
  blockRequestQueue : OrdSet UInt32
  inflightBlockRequests : OrdSet UInt32
  lastBlockTime : Nat

/-- The finder's needle and its replacement, which have one length: the
replacement is copied over the needle in place. -/
structure FilteringPacketsState where
  needle : Bytes
  replaceWith : Bytes
  lastReplace : Nat
  sameLength : replaceWith.length = needle.length

inductive ServerProxyPhase
  | waitingForWorld
  | downloadingWorld (state : DownloadingWorldState)
  | done

/-- `compStream` says whether the stream to the other cacher is still
held. -/
structure ServerProxyState where
  phase : ServerProxyPhase
  packetFilter : Option FilteringPacketsState
  compStream : Bool
  worldEstimate : UInt32 → UInt32

def ServerProxyState.new (worldEstimate : UInt32 → UInt32) :
    ServerProxyState where
  phase := .waitingForWorld
  packetFilter := none
  compStream := true
  worldEstimate := worldEstimate

/-- What a step emits: a packet pushed, or a download handed to
`transfer_world_data`. -/
inductive ServerEvent
  | push (packet : Bytes) (dir : PacketDirection)
  | transfer (state : DownloadingWorldState)

/-- The clock readings of one call. -/
structure Instants where
  /-- `last_block_time.elapsed()` -/
  checkBlock : Nat
  /-- `Instant::now()` for `last_block_time` -/
  setBlock : Nat
  /-- `Instant::now()` for `last_replace` -/
  setReplace : Nat
  /-- `last_replace.elapsed()`, or the creation of the filter -/
  checkReplace : Nat

/-- One packet from the game server, and when it is handled. -/
structure Delivery where
  packet : Bytes
  instants : Instants

-- =============================================================== filtering

/-- The packet `filter_packet` returns. -/
def FilteringPacketsState.rewrite (state : FilteringPacketsState)
    (packet : Bytes) : Bytes :=
  replaceAll state.needle state.replaceWith packet

/-- `filter_packet`. -/
def filterPacket (state : FilteringPacketsState) (packet : Bytes)
    (now : Nat) : FilteringPacketsState × Bytes :=
  if (findIter state.needle 0 0 packet).isEmpty then (state, packet)
  else ({ state with lastReplace := now }, state.rewrite packet)

-- ================================================================ requests

/-- `INFLIGHT_BLOCK_REQUEST_LIMIT`. -/
def inflightBlockRequestLimit : Nat := 16

/-- The request packet for a block, pushed to the server. -/
def requestEvent (blockId : UInt32) : ServerEvent :=
  .push (encodeFullPacket (TransferBlockRequestPacket.mk blockId)) .toServer

/-- The loop of `request_next_blocks`. Every turn pops the queue, so its
length bounds the turns. -/
def requestLoop : Nat → OrdSet UInt32 → OrdSet UInt32 →
    OrdSet UInt32 × OrdSet UInt32 × List ServerEvent
  | 0, queue, inflight => (queue, inflight, [])
  | turns + 1, queue, inflight =>
      if inflight.len < inflightBlockRequestLimit then
        match queue.popFirst with
        | none => (queue, inflight, [])
        | some (blockId, queue) =>
            match requestLoop turns queue (inflight.insert blockId) with
            | (queue, inflight, events) =>
                (queue, inflight, requestEvent blockId :: events)
      else (queue, inflight, [])

/-- `request_next_blocks`. -/
def requestNextBlocks (state : DownloadingWorldState) :
    DownloadingWorldState × List ServerEvent :=
  match requestLoop state.blockRequestQueue.len state.blockRequestQueue
      state.inflightBlockRequests with
  | (queue, inflight, events) =>
      ({ state with blockRequestQueue := queue
                    inflightBlockRequests := inflight }, events)

-- ============================================================= transitions

namespace ServerProxyState

/-- `total_block_count`. -/
def totalBlockCount (worldInfo : FactorioWorldMetadata) : UInt32 :=
  blockCount worldInfo.worldSize + blockCount worldInfo.auxSize

/-- The block ids `0..total_block_count`. -/
def blockIds (totalBlockCount : UInt32) : OrdSet UInt32 :=
  OrdSet.ofList ((List.range totalBlockCount.toNat).map UInt32.ofNat)

/-- The download `transition_to_downloading_world` starts. -/
def startDownload (worldInfo newWorldInfo : FactorioWorldMetadata)
    (now : Nat) : DownloadingWorldState where
  worldInfo := worldInfo
  newWorldInfo := newWorldInfo
  worldBlockCount := blockCount worldInfo.worldSize
  receivedBlocks := []
  blockRequestQueue := blockIds (totalBlockCount worldInfo)
  inflightBlockRequests := OrdSet.empty
  lastBlockTime := now

/-- The filter `transition_to_downloading_world` installs. -/
def startFilter (worldInfo newWorldInfo : FactorioWorldMetadata)
    (now : Nat) : FilteringPacketsState where
  needle := worldInfo.encode
  replaceWith := newWorldInfo.encode
  lastReplace := now
  sameLength := by simp

/-- `world_info` with the estimate in place of the world size. -/
def newWorldInfo (s : ServerProxyState) (worldInfo : FactorioWorldMetadata) :
    FactorioWorldMetadata :=
  { worldInfo with worldSize := s.worldEstimate worldInfo.worldSize }

/-- `transition_to_downloading_world`. -/
def transitionToDownloadingWorld (s : ServerProxyState)
    (inPacketData : Bytes) (worldInfo : FactorioWorldMetadata)
    (t : Instants) : ServerProxyState × List ServerEvent :=
  match filterPacket (startFilter worldInfo (s.newWorldInfo worldInfo)
      t.checkReplace) inPacketData t.setReplace,
    requestNextBlocks (startDownload worldInfo (s.newWorldInfo worldInfo)
      t.setBlock) with
  | (filteringState, outPacketData), (state, requests) =>
      ({ s with phase := .downloadingWorld state
                packetFilter := some filteringState },
        .push outPacketData .toClient :: requests)

/-- `finalize_world`. -/
def finalizeWorld (s : ServerProxyState) :
    Option (ServerProxyState × List ServerEvent) :=
  match s.phase with
  | .downloadingWorld state =>
      if s.compStream then
        some ({ s with phase := .done, compStream := false },
          [.transfer state])
      else none
  | _ => none

/-- The end of `on_packet_from_server`: the packet goes on to the
client, rewritten while the filter is on. -/
def forwardPacket (s : ServerProxyState) (inPacketData : Bytes)
    (t : Instants) : ServerProxyState × List ServerEvent :=
  match s.packetFilter with
  | none => (s, [.push inPacketData .toClient])
  | some filteringState =>
      match filterPacket filteringState inPacketData t.setReplace with
      | (filteringState, outPacketData) =>
          ({ s with packetFilter :=
              if t.checkReplace - filteringState.lastReplace > 30000000000
              then none else some filteringState },
            [.push outPacketData .toClient])

/-- The world announced by a packet: a heartbeat, not fragmented or the
first fragment, that is map-ready. -/
def announcedWorld (inPacketData : Bytes) : Option FactorioWorldMetadata :=
  match FactorioPacketHeader.decode inPacketData with
  | .error _ => none
  | .ok (header, msgData) =>
      if header.packetType = .serverToClientHeartbeat
          ∧ (header.fragmentation.all fun frag =>
            frag.fragmentId == some 0) then
        match ServerToClientHeartbeatPacket.decode msgData with
        | .error _ => none
        | .ok heartbeat =>
            match heartbeat.tryDecodeMapReady with
            | .ok (some worldInfo) => some worldInfo
            | _ => none
      else none

/-- Keep a block that is still missing; the queue is only looked at when
the block is not in flight. -/
def acceptBlock (state : DownloadingWorldState)
    (block : TransferBlockPacket) (now : Nat) : DownloadingWorldState :=
  match state.inflightBlockRequests.remove block.blockId with
  | (true, inflight) =>
      { state with inflightBlockRequests := inflight
                   receivedBlocks := state.receivedBlocks ++ [block]
                   lastBlockTime := now }
  | (false, inflight) =>
      match state.blockRequestQueue.remove block.blockId with
      | (true, queue) =>
          { state with inflightBlockRequests := inflight
                       blockRequestQueue := queue
                       receivedBlocks := state.receivedBlocks ++ [block]
                       lastBlockTime := now }
      | (false, queue) =>
          { state with inflightBlockRequests := inflight
                       blockRequestQueue := queue }

/-- After a block: the download ends or goes on. -/
def continueDownload (s : ServerProxyState)
    (state : DownloadingWorldState) :
    Option (ServerProxyState × List ServerEvent) :=
  if state.blockRequestQueue.isEmpty ∧ state.inflightBlockRequests.isEmpty
  then finalizeWorld { s with phase := .downloadingWorld state }
  else some ({ s with phase := .downloadingWorld (requestNextBlocks state).1 },
    (requestNextBlocks state).2)

/-- The re-request branch: after 100 ms without a block everything in
flight is requested again. -/
def reRequest (state : DownloadingWorldState) (t : Instants) :
    DownloadingWorldState × List ServerEvent :=
  if t.checkBlock - state.lastBlockTime > 100000000 then
    ({ (requestNextBlocks state).1 with lastBlockTime := t.setBlock },
      state.inflightBlockRequests.toList.map requestEvent
        ++ (requestNextBlocks state).2)
  else (state, [])

/-- Any other packet while downloading. -/
def forwardDownloading (s : ServerProxyState)
    (state : DownloadingWorldState) (d : Delivery) :
    Option (ServerProxyState × List ServerEvent) :=
  match forwardPacket
      { s with phase := .downloadingWorld (reRequest state d.instants).1 }
      d.packet d.instants with
  | (s, forwarded) => some (s, (reRequest state d.instants).2 ++ forwarded)

/-- `on_packet_from_server`. -/
def onPacketFromServer (s : ServerProxyState) (d : Delivery) :
    Option (ServerProxyState × List ServerEvent) :=
  match s.phase with
  | .waitingForWorld =>
      match announcedWorld d.packet with
      | some worldInfo =>
          some (s.transitionToDownloadingWorld d.packet worldInfo d.instants)
      | none => some (s.forwardPacket d.packet d.instants)
  | .downloadingWorld state =>
      match FactorioPacketHeader.decode d.packet with
      | .ok (header, msgData) =>
          if header.packetType = .transferBlock then
            match TransferBlockPacket.decode msgData with
            | .error _ => some (s, [])
            | .ok block =>
                s.continueDownload
                  (acceptBlock state block d.instants.setBlock)
          else s.forwardDownloading state d
      | .error _ => s.forwardDownloading state d
  | .done => some (s.forwardPacket d.packet d.instants)

end ServerProxyState

-- ================================================== transferring the world

inductive TransferError
  /-- "Received data length is smaller than expected length, received
  length: {}" -/
  | tooShort (receivedLength : Nat)
  /-- panic of `Bytes::slice` -/
  | slice
  /-- "Deconstruction failed" -/
  | deconstruct (e : DeconstructError)
  deriving DecidableEq, Repr

/-- `Bytes::slice(start..end)`. -/
def sliceBytes (data : Bytes) (start stop : Nat) :
    Except TransferError Bytes :=
  if start ≤ stop ∧ stop ≤ data.length then
    .ok ((data.take stop).drop start)
  else .error .slice

/-- The blocks of `received_blocks`, sorted by id and concatenated. -/
def receivedData (state : DownloadingWorldState) : Bytes :=
  (state.receivedBlocks.mergeSort fun a b => a.blockId ≤ b.blockId).flatMap
    TransferBlockPacket.data

/-- `aux_data_offset`. -/
def auxDataOffset (state : DownloadingWorldState) : UInt32 :=
  state.worldBlockCount * transferBlockSize

/-- The first half of `transfer_world_data`: the world and auxiliary
data cut out of what was received. -/
def worldAndAuxData (state : DownloadingWorldState) :
    Except TransferError (Bytes × Bytes) :=
  if (receivedData state).length
      < (auxDataOffset state).toNat + state.worldInfo.auxSize.toNat then
    .error (.tooShort (receivedData state).length)
  else
    match sliceBytes (receivedData state) 0 state.worldInfo.worldSize.toNat,
        sliceBytes (receivedData state) (auxDataOffset state).toNat
          (auxDataOffset state + state.worldInfo.auxSize).toNat with
    | .ok worldData, .ok auxData => .ok (worldData, auxData)
    | _, _ => .error .slice

/-- `transfer_world_data` up to the world description it sends: what
`deconstruct_world` makes of the data received. -/
def transferWorldData (blake3 : Bytes → ChunkKey) (miniz : MinizOxide)
    (zip : ZipCrate) (state : DownloadingWorldState) :
    Except TransferError (FactorioWorldDescription × ChunkMap) :=
  match worldAndAuxData state with
  | .error e => .error e
  | .ok (worldData, auxData) =>
      (deconstructWorld blake3 miniz zip worldData auxData).mapError
        .deconstruct

end FactoryCacher
