/-
The server side of the Nebula proxy (dsp-nebula-cacher/src/proxy/
server_proxy.rs): frames from the game server are copied to the client,
except for the large packets, which are replaced by an indicator.

# The copy loop

Whether a message is replaced is decided by its first frame alone. The
frames that follow are then taken by the inner loop of `dedup_packet`,
which forwards control frames and puts the payloads together. The loop
and the inner loop are one state machine here, with a frame as its input
(`ServerCopy.step`); `gathering` is the inner loop. The id an indicator
carries is drawn from a counter that all peers share, so it is part of
the input.

After an indicator, `dedup_packet` waits for the client to open a stream
and answers on it. What it answers goes along with the indicator here
(`Offer`); that the client's stream reaches it is another matter (see
Nebula/Rendezvous.lean).
-/
import FactoryCacher.Lib.Machine
import FactoryCacher.Lib.WebSocket
import FactoryCacher.Nebula.Protocol

namespace FactoryCacher

namespace Nebula

open WebSocket

/-- `MINIMUM_DEDUP_SIZE`. -/
def minimumDedupSize : Nat := 128 * 1024

/-- What the copy loop makes of the first frame of a message: the header
and the data behind it, if the packet is to be deduplicated. A packet
that does not decode is passed on like any other. -/
def dedupCandidate (payload : Bytes) : Option (NebulaPacketHeader × Bytes) :=
  match NebulaPacketHeader.decode payload with
  | .ok (some packetHeader, frameData) =>
      if packetHeader.approxSize > minimumDedupSize then
        some (packetHeader, frameData)
      else none
  | .ok (none, _) => none
  | .error _ => none

/-- What `dedup_packet` has for the client that opens its stream. -/
structure Offer where
  dedupId : UInt64
  description : DedupedPacketDescription
  allChunks : ChunkMap

/-- A frame on its way to the client proxy. -/
structure WireFrame where
  frame : Frame
  offer : Option Offer

inductive ServerCopy
  /-- the loop of `copy_with_dedup` -/
  | copying
  /-- the inner loop of `dedup_packet` -/
  | gathering (packetHeader : NebulaPacketHeader) (packetData : Bytes)
  /-- "Deduplicating packet" -/
  | failed (e : PacketError)

namespace ServerCopy

variable (blake3 : Bytes → ChunkKey) (lz4 : Bytes → Option Bytes)

/-- A frame that is passed on. -/
def pass (s : ServerCopy) (frame : Frame) : ServerCopy × List WireFrame :=
  (s, [{ frame := frame, offer := none }])

/-- `dedup_packet`, from where the packet is complete. -/
def dedupPacket (packetHeader : NebulaPacketHeader) (packetData : Bytes)
    (streamId : UInt64) : ServerCopy × List WireFrame :=
  match packetHeader.deconstruct blake3 lz4 packetData WriteMap.empty with
  | .error e => (.failed e, [])
  | .ok (packet, allChunks) =>
      (.copying,
        [{ frame := ⟨true, .binary,
             StartDedupIndicator.encode { dedupId := streamId }⟩
           offer := some
             { dedupId := streamId
               description :=
                 { packet
                   originalPacketSize := UInt64.ofNat packetData.length }
               allChunks } }])

/-- One frame from the game server, with the id that is drawn if one is;
`none` after a failure. -/
def step (s : ServerCopy) (input : Frame × UInt64) :
    Option (ServerCopy × List WireFrame) :=
  let (frame, streamId) := input
  match s with
  | .failed _ => none
  | .copying =>
      if frame.opcode.startsMessage then
        match dedupCandidate frame.payload with
        | none => some (pass .copying frame)
        | some (packetHeader, frameData) =>
            if frame.fin then
              some (dedupPacket blake3 lz4 packetHeader frameData streamId)
            else some (.gathering packetHeader frameData, [])
      else some (pass .copying frame)
  | .gathering packetHeader packetData =>
      match frame.opcode with
      | .continuation =>
          if frame.fin then
            some (dedupPacket blake3 lz4 packetHeader
              (packetData ++ frame.payload) streamId)
          else
            some (.gathering packetHeader (packetData ++ frame.payload), [])
      -- "New WS message started before old was finished"
      | .binary | .text => some (pass .copying frame)
      | _ => some (pass s frame)

end ServerCopy

end Nebula

end FactoryCacher
