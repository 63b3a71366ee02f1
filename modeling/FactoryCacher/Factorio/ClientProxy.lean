/-
The client proxy's handling of one peer
(factorio-cacher/src/proxy/client_proxy.rs, `ClientProxyState`).

The proxy answers the game client's block requests from the
reconstructed world, which arrives piece by piece. A request for a block
that is not complete yet is kept and answered when a piece completes it;
every other packet goes on to the server. Some time after the last piece
the local copy of the world is dropped.

`step` is a machine of `Lib/Machine.lean` over the two things that
happen to the state; it never panics. Clock readings are part of the
input, in nanoseconds. A block's offset is computed on `usize`, where a
`u32` id times the block size does not overflow.
-/
import FactoryCacher.Lib.Containers
import FactoryCacher.Lib.Machine
import FactoryCacher.Factorio.Protocol

namespace FactoryCacher

/-- `WORLD_DATA_TIMEOUT`. -/
def worldDataTimeout : Nat := 60000000000

structure ClientProxyState where
  worldData : Bytes
  lastBlockRequest : Nat
  pendingRequests : OrdSet UInt32
  pendingRequestsSwap : OrdSet UInt32
  worldDataDone : Bool

/-- What happens to the state: a packet from the client, with the clock
readings of `last_block_request.elapsed()` and of `Instant::now()`, or
world data (`none`: there will be no more). -/
inductive ClientInput
  | packet (packetData : Bytes) (elapsedAt now : Nat)
  | worldData (newData : Option Bytes) (now : Nat)

/-- A packet pushed, with its direction. -/
abbrev PushedPacket := Bytes × PacketDirection

/-- The block request a packet decodes to. -/
def decodeBlockRequest (packetData : Bytes) :
    Option TransferBlockRequestPacket :=
  match FactorioPacketHeader.decode packetData with
  | .error _ => none
  | .ok (header, msgData) =>
      if header.packetType = .transferBlockRequest then
        (TransferBlockRequestPacket.decode msgData).toOption
      else none

namespace ClientProxyState

def new (now : Nat) : ClientProxyState where
  worldData := []
  lastBlockRequest := now
  pendingRequests := OrdSet.empty
  pendingRequestsSwap := OrdSet.empty
  worldDataDone := false

/-- `try_fulfill_block_request`. -/
def tryFulfillBlockRequest (s : ClientProxyState)
    (requestedBlockId : UInt32) : Option TransferBlockPacket :=
  let offset := requestedBlockId.toNat * transferBlockSize.toNat
  if offset + transferBlockSize.toNat ≤ s.worldData.length then
    some { blockId := requestedBlockId
           data := (s.worldData.drop offset).take transferBlockSize.toNat }
  else none

/-- The response packet, pushed to the client. -/
def respond (response : TransferBlockPacket) : PushedPacket :=
  (encodeFullPacket response, .toClient)

/-- Whether the local copy of the world is dropped at `elapsedAt`. -/
def timedOut (s : ClientProxyState) (elapsedAt : Nat) : Bool :=
  !s.worldData.isEmpty && s.worldDataDone
    && elapsedAt - s.lastBlockRequest > worldDataTimeout

/-- `on_packet_from_client`. -/
def onPacketFromClient (s : ClientProxyState) (packetData : Bytes)
    (elapsedAt now : Nat) : ClientProxyState × List PushedPacket :=
  match decodeBlockRequest packetData with
  | some request =>
      match s.tryFulfillBlockRequest request.blockId with
      | some response =>
          ({ s with lastBlockRequest := now }, [respond response])
      | none =>
          ({ s with pendingRequests := s.pendingRequests.insert request.blockId
                    lastBlockRequest := now }, [])
  | none =>
      (if s.timedOut elapsedAt then { s with worldData := [] } else s,
        [(packetData, .toServer)])

/-- The loop of `on_new_world_data` over the pending requests: what goes
to the swap set, and the responses. -/
def fulfillPending (s : ClientProxyState) :
    List UInt32 → OrdSet UInt32 → OrdSet UInt32 × List PushedPacket
  | [], swap => (swap, [])
  | requestedBlockId :: rest, swap =>
      match s.tryFulfillBlockRequest requestedBlockId with
      | some response =>
          ((fulfillPending s rest swap).1,
            respond response :: (fulfillPending s rest swap).2)
      | none => fulfillPending s rest (swap.insert requestedBlockId)

/-- `extend_from_slice` on the world data. -/
def extend (s : ClientProxyState) (newData : Bytes) : ClientProxyState :=
  { s with worldData := s.worldData ++ newData }

/-- `on_new_world_data`; the pending set is cleared and then swapped
with the swap set. -/
def onNewWorldData (s : ClientProxyState) (newData : Option Bytes)
    (now : Nat) : ClientProxyState × List PushedPacket :=
  match newData with
  | none => ({ s with worldDataDone := true, lastBlockRequest := now }, [])
  | some newData =>
      match (s.extend newData).fulfillPending s.pendingRequests.toList
          s.pendingRequestsSwap with
      | (swap, responses) =>
          ({ s.extend newData with pendingRequests := swap
                                   pendingRequestsSwap := OrdSet.empty
                                   lastBlockRequest := now }, responses)

/-- One thing that happens to the state. -/
def step (s : ClientProxyState) :
    ClientInput → Option (ClientProxyState × List PushedPacket)
  | .packet packetData elapsedAt now =>
      some (s.onPacketFromClient packetData elapsedAt now)
  | .worldData newData now => some (s.onNewWorldData newData now)

end ClientProxyState

end FactoryCacher
