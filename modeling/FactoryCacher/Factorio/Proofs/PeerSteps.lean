/-
What a step of the peers can do.

The loops and the tasks are functions with several exits; here each is
said once as a list of what can come of it, and the proofs about peers
start from these and not from the definitions. Datagrams come first:
what one side writes the other reads.
-/
import FactoryCacher.Lib.Histories
import FactoryCacher.Factorio.Peers

namespace FactoryCacher

variable {Ip : Type}

-- =============================================================== datagrams

/-- A datagram is read as it was written, whatever the id. -/
theorem Datagram.decode_encode (d : Datagram) :
    Datagram.decode d.encode = some d := by
  rw [Datagram.encode, Datagram.decode, VarInt.decode_encode]

/-- The id a task writes to its stream is its own. -/
theorem peerIdOf_ofNat {id : VarInt} (h : id.value < 2 ^ 32) :
    peerIdOf (UInt32.ofNat id.value) = id := by
  cases id
  simp only [peerIdOf, UInt32.toNat_ofNat_of_lt' h]

-- ================================================================= the loops

theorem peers_of_queueOf {loop : ClientLoop Ip} {addr : SocketAddr Ip}
    {i : Nat} {peer : ClientPeer Ip}
    (h : loop.queueOf addr = some (i, peer)) :
    loop.peers[i]? = some peer := by
  rw [ClientLoop.queueOf] at h
  split at h
  case h_1 => cases h
  case h_2 j hj =>
    split at h
    case h_1 => cases h
    case h_2 other hother =>
      split at h
      case isTrue =>
        cases h
        exact hother
      case isFalse => cases h

/-- A packet at the client's socket is seen, and who took it. -/
theorem onPacket_events [DecidableEq Ip] (loop : ClientLoop Ip)
    (addr : SocketAddr Ip) (packet : Bytes) :
    ∃ takenBy, (loop.onPacket addr packet).2
      = [.fromGameClient addr packet takenBy] := by
  rw [ClientLoop.onPacket]
  cases loop.queueOf addr with
  | some found => exact ⟨_, rfl⟩
  | none =>
      dsimp only
      split <;> exact ⟨_, rfl⟩

/-- A datagram goes to the peer with its id, or nowhere. -/
theorem ClientLoop.onDatagram_cases (loop : ClientLoop Ip)
    (datagram : Datagram) :
    loop.onDatagram datagram.encode = loop
    ∨ ∃ (i : Nat) (peer : ClientPeer Ip),
      loop.idToQueue datagram.peerId = some i
      ∧ loop.peers[i]? = some peer
      ∧ loop.onDatagram datagram.encode = loop.setPeer i { peer with
          serverReceiveQueue :=
            peer.serverReceiveQueue.trySend datagram.data } := by
  simp only [ClientLoop.onDatagram, Datagram.decode_encode]
  cases loop.idToQueue datagram.peerId with
  | none => exact Or.inl rfl
  | some i =>
      dsimp only
      cases hpeer : loop.peers[i]? with
      | none => exact Or.inl rfl
      | some peer => exact Or.inr ⟨i, peer, rfl, hpeer, rfl⟩

/-- A datagram goes to the peer with its id, or nowhere. -/
theorem ServerLoop.onDatagram_cases (loop : ServerLoop Ip)
    (datagram : Datagram) :
    loop.onDatagram datagram.encode = loop
    ∨ ∃ (i : Nat) (peer : ServerPeer Ip),
      loop.outgoingQueues datagram.peerId = some i
      ∧ loop.peers[i]? = some peer
      ∧ loop.onDatagram datagram.encode = loop.setPeer i { peer with
          receiveQueue := peer.receiveQueue.trySend datagram.data } := by
  simp only [ServerLoop.onDatagram, Datagram.decode_encode]
  cases loop.outgoingQueues datagram.peerId with
  | none => exact Or.inl rfl
  | some i =>
      dsimp only
      cases hpeer : loop.peers[i]? with
      | none => exact Or.inl rfl
      | some peer => exact Or.inr ⟨i, peer, rfl, hpeer, rfl⟩

-- ================================================================= the tasks

namespace PeerNet

/-- The peer after a turn: it may have failed to send. -/
def afterTurn (sends : Nat) (selected : ClientPeer Ip × List PushedPacket) :
    ClientPeer Ip :=
  if sends < selected.2.length then selected.1.finish else selected.1

/-- The same on the server's side. -/
def afterServerTurn (sends : Nat)
    (selected : ServerPeer Ip × List ServerEvent) : ServerPeer Ip :=
  if sends < (ServerPeer.outPackets selected.2).length
  then selected.1.finish else selected.1

/-- A turn of a task of the client side, or nothing. -/
theorem clientTurn_cases (s : PeerNet Ip) (i : Nat) (turn : ClientTurn)
    (sends : Nat) :
    s.clientTurn i turn sends = (s, [])
    ∨ ∃ (peer : ClientPeer Ip) (proxyState : ClientProxyState)
      (worldDataDone : Bool), s.client.peers[i]? = some peer
      ∧ peer.task = .running proxyState worldDataDone
      ∧ s.clientTurn i turn sends
        = ({ s with
              client := s.client.setPeer i (afterTurn sends
                (peer.select proxyState worldDataDone turn))
              toServer := s.toServer
                ++ ((peer.select proxyState worldDataDone turn).2.take
                  sends).filterMap peer.sendDatagram },
            ((peer.select proxyState worldDataDone turn).2.take sends).map
              (peer.sendEvent (ClientPeer.origin turn))) := by
  rw [clientTurn]
  cases hpeer : s.client.peers[i]? with
  | none => exact Or.inl rfl
  | some peer =>
      dsimp only
      cases htask : peer.task with
      | opening => exact Or.inl rfl
      | returned => exact Or.inl rfl
      | running proxyState worldDataDone =>
          exact Or.inr ⟨peer, proxyState, worldDataDone, rfl, htask, rfl⟩

/-- A turn of a task of the server side, or nothing. -/
theorem serverTurn_cases [DecidableEq Ip] (s : PeerNet Ip) (i : Nat)
    (turn : ServerTurn Ip) (sends : Nat) :
    s.serverTurn i turn sends = (s, [])
    ∨ ∃ (peer : ServerPeer Ip) (proxyState : ServerProxyState),
      s.server.peers[i]? = some peer
      ∧ peer.task = .running proxyState
      ∧ s.serverTurn i turn sends
        = ({ s with
              server := s.server.setPeer i (afterServerTurn sends
                (peer.select proxyState turn))
              toClient := s.toClient
                ++ ((ServerPeer.outPackets
                  (peer.select proxyState turn).2).take sends).filterMap
                    peer.sendDatagram },
            peer.socketEvents turn
              ++ peer.transfers (peer.select proxyState turn).2
              ++ ((ServerPeer.outPackets
                (peer.select proxyState turn).2).take sends).map
                  (peer.sendEvent (ServerPeer.origin turn))) := by
  rw [serverTurn]
  cases hpeer : s.server.peers[i]? with
  | none => exact Or.inl rfl
  | some peer =>
      dsimp only
      cases htask : peer.task with
      | returned => exact Or.inl rfl
      | running proxyState =>
          exact Or.inr ⟨peer, proxyState, rfl, htask, rfl⟩

/-- A task of the client side opens its stream or ends, or nothing. -/
theorem openStream_cases (s : PeerNet Ip) (i : Nat) (opened : Bool)
    (now : Nat) :
    s.openStream i opened now = s
    ∨ ∃ peer : ClientPeer Ip, s.client.peers[i]? = some peer
      ∧ peer.task = .opening
      ∧ (s.openStream i opened now = { s with
            client := s.client.setPeer i
              { peer with task := .running (.new now) false }
            streams := s.streams ++ [UInt32.ofNat peer.peerId.value] }
        ∨ s.openStream i opened now
          = { s with client := s.client.setPeer i peer.finish }) := by
  rw [openStream]
  cases hpeer : s.client.peers[i]? with
  | none => exact Or.inl rfl
  | some peer =>
      dsimp only
      cases htask : peer.task with
      | returned => exact Or.inl rfl
      | running proxyState worldDataDone => exact Or.inl rfl
      | opening =>
          refine Or.inr ⟨peer, rfl, htask, ?_⟩
          cases opened with
          | true => exact Or.inl rfl
          | false => exact Or.inr rfl

/-- What happens on the client's side leaves the server's as it is. -/
theorem server_clientStep [DecidableEq Ip] (s : PeerNet Ip)
    (action : NetAction Ip) :
    (s.clientStep action).1.server = s.server := by
  cases action with
  | clientDatagram n =>
      rw [clientStep]
      cases s.toClient[n]? <;> rfl
  | openStream i opened now =>
      rw [clientStep]
      rcases s.openStream_cases i opened now with
        heq | ⟨peer, -, -, heq | heq⟩
      all_goals rw [heq]
  | clientTurn i turn sends =>
      rw [clientStep]
      rcases s.clientTurn_cases i turn sends with
        heq | ⟨peer, proxyState, worldDataDone, -, -, heq⟩
      all_goals rw [heq]
  | _ => rfl

/-- And the server's loop the client's. -/
theorem client_serverLoopStep (s : PeerNet Ip) (action : NetAction Ip) :
    (s.serverLoopStep action).client = s.client := by
  cases action with
  | serverDatagram n =>
      rw [serverLoopStep]
      cases s.toServer[n]? <;> rfl
  | acceptStream n bound =>
      rw [serverLoopStep]
      cases s.streams[n]? <;> rfl
  | _ => rfl

/-- And a task of the server side. -/
theorem client_serverTurn [DecidableEq Ip] (s : PeerNet Ip) (i : Nat)
    (turn : ServerTurn Ip) (sends : Nat) :
    (s.serverTurn i turn sends).1.client = s.client := by
  rcases s.serverTurn_cases i turn sends with
    heq | ⟨peer, proxyState, -, -, heq⟩
  all_goals rw [heq]

end PeerNet

/-- What a turn does to its peer. -/
theorem peerId_select [DecidableEq Ip] (peer : ServerPeer Ip)
    (proxyState : ServerProxyState) (turn : ServerTurn Ip) :
    (peer.select proxyState turn).1.peerId = peer.peerId := by
  cases turn with
  | socket remoteAddr delivery =>
      rw [ServerPeer.select]
      split
      case isTrue => rfl
      case isFalse =>
        cases proxyState.onPacketFromServer delivery <;> rfl
  | socketError | idle => rfl
  | queue =>
      rw [ServerPeer.select]
      cases peer.receiveQueue.recv <;> rfl

theorem peerId_afterServerTurn [DecidableEq Ip] (peer : ServerPeer Ip)
    (proxyState : ServerProxyState) (turn : ServerTurn Ip) (sends : Nat) :
    (PeerNet.afterServerTurn sends
      (peer.select proxyState turn)).peerId = peer.peerId := by
  unfold PeerNet.afterServerTurn
  split <;> exact peerId_select peer proxyState turn

-- =============================================================== projections

section Projections

variable {α : Type} {f : NetEvent Ip → Option α}

/-- What is sent says nothing to a projection that sees no send. -/
theorem filterMap_sends {send : PushedPacket → NetEvent Ip}
    (h : ∀ packet dir, f (send (packet, dir)) = none)
    (out : List PushedPacket) : (out.map send).filterMap f = [] := by
  rw [List.filterMap_map, List.filterMap_eq_nil_iff]
  exact fun sent _ => h sent.1 sent.2

/-- Nor what is at the socket. -/
theorem filterMap_socketEvents
    (h : ∀ id addr delivery, f (.fromGameServer id addr delivery) = none)
    (peer : ServerPeer Ip) (turn : ServerTurn Ip) :
    (peer.socketEvents turn).filterMap f = [] := by
  cases turn with
  | socket remoteAddr delivery =>
      rw [ServerPeer.socketEvents, List.filterMap_cons, h]
      rfl
  | socketError | queue | idle => rfl

/-- Nor a download handed over. -/
theorem filterMap_transfers
    (h : ∀ id state, f (.transfer id state) = none)
    (peer : ServerPeer Ip) (events : List ServerEvent) :
    (peer.transfers events).filterMap f = [] := by
  rw [ServerPeer.transfers, List.filterMap_filterMap,
    List.filterMap_eq_nil_iff]
  intro event _
  cases event with
  | push packet dir => rfl
  | transfer state => exact h peer.peerId state

/-- All that is left of a turn then are the sends. -/
theorem filterMap_serverTurn
    (hsocket : ∀ id addr delivery,
      f (.fromGameServer id addr delivery) = none)
    (htransfer : ∀ id state, f (.transfer id state) = none)
    (peer : ServerPeer Ip) (turn : ServerTurn Ip)
    (events : List ServerEvent) (trace sends : List (NetEvent Ip)) :
    (trace ++ (peer.socketEvents turn ++ peer.transfers events
        ++ sends)).filterMap f
      = trace.filterMap f ++ sends.filterMap f := by
  rw [List.filterMap_append, List.filterMap_append, List.filterMap_append,
    filterMap_socketEvents hsocket, filterMap_transfers htransfer]
  rfl

end Projections

end FactoryCacher
