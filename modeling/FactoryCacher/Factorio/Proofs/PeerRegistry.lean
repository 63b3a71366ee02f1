/-
Who is who: peer ids, addresses and tasks on the two sides.

# The client's loop

Ids are given out in order, so the id of a peer is its number, and the
map from ids is the list of peers read backwards. The map from addresses
is not: a task that has returned leaves its entry behind until a packet
comes from the address again. What holds of it is that a task that has
not returned is the one its address leads to, so an address never has
two (`ClientInv.live`).

# The server's loop

It takes the ids from the streams, and a second stream with an id would
replace the queue of the first. That never happens: a task of the client
side opens one stream, once. The ids on streams and the ids of the
server's peers are together without repetition, and each belongs to a
task of the client side that has opened its stream (`NetInv.once`,
`NetInv.opened`).

# When a loop returns

What is in flight was encoded by a task, so it decodes, and neither loop
returns for a datagram. What is left are exhausted ids, a socket that
cannot be bound, and reads that fail (`ReturnsFor`).

A task changes nothing about itself that the registries look at but
whether it takes packets (`Continues`); the invariants are proved from
that and never look at a turn.
-/
import FactoryCacher.Factorio.Proofs.PeerSteps

namespace FactoryCacher

variable {Ip : Type}

-- ========================================================= the client's side

/-- What a task leaves as it is. -/
structure Continues (peer next : ClientPeer Ip) : Prop where
  peerId : next.peerId = peer.peerId
  peerAddr : next.peerAddr = peer.peerAddr
  takes : next.clientReceiveQueue.receiving = true →
    peer.clientReceiveQueue.receiving = true
  opened : next.task = .opening → peer.task = .opening
  taking : (peer.task ≠ .returned →
      peer.clientReceiveQueue.receiving = true) →
    next.task ≠ .returned → next.clientReceiveQueue.receiving = true

theorem Continues.refl (peer : ClientPeer Ip) : Continues peer peer :=
  ⟨rfl, rfl, id, id, id⟩

theorem Continues.trans {peer mid next : ClientPeer Ip}
    (h : Continues peer mid) (h' : Continues mid next) :
    Continues peer next :=
  ⟨h'.peerId.trans h.peerId, h'.peerAddr.trans h.peerAddr,
    fun ht => h.takes (h'.takes ht), fun ht => h.opened (h'.opened ht),
    fun ht => h'.taking (h.taking ht)⟩

theorem continues_finish (peer : ClientPeer Ip) :
    Continues peer peer.finish :=
  ⟨rfl, rfl, nofun, nofun, fun _ hreturned => absurd rfl hreturned⟩

theorem continues_select {peer : ClientPeer Ip}
    {proxyState : ClientProxyState} {worldDataDone : Bool}
    (htask : peer.task = .running proxyState worldDataDone)
    (turn : ClientTurn) :
    Continues peer (peer.select proxyState worldDataDone turn).1 := by
  have hruns : peer.task ≠ .returned := by
    rw [htask]
    exact nofun
  cases turn with
  | clientQueue elapsedAt now =>
      rw [ClientPeer.select]
      cases hrecv : peer.clientReceiveQueue.recv with
      | waits => exact .refl peer
      | ended => exact continues_finish peer
      | item packet rest =>
          have hsame := BoundedQueue.receiving_of_recv hrecv
          exact ⟨rfl, rfl, fun ht => hsame ▸ ht, nofun,
            fun ht _ => hsame.trans (ht hruns)⟩
  | serverQueue =>
      rw [ClientPeer.select]
      cases peer.serverReceiveQueue.recv with
      | waits => exact .refl peer
      | ended => exact continues_finish peer
      | item packet rest => exact ⟨rfl, rfl, id, id, id⟩
  | worldData newData now =>
      rw [ClientPeer.select]
      split
      case isTrue => exact .refl peer
      case isFalse => exact ⟨rfl, rfl, id, nofun, fun ht _ => ht hruns⟩
  | idle => exact continues_finish peer

/-- A queue may take a packet. -/
theorem continues_trySend (peer : ClientPeer Ip) (packet : Bytes) :
    Continues peer { peer with
      clientReceiveQueue := peer.clientReceiveQueue.trySend packet } := by
  refine ⟨rfl, rfl, ?_, id, ?_⟩
  · intro ht
    rwa [BoundedQueue.receiving_trySend] at ht
  · intro ht hruns
    rw [BoundedQueue.receiving_trySend]
    exact ht hruns

/-- Every peer is still there and has gone on. -/
def ClientKept (loop loop' : ClientLoop Ip) : Prop :=
  ∀ (i : Nat) (peer : ClientPeer Ip), loop.peers[i]? = some peer →
    ∃ next, loop'.peers[i]? = some next ∧ Continues peer next

theorem ClientKept.refl (loop : ClientLoop Ip) : ClientKept loop loop :=
  fun _ peer hpeer => ⟨peer, hpeer, .refl peer⟩

theorem ClientKept.trans {a b c : ClientLoop Ip} (h : ClientKept a b)
    (h' : ClientKept b c) : ClientKept a c := by
  intro i peer hpeer
  obtain ⟨mid, hmid, hcont⟩ := h i peer hpeer
  obtain ⟨next, hnext, hcont'⟩ := h' i mid hmid
  exact ⟨next, hnext, hcont.trans hcont'⟩

theorem ClientKept.setPeer {loop : ClientLoop Ip} {i : Nat}
    {peer next : ClientPeer Ip} (hpeer : loop.peers[i]? = some peer)
    (hnext : Continues peer next) :
    ClientKept loop (loop.setPeer i next) := by
  intro j other hother
  by_cases hij : i = j
  · subst hij
    rw [hpeer] at hother
    cases hother
    exact ⟨next, List.getElem?_set_self
      (List.getElem?_eq_some_iff.1 hpeer).1, hnext⟩
  · refine ⟨other, ?_, .refl other⟩
    show (loop.peers.set i next)[j]? = some other
    rwa [List.getElem?_set_ne hij]

theorem ClientKept.addPeer [DecidableEq Ip] (loop : ClientLoop Ip)
    (addr : SocketAddr Ip) : ClientKept loop (loop.addPeer addr) :=
  fun _ peer hpeer => ⟨peer, getElem?_snoc_iff.2 (Or.inl hpeer),
    .refl peer⟩

structure ClientInv (loop : ClientLoop Ip) : Prop where
  count : loop.nextPeerId.toNat = loop.peers.length
  ids : ∀ (i : Nat) (id : VarInt),
    (loop.peers.map ClientPeer.peerId)[i]? = some id → id.value = i
  byId : ∀ id i, loop.idToQueue id = some i
    ↔ (loop.peers.map ClientPeer.peerId)[i]? = some id
  byAddr : ∀ addr i, loop.addrToQueue addr = some i →
    (loop.peers.map ClientPeer.peerAddr)[i]? = some addr
  live : ∀ i peer, loop.peers[i]? = some peer →
    peer.clientReceiveQueue.receiving = true →
    loop.addrToQueue peer.peerAddr = some i
  taking : ∀ (i : Nat) (peer : ClientPeer Ip),
    loop.peers[i]? = some peer → peer.task ≠ .returned →
      peer.clientReceiveQueue.receiving = true

namespace ClientInv

variable {loop : ClientLoop Ip} {peer next : ClientPeer Ip} {i : Nat}

theorem peerId_value (h : ClientInv loop)
    (hpeer : loop.peers[i]? = some peer) :
    peer.peerId.value = i := by
  apply h.ids
  rw [List.getElem?_map, hpeer]
  rfl

theorem peerId_lt (h : ClientInv loop) (hpeer : loop.peers[i]? = some peer) :
    peer.peerId.value < 2 ^ 32 := by
  have hlt := (List.getElem?_eq_some_iff.1 hpeer).1
  have hnext := loop.nextPeerId.toNat_lt
  rw [h.peerId_value hpeer]
  have hcount := h.count
  omega

/-- The id of a peer is its number, so no two are the same. -/
theorem nodup_ids (h : ClientInv loop) :
    (loop.peers.map ClientPeer.peerId).Nodup := by
  rw [List.nodup_iff_getElem?_ne_getElem?]
  intro i j hij hj heq
  obtain ⟨id, hid⟩ : ∃ id, (loop.peers.map ClientPeer.peerId)[j]?
      = some id := ⟨_, List.getElem?_eq_getElem hj⟩
  have hi := h.ids i id (heq.trans hid)
  have hj := h.ids j id hid
  omega

/-- The next id is not given out. -/
theorem fresh_next (h : ClientInv loop) :
    peerIdOf loop.nextPeerId ∉ loop.peers.map ClientPeer.peerId := by
  intro hmem
  obtain ⟨j, hj⟩ := List.mem_iff_getElem?.1 hmem
  have hlt := (List.getElem?_eq_some_iff.1 hj).1
  have hval : loop.nextPeerId.toNat = j := h.ids j _ hj
  rw [List.length_map, ← h.count] at hlt
  omega

theorem addr_of_queueOf (h : ClientInv loop) [DecidableEq Ip]
    {addr : SocketAddr Ip} (hqueue : loop.queueOf addr = some (i, peer)) :
    peer.peerAddr = addr := by
  have hmap : loop.addrToQueue addr = some i := by
    rw [ClientLoop.queueOf] at hqueue
    split at hqueue
    case h_1 => cases hqueue
    case h_2 j hj =>
      split at hqueue
      case h_1 => cases hqueue
      case h_2 other _ =>
        split at hqueue
        case isTrue =>
          cases hqueue
          exact hj
        case isFalse => cases hqueue
  have hget := h.byAddr addr i hmap
  rw [List.getElem?_map, peers_of_queueOf hqueue] at hget
  exact Option.some.inj hget

/-- A task goes on. -/
theorem setPeer (h : ClientInv loop) (hpeer : loop.peers[i]? = some peer)
    (hnext : Continues peer next) : ClientInv (loop.setPeer i next) where
  count := by
    show loop.nextPeerId.toNat = (loop.peers.set i next).length
    rw [List.length_set]
    exact h.count
  ids := by
    show ∀ j id, ((loop.peers.set i next).map _)[j]? = some id → _
    rw [map_set_of_eq hpeer hnext.peerId]
    exact h.ids
  byId := by
    show ∀ id j, loop.idToQueue id = some j
      ↔ ((loop.peers.set i next).map _)[j]? = some id
    rw [map_set_of_eq hpeer hnext.peerId]
    exact h.byId
  byAddr := by
    show ∀ addr j, loop.addrToQueue addr = some j →
      ((loop.peers.set i next).map _)[j]? = some addr
    rw [map_set_of_eq hpeer hnext.peerAddr]
    exact h.byAddr
  live := by
    intro j other hother htakes
    rcases getElem?_set_cases hother with ⟨rfl, rfl⟩ | ⟨-, hold⟩
    · show loop.addrToQueue other.peerAddr = some j
      rw [hnext.peerAddr]
      exact h.live j peer hpeer (hnext.takes htakes)
    · exact h.live j other hold htakes
  taking := by
    intro j other hother hruns
    rcases getElem?_set_cases hother with ⟨rfl, rfl⟩ | ⟨-, hold⟩
    · exact hnext.taking (h.taking j peer hpeer) hruns
    · exact h.taking j other hold hruns

/-- A loop that returns leaves the registry as it is. -/
theorem setFailed (h : ClientInv loop) (error : Option LoopError) :
    ClientInv { loop with failed := error } :=
  ⟨h.count, h.ids, h.byId, h.byAddr, h.live, h.taking⟩

/-- No peer takes packets from an address that leads nowhere. -/
theorem none_takes [DecidableEq Ip] (h : ClientInv loop) {addr : SocketAddr Ip}
    (hnone : loop.queueOf addr = none) (hpeer : loop.peers[i]? = some peer)
    (haddr : peer.peerAddr = addr) :
    peer.clientReceiveQueue.receiving = false := by
  by_contra htakes
  rw [Bool.not_eq_false] at htakes
  have hmap := h.live i peer hpeer htakes
  rw [haddr] at hmap
  rw [ClientLoop.queueOf, hmap] at hnone
  simp only [hpeer, htakes, if_true] at hnone
  cases hnone

/-- A new peer for an address that leads nowhere. -/
theorem addPeer [DecidableEq Ip] (h : ClientInv loop) {addr : SocketAddr Ip}
    (hnone : loop.queueOf addr = none)
    (hroom : loop.nextPeerId ≠ UInt32.ofNat (2 ^ 32 - 1)) :
    ClientInv (loop.addPeer addr) where
  count := by
    have hlt := loop.nextPeerId.toNat_lt
    have hmax : loop.nextPeerId.toNat ≠ 2 ^ 32 - 1 := by
      intro heq
      exact hroom (UInt32.toNat_inj.1 (by rw [heq]; rfl))
    show (loop.nextPeerId + 1).toNat
      = (loop.peers ++ [ClientPeer.new _ _]).length
    rw [UInt32.toNat_add, List.length_append, ← h.count]
    show (loop.nextPeerId.toNat + 1) % 2 ^ 32 = loop.nextPeerId.toNat + 1
    omega
  ids := by
    intro i id hid
    rw [ClientLoop.addPeer, List.map_append] at hid
    rcases getElem?_snoc_iff.1 hid with hold | ⟨rfl, rfl⟩
    · exact h.ids i id hold
    · rw [List.length_map, ← h.count]
      rfl
  byId := by
    intro id i
    rw [ClientLoop.addPeer, List.map_append]
    refine Iff.trans ?_ getElem?_snoc_iff.symm
    rw [List.length_map]
    show Function.update loop.idToQueue _ _ id = some i ↔ _
    by_cases hid : id = peerIdOf loop.nextPeerId
    · subst hid
      rw [Function.update_self]
      constructor
      · intro hi
        cases hi
        exact Or.inr ⟨rfl, rfl⟩
      · intro hi
        rcases hi with hold | ⟨rfl, -⟩
        · exact absurd (List.mem_of_getElem? hold) h.fresh_next
        · rfl
    · rw [Function.update_of_ne hid, h.byId]
      refine ⟨Or.inl, ?_⟩
      intro hi
      rcases hi with hold | ⟨-, hnew⟩
      · exact hold
      · exact absurd hnew hid
  byAddr := by
    intro other i hi
    rw [ClientLoop.addPeer, List.map_append]
    refine getElem?_snoc_iff.2 ?_
    rw [List.length_map]
    have hi' : Function.update loop.addrToQueue addr
        (some loop.peers.length) other = some i := hi
    by_cases haddr : other = addr
    · subst haddr
      rw [Function.update_self] at hi'
      cases hi'
      exact Or.inr ⟨rfl, rfl⟩
    · rw [Function.update_of_ne haddr] at hi'
      exact Or.inl (h.byAddr other i hi')
  live := by
    intro i peer hpeer htakes
    show Function.update loop.addrToQueue addr _ peer.peerAddr = some i
    rcases getElem?_snoc_iff.1 hpeer with hold | ⟨rfl, rfl⟩
    · have hne : peer.peerAddr ≠ addr := by
        intro haddr
        rw [h.none_takes hnone hold haddr] at htakes
        cases htakes
      rw [Function.update_of_ne hne]
      exact h.live i peer hold htakes
    · exact Function.update_self ..
  taking := by
    intro i peer hpeer hruns
    rcases getElem?_snoc_iff.1 hpeer with hold | ⟨-, rfl⟩
    · exact h.taking i peer hold hruns
    · rfl

/-- A packet at the socket keeps the registry; the loop returns only
when every id but the last was given out. -/
theorem onPacket [DecidableEq Ip] (h : ClientInv loop)
    (addr : SocketAddr Ip) (packet : Bytes) :
    ClientInv (loop.onPacket addr packet).1
    ∧ ClientKept loop (loop.onPacket addr packet).1
    ∧ ((loop.onPacket addr packet).1.failed = loop.failed
      ∨ ((loop.onPacket addr packet).1.failed = some .ranOutOfPeerIds
        ∧ (loop.onPacket addr packet).1.peers.length = 2 ^ 32 - 1)) := by
  rw [ClientLoop.onPacket]
  cases hqueue : loop.queueOf addr with
  | some found =>
      obtain ⟨i, peer⟩ := found
      have hpeer := peers_of_queueOf hqueue
      have hnext := continues_trySend peer packet
      exact ⟨h.setPeer hpeer hnext, .setPeer hpeer hnext, Or.inl rfl⟩
  | none =>
      dsimp only
      split
      case isTrue hlast =>
        refine ⟨h.setFailed _, .refl loop, Or.inr ⟨rfl, ?_⟩⟩
        show loop.peers.length = 2 ^ 32 - 1
        rw [← h.count, hlast]
        rfl
      case isFalse hroom =>
        have hnew : (loop.addPeer addr).peers[loop.peers.length]?
            = some (.new (peerIdOf loop.nextPeerId) addr) :=
          getElem?_snoc_iff.2 (Or.inr ⟨rfl, rfl⟩)
        have hnext := continues_trySend
          (ClientPeer.new (peerIdOf loop.nextPeerId) addr) packet
        exact ⟨(h.addPeer hqueue hroom).setPeer hnew hnext,
          (ClientKept.addPeer loop addr).trans (.setPeer hnew hnext),
          Or.inl rfl⟩

/-- So does a datagram that decodes. -/
theorem onDatagram (h : ClientInv loop) (datagram : Datagram) :
    ClientInv (loop.onDatagram datagram.encode)
    ∧ ClientKept loop (loop.onDatagram datagram.encode)
    ∧ (loop.onDatagram datagram.encode).failed = loop.failed
    ∧ (loop.onDatagram datagram.encode).peers.length
      = loop.peers.length := by
  rcases loop.onDatagram_cases datagram with
    heq | ⟨i, peer, -, hpeer, heq⟩
  · rw [heq]
    exact ⟨h, .refl loop, rfl, rfl⟩
  · rw [heq]
    have hnext : Continues peer { peer with
        serverReceiveQueue :=
          peer.serverReceiveQueue.trySend datagram.data } :=
      ⟨rfl, rfl, id, id, id⟩
    exact ⟨h.setPeer hpeer hnext, .setPeer hpeer hnext, rfl,
      List.length_set⟩

end ClientInv

-- ========================================================= the server's side

/-- The map from ids is the list of peers read backwards. -/
def ServerInv (loop : ServerLoop Ip) : Prop :=
  ∀ (id : VarInt) (i : Nat), loop.outgoingQueues id = some i
    ↔ (loop.peers.map ServerPeer.peerId)[i]? = some id

/-- What the registry looks at stays as it is. -/
structure ServerKept (loop loop' : ServerLoop Ip) : Prop where
  queues : loop'.outgoingQueues = loop.outgoingQueues
  ids : loop'.peers.map ServerPeer.peerId
    = loop.peers.map ServerPeer.peerId

theorem ServerKept.inv {loop loop' : ServerLoop Ip}
    (h : ServerKept loop loop') (hinv : ServerInv loop) :
    ServerInv loop' := by
  unfold ServerInv
  rw [h.queues, h.ids]
  exact hinv

theorem ServerKept.setPeer {loop : ServerLoop Ip} {i : Nat}
    {peer next : ServerPeer Ip} (hpeer : loop.peers[i]? = some peer)
    (hid : next.peerId = peer.peerId) :
    ServerKept loop (loop.setPeer i next) :=
  ⟨rfl, map_set_of_eq hpeer hid⟩

theorem serverKept_fail (loop : ServerLoop Ip) (error : LoopError) :
    ServerKept loop (loop.fail error) := by
  refine ⟨rfl, ?_⟩
  rw [ServerLoop.fail, List.map_map]
  rfl

theorem serverKept_onDatagram (loop : ServerLoop Ip)
    (datagram : Datagram) :
    ServerKept loop (loop.onDatagram datagram.encode)
    ∧ (loop.onDatagram datagram.encode).failed = loop.failed := by
  rcases loop.onDatagram_cases datagram with
    heq | ⟨i, peer, -, hpeer, heq⟩
  · rw [heq]
    exact ⟨⟨rfl, rfl⟩, rfl⟩
  · rw [heq]
    exact ⟨.setPeer hpeer rfl, rfl⟩

theorem serverKept_onLanPacket [DecidableEq Ip] (loop : ServerLoop Ip)
    (addr : SocketAddr Ip) (packet : Bytes) :
    ServerKept loop (loop.onLanPacket addr packet) := by
  unfold ServerLoop.onLanPacket
  split
  case h_1 =>
    dsimp only
    split <;> exact ⟨rfl, rfl⟩
  case h_2 => exact ⟨rfl, rfl⟩

theorem failed_onLanPacket [DecidableEq Ip] (loop : ServerLoop Ip)
    (addr : SocketAddr Ip) (packet : Bytes) :
    (loop.onLanPacket addr packet).failed = loop.failed := by
  unfold ServerLoop.onLanPacket
  split
  case h_1 =>
    dsimp only
    split <;> rfl
  case h_2 => rfl

theorem failed_addPeer (loop : ServerLoop Ip) (id : VarInt) :
    (loop.addPeer id).failed = loop.failed := by
  show (loop.dropSender id).failed = loop.failed
  unfold ServerLoop.dropSender
  split
  case h_1 => rfl
  case h_2 => split <;> rfl

/-- A new peer, under an id that is not taken. -/
theorem ServerInv.addPeer {loop : ServerLoop Ip} (h : ServerInv loop)
    {id : VarInt} (hfresh : id ∉ loop.peers.map ServerPeer.peerId) :
    ServerInv (loop.addPeer id)
    ∧ (loop.addPeer id).peers = loop.peers
      ++ [.new id loop.factorioAddressCell loop.worldEstimate] := by
  have hnone : loop.outgoingQueues id = none := by
    rw [Option.eq_none_iff_forall_ne_some]
    intro i hi
    exact hfresh (List.mem_of_getElem? ((h id i).1 hi))
  have hdrop : loop.dropSender id = loop := by
    rw [ServerLoop.dropSender, hnone]
  have hpeers : (loop.addPeer id).peers = loop.peers
      ++ [.new id loop.factorioAddressCell loop.worldEstimate] := by
    rw [ServerLoop.addPeer, hdrop]
  refine ⟨?_, hpeers⟩
  intro other i
  rw [hpeers, List.map_append]
  refine Iff.trans ?_ getElem?_snoc_iff.symm
  rw [List.length_map]
  show Function.update loop.outgoingQueues id _ other = some i ↔ _
  by_cases hid : other = id
  · subst hid
    rw [Function.update_self]
    constructor
    · intro hi
      cases hi
      exact Or.inr ⟨rfl, rfl⟩
    · intro hi
      rcases hi with hold | ⟨rfl, -⟩
      · exact absurd (List.mem_of_getElem? hold) hfresh
      · rfl
  · rw [Function.update_of_ne hid, h other i]
    refine ⟨Or.inl, ?_⟩
    intro hi
    rcases hi with hold | ⟨-, hnew⟩
    · exact hold
    · exact absurd hnew hid

-- ================================================================ both sides

/-- The ids that crossed the connection, on streams and accepted. -/
def PeerNet.openedIds (s : PeerNet Ip) : List VarInt :=
  s.streams.map peerIdOf ++ s.server.peers.map ServerPeer.peerId

structure NetInv (s : PeerNet Ip) : Prop where
  client : ClientInv s.client
  server : ServerInv s.server
  once : s.openedIds.Nodup
  opened : ∀ id ∈ s.openedIds, ∃ (i : Nat) (peer : ClientPeer Ip),
    s.client.peers[i]? = some peer ∧ peer.peerId = id
      ∧ peer.task ≠ .opening
  toServer : ∀ data ∈ s.toServer, ∃ d : Datagram, data = d.encode
  toClient : ∀ data ∈ s.toClient, ∃ d : Datagram, data = d.encode

namespace NetInv

variable {s : PeerNet Ip} {i : Nat}

theorem nodup_serverIds (h : NetInv s) :
    (s.server.peers.map ServerPeer.peerId).Nodup :=
  h.once.sublist (List.sublist_append_right _ _)

/-- The id on a stream has no peer on the server's side yet. -/
theorem fresh_stream (h : NetInv s) {n : Nat} {id : UInt32}
    (hid : s.streams[n]? = some id) :
    peerIdOf id ∉ s.server.peers.map ServerPeer.peerId := by
  have hmem : peerIdOf id ∈ s.streams.map peerIdOf :=
    List.mem_map_of_mem (List.mem_of_getElem? hid)
  exact List.disjoint_of_nodup_append h.once hmem

/-- Something happens to the client's side. -/
theorem clientStep (h : NetInv s) {client : ClientLoop Ip}
    (hinv : ClientInv client) (hkept : ClientKept s.client client)
    {toServer toClient : List Bytes}
    (hserver : ∀ data ∈ toServer, ∃ d : Datagram, data = d.encode)
    (hclient : ∀ data ∈ toClient, ∃ d : Datagram, data = d.encode) :
    NetInv { s with client := client, toServer := toServer
                    toClient := toClient } where
  client := hinv
  server := h.server
  once := h.once
  opened := by
    intro id hid
    obtain ⟨j, peer, hpeer, hpeerId, hopened⟩ := h.opened id hid
    obtain ⟨next, hnext, hcont⟩ := hkept j peer hpeer
    exact ⟨j, next, hnext, hcont.peerId.trans hpeerId,
      fun hopening => hopened (hcont.opened hopening)⟩
  toServer := hserver
  toClient := hclient

/-- Something happens to the server's side that its registry does not
look at. -/
theorem serverStep (h : NetInv s) {server : ServerLoop Ip}
    (hkept : ServerKept s.server server)
    {toServer toClient : List Bytes}
    (hserver : ∀ data ∈ toServer, ∃ d : Datagram, data = d.encode)
    (hclient : ∀ data ∈ toClient, ∃ d : Datagram, data = d.encode) :
    NetInv { s with server := server, toServer := toServer
                    toClient := toClient } where
  client := h.client
  server := hkept.inv h.server
  once := by
    show (s.streams.map peerIdOf
      ++ server.peers.map ServerPeer.peerId).Nodup
    rw [hkept.ids]
    exact h.once
  opened := by
    show ∀ id ∈ s.streams.map peerIdOf
      ++ server.peers.map ServerPeer.peerId, _
    rw [hkept.ids]
    exact h.opened
  toServer := hserver
  toClient := hclient

/-- The id of a task that has not opened its stream has not crossed the
connection. -/
theorem fresh_of_opening (h : NetInv s) {peer : ClientPeer Ip}
    (hpeer : s.client.peers[i]? = some peer)
    (htask : peer.task = .opening) : peer.peerId ∉ s.openedIds := by
  intro hmem
  obtain ⟨j, other, hother, hid, hopened⟩ := h.opened _ hmem
  have hij : j = i := by
    rw [← h.client.peerId_value hother, hid, h.client.peerId_value hpeer]
  subst hij
  rw [hpeer] at hother
  cases hother
  exact hopened htask

/-- A stream is opened. -/
theorem openedStream (h : NetInv s) {peer : ClientPeer Ip}
    (hpeer : s.client.peers[i]? = some peer)
    (htask : peer.task = .opening) (now : Nat) :
    NetInv { s with
      client := s.client.setPeer i
        { peer with task := .running (.new now) false }
      streams := s.streams ++ [UInt32.ofNat peer.peerId.value] } := by
  have hnext : Continues peer
      { peer with task := .running (.new now) false } := by
    refine ⟨rfl, rfl, id, nofun, fun ht _ => ht ?_⟩
    rw [htask]
    exact nofun
  have hmid := h.clientStep (h.client.setPeer hpeer hnext)
    (.setPeer hpeer hnext) h.toServer h.toClient
  have hperm : ((s.streams ++ [UInt32.ofNat peer.peerId.value]).map peerIdOf
      ++ s.server.peers.map ServerPeer.peerId).Perm
        (peer.peerId :: s.openedIds) := by
    rw [List.map_append, List.map_singleton, peerIdOf_ofNat
      (h.client.peerId_lt hpeer), List.append_assoc]
    exact List.perm_middle
  refine ⟨hmid.client, hmid.server, ?_, ?_, hmid.toServer, hmid.toClient⟩
  · refine hperm.nodup_iff.2 (List.nodup_cons.2 ⟨?_, h.once⟩)
    exact h.fresh_of_opening hpeer htask
  · intro id hid
    rcases List.mem_cons.1 (hperm.mem_iff.1 hid) with rfl | hold
    · exact ⟨i, _, List.getElem?_set_self
        (List.getElem?_eq_some_iff.1 hpeer).1, rfl, nofun⟩
    · exact hmid.opened id hold

/-- A stream is accepted. -/
theorem acceptedStream (h : NetInv s) {n : Nat} {id : UInt32}
    (hid : s.streams[n]? = some id) :
    NetInv { s with server := s.server.addPeer (peerIdOf id)
                    streams := s.streams.eraseIdx n } := by
  have hperm : (id :: s.streams.eraseIdx n).Perm s.streams := by
    obtain ⟨hn, hget⟩ := List.getElem?_eq_some_iff.1 hid
    rw [← hget]
    exact List.getElem_cons_eraseIdx_perm hn
  have hall : (peerIdOf id :: ((s.streams.eraseIdx n).map peerIdOf
      ++ s.server.peers.map ServerPeer.peerId)).Perm s.openedIds :=
    (hperm.map peerIdOf).append_right _
  obtain ⟨hserver, hpeers⟩ := h.server.addPeer (h.fresh_stream hid)
  have hids : (s.server.addPeer (peerIdOf id)).peers.map ServerPeer.peerId
      = s.server.peers.map ServerPeer.peerId ++ [peerIdOf id] := by
    rw [hpeers, List.map_append]
    rfl
  have hperm' : ((s.streams.eraseIdx n).map peerIdOf
      ++ (s.server.addPeer (peerIdOf id)).peers.map
        ServerPeer.peerId).Perm s.openedIds := by
    rw [hids, ← List.append_assoc]
    exact (List.perm_append_singleton _ _).trans hall
  exact ⟨h.client, hserver, hperm'.nodup_iff.2 h.once,
    fun other hother => h.opened other (hperm'.mem_iff.1 hother),
    h.toServer, h.toClient⟩

/-- A stream is taken and no peer made of it. -/
theorem refusedStream (h : NetInv s) (n : Nat) :
    NetInv { s with server := s.server.fail .bind
                    streams := s.streams.eraseIdx n } := by
  have hmid := h.serverStep (serverKept_fail s.server .bind)
    h.toServer h.toClient
  have hsub : ((s.streams.eraseIdx n).map peerIdOf
      ++ (s.server.fail .bind).peers.map ServerPeer.peerId).Sublist
        (s.streams.map peerIdOf
          ++ (s.server.fail .bind).peers.map ServerPeer.peerId) :=
    ((List.eraseIdx_sublist _ n).map peerIdOf).append_right _
  exact ⟨hmid.client, hmid.server, hmid.once.sublist hsub,
    fun id hid => hmid.opened id (hsub.subset hid), hmid.toServer,
    hmid.toClient⟩

end NetInv

-- ============================================================== every step

theorem encoded_clientDatagrams (peer : ClientPeer Ip)
    (outPackets : List PushedPacket) :
    ∀ data ∈ outPackets.filterMap peer.sendDatagram, ∃ d : Datagram,
      data = d.encode := by
  intro data hdata
  obtain ⟨⟨packet, dir⟩, -, hsent⟩ := List.mem_filterMap.1 hdata
  cases dir with
  | toClient => cases hsent
  | toServer =>
      cases hsent
      exact ⟨_, rfl⟩

theorem encoded_serverDatagrams (peer : ServerPeer Ip)
    (outPackets : List PushedPacket) :
    ∀ data ∈ outPackets.filterMap peer.sendDatagram, ∃ d : Datagram,
      data = d.encode := by
  intro data hdata
  obtain ⟨⟨packet, dir⟩, -, hsent⟩ := List.mem_filterMap.1 hdata
  cases dir with
  | toServer => cases hsent
  | toClient =>
      cases hsent
      exact ⟨_, rfl⟩

variable {s : PeerNet Ip}

theorem continues_afterTurn {peer : ClientPeer Ip}
    {proxyState : ClientProxyState} {worldDataDone : Bool}
    (htask : peer.task = .running proxyState worldDataDone)
    (turn : ClientTurn) (sends : Nat) :
    Continues peer (PeerNet.afterTurn sends
      (peer.select proxyState worldDataDone turn)) := by
  have hselect := continues_select htask turn
  unfold PeerNet.afterTurn
  split
  case isTrue => exact hselect.trans (continues_finish _)
  case isFalse => exact hselect

/-- What happens on the client's side. -/
theorem NetInv.act_client [DecidableEq Ip] (h : NetInv s)
    (action : NetAction Ip) : NetInv (s.clientStep action).1 := by
  cases action with
  | clientPacket addr packet =>
      obtain ⟨hinv, hkept, -⟩ := h.client.onPacket addr packet
      exact h.clientStep hinv hkept h.toServer h.toClient
  | clientDatagram n =>
      rw [PeerNet.clientStep]
      cases hdata : s.toClient[n]? with
      | none => exact h
      | some data =>
          obtain ⟨d, rfl⟩ := h.toClient data (List.mem_of_getElem? hdata)
          obtain ⟨hinv, hkept, -⟩ := h.client.onDatagram d
          exact h.clientStep hinv hkept h.toServer fun other hother =>
            h.toClient other (List.mem_of_mem_eraseIdx hother)
  | clientReadError error =>
      exact h.clientStep (h.client.setFailed (some (.clientRead error)))
        (.refl s.client) h.toServer h.toClient
  | openStream i opened now =>
      rw [PeerNet.clientStep]
      rcases s.openStream_cases i opened now with
        heq | ⟨peer, hpeer, htask, heq | heq⟩
      · rw [heq]
        exact h
      · rw [heq]
        exact h.openedStream hpeer htask now
      · rw [heq]
        have hnext := continues_finish peer
        exact h.clientStep (h.client.setPeer hpeer hnext)
          (.setPeer hpeer hnext) h.toServer h.toClient
  | clientTurn i turn sends =>
      rw [PeerNet.clientStep]
      rcases s.clientTurn_cases i turn sends with
        heq | ⟨peer, proxyState, worldDataDone, hpeer, htask, heq⟩
      · rw [heq]
        exact h
      · rw [heq]
        have hnext := continues_afterTurn htask turn sends
        refine h.clientStep (h.client.setPeer hpeer hnext)
          (.setPeer hpeer hnext) ?_ h.toClient
        intro data hdata
        rcases List.mem_append.1 hdata with hold | hnew
        · exact h.toServer data hold
        · exact encoded_clientDatagrams peer _ data hnew
  | _ => exact h

/-- What the loop of the server's side does. -/
theorem NetInv.act_serverLoop (h : NetInv s) (action : NetAction Ip) :
    NetInv (s.serverLoopStep action) := by
  cases action with
  | serverDatagram n =>
      rw [PeerNet.serverLoopStep]
      cases hdata : s.toServer[n]? with
      | none => exact h
      | some data =>
          obtain ⟨d, rfl⟩ := h.toServer data (List.mem_of_getElem? hdata)
          exact h.serverStep (serverKept_onDatagram s.server d).1
            (fun other hother =>
              h.toServer other (List.mem_of_mem_eraseIdx hother)) h.toClient
  | acceptStream n bound =>
      rw [PeerNet.serverLoopStep]
      cases hid : s.streams[n]? with
      | none => exact h
      | some id =>
          cases bound with
          | true => exact h.acceptedStream hid
          | false => exact h.refusedStream n
  | serverReadError error =>
      exact h.serverStep (serverKept_fail s.server _) h.toServer h.toClient
  | _ => exact h

/-- A turn of a task of the server's side. -/
theorem NetInv.act_serverTurn [DecidableEq Ip] (h : NetInv s)
    (i : Nat) (turn : ServerTurn Ip) (sends : Nat) :
    NetInv (s.serverTurn i turn sends).1 := by
  rcases s.serverTurn_cases i turn sends with
    heq | ⟨peer, proxyState, hpeer, -, heq⟩
  · rw [heq]
    exact h
  · rw [heq]
    have hid := peerId_afterServerTurn peer proxyState turn sends
    refine h.serverStep (.setPeer hpeer hid) h.toServer ?_
    intro data hdata
    rcases List.mem_append.1 hdata with hold | hnew
    · exact h.toClient data hold
    · exact encoded_serverDatagrams peer _ data hnew

theorem NetInv.act [DecidableEq Ip] (h : NetInv s)
    (action : NetAction Ip) : NetInv (s.act action).1 := by
  cases action with
  | clientPacket | clientDatagram | clientReadError | openStream
  | clientTurn =>
      rw [PeerNet.act]
      split
      case isTrue => exact h
      case isFalse => exact h.act_client _
  | serverDatagram | acceptStream | serverReadError =>
      rw [PeerNet.act]
      split
      case isTrue => exact h
      case isFalse =>
        dsimp only
        exact h.act_serverLoop _
  | serverTurn i turn sends => exact h.act_serverTurn i turn sends
  | lanPacket addr packet =>
      exact h.serverStep (serverKept_onLanPacket s.server addr packet)
        h.toServer h.toClient
  | loseToServer n =>
      exact ⟨h.client, h.server, h.once, h.opened, fun data hdata =>
        h.toServer data (List.mem_of_mem_eraseIdx hdata), h.toClient⟩
  | loseToClient n =>
      exact ⟨h.client, h.server, h.once, h.opened, h.toServer,
        fun data hdata => h.toClient data (List.mem_of_mem_eraseIdx hdata)⟩

theorem netInv_start (factorioAddress : SocketAddr Ip)
    (worldEstimate : UInt32 → UInt32) :
    NetInv (PeerNet.start factorioAddress worldEstimate) where
  client := ⟨rfl, nofun, fun _ _ => ⟨nofun, nofun⟩, nofun, nofun, nofun⟩
  server _ _ := ⟨nofun, nofun⟩
  once := List.nodup_nil
  opened := nofun
  toServer := nofun
  toClient := nofun

-- ====================================================== why a loop returns

/-- Why the loops returned, if they did, after the actions `past`. -/
structure ReturnsFor (past : List (NetAction Ip)) (s : PeerNet Ip) :
    Prop where
  /-- every id but one was given out, or a read failed -/
  client : ∀ error, s.client.failed = some error →
    (error = .ranOutOfPeerIds ∧ s.client.peers.length = 2 ^ 32 - 1)
    ∨ ∃ read, error = .clientRead read ∧ .clientReadError read ∈ past
  /-- a socket could not be bound, or a read failed -/
  server : ∀ error, s.server.failed = some error →
    (error = .bind ∧ ∃ n, .acceptStream n false ∈ past)
    ∨ ∃ read, error = .serverRead read ∧ .serverReadError read ∈ past

section Returns

variable {past : List (NetAction Ip)} {error : LoopError}

/-- How the client's loop comes to return. -/
theorem NetInv.failed_clientStep [DecidableEq Ip] (h : NetInv s)
    (hgoes : s.client.failed = none) {action : NetAction Ip}
    (hfailed : (s.clientStep action).1.client.failed = some error) :
    (error = .ranOutOfPeerIds
      ∧ (s.clientStep action).1.client.peers.length = 2 ^ 32 - 1)
    ∨ ∃ read, error = .clientRead read
      ∧ action = .clientReadError read := by
  -- whatever leaves the field alone
  have hsame : ∀ {loop : ClientLoop Ip}, loop.failed = s.client.failed →
      loop.failed ≠ some error := by
    intro loop heq hsome
    rw [heq, hgoes] at hsome
    cases hsome
  cases action with
  | clientPacket addr packet =>
      obtain ⟨-, -, hsteps⟩ := h.client.onPacket addr packet
      rcases hsteps with heq | ⟨hlast, hlength⟩
      · exact absurd hfailed (hsame heq)
      · exact Or.inl ⟨Option.some.inj (hfailed.symm.trans hlast), hlength⟩
  | clientDatagram n =>
      rw [PeerNet.clientStep] at hfailed
      cases hdata : s.toClient[n]? with
      | none =>
          rw [hdata] at hfailed
          exact absurd hfailed (hsame rfl)
      | some data =>
          obtain ⟨d, rfl⟩ := h.toClient data (List.mem_of_getElem? hdata)
          rw [hdata] at hfailed
          exact absurd hfailed (hsame (h.client.onDatagram d).2.2.1)
  | clientReadError read =>
      exact Or.inr ⟨read, (Option.some.inj hfailed).symm, rfl⟩
  | openStream i opened now =>
      rw [PeerNet.clientStep] at hfailed
      refine absurd hfailed (hsame ?_)
      rcases s.openStream_cases i opened now with
        heq | ⟨peer, -, -, heq | heq⟩
      · rw [heq]
      · rw [heq, ClientLoop.setPeer]
      · rw [heq, ClientLoop.setPeer]
  | clientTurn i turn sends =>
      rw [PeerNet.clientStep] at hfailed
      refine absurd hfailed (hsame ?_)
      rcases s.clientTurn_cases i turn sends with
        heq | ⟨peer, proxyState, worldDataDone, -, -, heq⟩
      · rw [heq]
      · rw [heq, ClientLoop.setPeer]
  | _ => exact absurd hfailed (hsame rfl)

/-- How the server's does. -/
theorem NetInv.failed_serverLoopStep (h : NetInv s)
    (hgoes : s.server.failed = none) {action : NetAction Ip}
    (hfailed : (s.serverLoopStep action).server.failed = some error) :
    (error = .bind ∧ ∃ n, action = .acceptStream n false)
    ∨ ∃ read, error = .serverRead read
      ∧ action = .serverReadError read := by
  have hsame : ∀ {loop : ServerLoop Ip}, loop.failed = s.server.failed →
      loop.failed ≠ some error := by
    intro loop heq hsome
    rw [heq, hgoes] at hsome
    cases hsome
  cases action with
  | serverDatagram n =>
      rw [PeerNet.serverLoopStep] at hfailed
      cases hdata : s.toServer[n]? with
      | none =>
          rw [hdata] at hfailed
          exact absurd hfailed (hsame rfl)
      | some data =>
          obtain ⟨d, rfl⟩ := h.toServer data (List.mem_of_getElem? hdata)
          rw [hdata] at hfailed
          exact absurd hfailed
            (hsame (serverKept_onDatagram s.server d).2)
  | acceptStream n bound =>
      rw [PeerNet.serverLoopStep] at hfailed
      cases hid : s.streams[n]? with
      | none =>
          rw [hid] at hfailed
          exact absurd hfailed (hsame rfl)
      | some id =>
          rw [hid] at hfailed
          cases bound with
          | true => exact absurd hfailed (hsame (failed_addPeer s.server _))
          | false =>
              exact Or.inl ⟨(Option.some.inj hfailed).symm, n, rfl⟩
  | serverReadError read =>
      exact Or.inr ⟨read, (Option.some.inj hfailed).symm, rfl⟩
  | _ => exact absurd hfailed (hsame rfl)

/-- Nothing happens to the loops. -/
theorem ReturnsFor.stays (h : ReturnsFor past s) (s' : PeerNet Ip)
    (hclient : s'.client = s.client)
    (hserver : s'.server.failed = s.server.failed)
    (action : NetAction Ip) : ReturnsFor (past ++ [action]) s' := by
  constructor
  · intro error hfailed
    rw [hclient] at hfailed ⊢
    rcases h.client error hfailed with hlast | ⟨read, heq, hmem⟩
    · exact Or.inl hlast
    · exact Or.inr ⟨read, heq, List.mem_append_left _ hmem⟩
  · intro error hfailed
    rw [hserver] at hfailed
    rcases h.server error hfailed with ⟨heq, n, hmem⟩ | ⟨read, heq, hmem⟩
    · exact Or.inl ⟨heq, n, List.mem_append_left _ hmem⟩
    · exact Or.inr ⟨read, heq, List.mem_append_left _ hmem⟩

/-- Something happens on the client's side. -/
theorem ReturnsFor.clientStep [DecidableEq Ip] (h : ReturnsFor past s)
    (hnet : NetInv s) (hgoes : s.client.failed = none)
    (action : NetAction Ip) :
    ReturnsFor (past ++ [action]) (s.clientStep action).1 := by
  refine ⟨?_, ?_⟩
  · intro error hfailed
    rcases hnet.failed_clientStep hgoes hfailed with
      hlast | ⟨read, heq, rfl⟩
    · exact Or.inl hlast
    · exact Or.inr ⟨read, heq, List.mem_append_right _
        (List.mem_singleton_self _)⟩
  · rw [s.server_clientStep action]
    exact (h.stays s rfl rfl action).server

/-- The server's loop does something. -/
theorem ReturnsFor.serverLoopStep (h : ReturnsFor past s)
    (hnet : NetInv s) (hgoes : s.server.failed = none)
    (action : NetAction Ip) :
    ReturnsFor (past ++ [action]) (s.serverLoopStep action) := by
  refine ⟨?_, ?_⟩
  · rw [s.client_serverLoopStep action]
    exact (h.stays s rfl rfl action).client
  · intro error hfailed
    rcases hnet.failed_serverLoopStep hgoes hfailed with
      ⟨heq, n, rfl⟩ | ⟨read, heq, rfl⟩
    · exact Or.inl ⟨heq, n, List.mem_append_right _
        (List.mem_singleton_self _)⟩
    · exact Or.inr ⟨read, heq, List.mem_append_right _
        (List.mem_singleton_self _)⟩

theorem ReturnsFor.act [DecidableEq Ip] (h : ReturnsFor past s)
    (hnet : NetInv s) (action : NetAction Ip) :
    ReturnsFor (past ++ [action]) (s.act action).1 := by
  cases action with
  | clientPacket | clientDatagram | clientReadError | openStream
  | clientTurn =>
      rw [PeerNet.act]
      split
      case isTrue => exact h.stays s rfl rfl _
      case isFalse hgoes =>
        exact h.clientStep hnet (by simpa using hgoes) _
  | serverDatagram | acceptStream | serverReadError =>
      rw [PeerNet.act]
      split
      case isTrue => exact h.stays s rfl rfl _
      case isFalse hgoes =>
        exact h.serverLoopStep hnet (by simpa using hgoes) _
  | serverTurn i turn sends =>
      have hserver : (s.serverTurn i turn sends).1.server.failed
          = s.server.failed := by
        rcases s.serverTurn_cases i turn sends with
          heq | ⟨peer, proxyState, -, -, heq⟩
        · rw [heq]
        · rw [heq, ServerLoop.setPeer]
      exact h.stays _ (s.client_serverTurn i turn sends) hserver _
  | lanPacket addr packet =>
      refine h.stays (s.act (.lanPacket addr packet)).1 rfl ?_ _
      exact failed_onLanPacket s.server addr packet
  | loseToServer n =>
      exact h.stays (s.act (.loseToServer n)).1 rfl rfl _
  | loseToClient n =>
      exact h.stays (s.act (.loseToClient n)).1 rfl rfl _

end Returns

-- ================================================================ every run

/-- However packets, datagrams, streams, turns and failures are
interleaved: no two peers of the client side share an id, and no two
whose tasks have not returned share an address. The server side has at
most one peer for an id, made after the client's task with that id had
opened its stream. The client's loop returns only when it has given out
all ids but one or one of its reads fails, the server's only for a
socket or a read; neither returns for a datagram. -/
theorem peers_told_apart [DecidableEq Ip]
    (factorioAddress : SocketAddr Ip) (worldEstimate : UInt32 → UInt32)
    (actions : List (NetAction Ip)) :
    ∃ (s : PeerNet Ip) (trace : List (NetEvent Ip)),
      Machine.run PeerNet.step (.start factorioAddress worldEstimate) actions
        = some (s, trace)
      ∧ (s.client.peers.map ClientPeer.peerId).Nodup
      ∧ (∀ (i j : Nat) (peer other : ClientPeer Ip),
          s.client.peers[i]? = some peer →
          s.client.peers[j]? = some other →
          peer.task ≠ .returned → other.task ≠ .returned →
          peer.peerAddr = other.peerAddr → i = j)
      ∧ (s.server.peers.map ServerPeer.peerId).Nodup
      ∧ (∀ peer ∈ s.server.peers, ∃ owner ∈ s.client.peers,
          owner.peerId = peer.peerId ∧ owner.task ≠ .opening)
      ∧ ReturnsFor actions s := by
  obtain ⟨s, trace, hrun, h, hreturns⟩ := Machine.run_induction
    (fun s past _ => NetInv s ∧ ReturnsFor past s) (C := fun _ _ => True)
    (fun s past _ action h _ =>
      ⟨_, _, rfl, h.1.act action, h.2.act h.1 action⟩)
    (Machine.stepsMeet_of PeerNet.step (fun _ _ _ => trivial) _)
    ⟨netInv_start factorioAddress worldEstimate, nofun, nofun⟩
  refine ⟨s, trace, hrun, h.client.nodup_ids, ?_, h.nodup_serverIds, ?_,
    hreturns⟩
  · intro i j peer other hpeer hother hruns hruns' haddr
    have hi := h.client.live i peer hpeer (h.client.taking i peer hpeer hruns)
    have hj := h.client.live j other hother
      (h.client.taking j other hother hruns')
    rw [haddr, hj] at hi
    exact (Option.some.inj hi).symm
  · intro peer hpeer
    obtain ⟨i, owner, howner, hid, hopened⟩ := h.opened peer.peerId
      (List.mem_append_right _ (List.mem_map_of_mem hpeer))
    exact ⟨owner, List.mem_of_getElem? howner, hid, hopened⟩

end FactoryCacher
