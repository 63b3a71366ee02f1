/-
One connection carries the packets of every peer as if each had a path
of its own.

# The abstraction

For a peer id, forget everything but what carries that id: the datagrams
its task has sent, those in flight, what waits in the queues of the
tasks with that id on the other side, and what those have relayed. That
is a `Path` (Lib/Paths.lean), one in each direction (`upPath`,
`downPath`).

# The refinement

A step of the peers is, on the path of every id, some moves of that path
(`up_act`, `down_act`): the turn of a task sends on its own path and
delivers or drops on the one towards it, a loop that reads a datagram
lets one message arrive or loses it, and nothing happens on the path of
any other id. Paths deliver what was sent and nothing twice, and that is
what `peer_paths` says of every run.

It needs of the registries that an id leads to the queue of a task with
that id (`NetInv`).
-/
import FactoryCacher.Lib.Paths
import FactoryCacher.Factorio.Proofs.PeerRegistry

namespace FactoryCacher

variable {Ip : Type} {p : VarInt}

-- =========================================================== the projections

/-- What a datagram carries for a peer. -/
def payloadFor (p : VarInt) (data : Bytes) : Option Bytes :=
  match Datagram.decode data with
  | none => none
  | some d => if d.peerId = p then some d.data else none

theorem payloadFor_encode (d : Datagram) :
    payloadFor p d.encode = if d.peerId = p then some d.data else none := by
  rw [payloadFor, Datagram.decode_encode]

/-- What is queued under an id, in queues with ids. -/
def queuedFor (p : VarInt) (inboxes : List (VarInt × List Bytes)) :
    List Bytes :=
  inboxes.flatMap fun inbox => if inbox.1 = p then inbox.2 else []

def clientInbox (peer : ClientPeer Ip) : VarInt × List Bytes :=
  (peer.peerId, peer.serverReceiveQueue.items)

def serverInbox (peer : ServerPeer Ip) : VarInt × List Bytes :=
  (peer.peerId, peer.receiveQueue.items)

/-- A packet the client's task of a peer sent as a datagram. -/
def sentToServer (p : VarInt) : NetEvent Ip → Option Bytes
  | .datagramToServer id packet => if id = p then some packet else none
  | _ => none

/-- A packet the server's task of a peer took over to the game server. -/
def relayedToServer (p : VarInt) : NetEvent Ip → Option Bytes
  | .toGameServer id _ .relayed packet =>
      if id = p then some packet else none
  | _ => none

/-- A packet the server's task of a peer sent as a datagram. -/
def sentToClient (p : VarInt) : NetEvent Ip → Option Bytes
  | .datagramToClient id packet => if id = p then some packet else none
  | _ => none

/-- A packet the client's task of a peer took over to the game client. -/
def relayedToClient (p : VarInt) : NetEvent Ip → Option Bytes
  | .toGameClient id _ .relayed packet =>
      if id = p then some packet else none
  | _ => none

/-- From the client's task to the game server. -/
def upPath (p : VarInt) (s : PeerNet Ip) (trace : List (NetEvent Ip)) :
    Path Bytes where
  sent := trace.filterMap (sentToServer p)
  inFlight := s.toServer.filterMap (payloadFor p)
  queued := queuedFor p (s.server.peers.map serverInbox)
  delivered := trace.filterMap (relayedToServer p)

/-- From the server's task to the game client. -/
def downPath (p : VarInt) (s : PeerNet Ip) (trace : List (NetEvent Ip)) :
    Path Bytes where
  sent := trace.filterMap (sentToClient p)
  inFlight := s.toClient.filterMap (payloadFor p)
  queued := queuedFor p (s.client.peers.map clientInbox)
  delivered := trace.filterMap (relayedToClient p)

-- ==================================================================== queues

theorem queuedFor_append (xs ys : List (VarInt × List Bytes)) :
    queuedFor p (xs ++ ys) = queuedFor p xs ++ queuedFor p ys :=
  List.flatMap_append

/-- A queue that is empty, or of another peer, counts for nothing. -/
theorem queuedFor_snoc_empty (inboxes : List (VarInt × List Bytes))
    (id : VarInt) : queuedFor p (inboxes ++ [(id, [])])
      = queuedFor p inboxes := by
  rw [queuedFor_append]
  simp [queuedFor]

/-- A change of one queue, seen from an id. -/
theorem queuedFor_set {inboxes : List (VarInt × List Bytes)} {i : Nat}
    {id : VarInt} {items : List Bytes} (h : inboxes[i]? = some (id, items))
    (items' : List Bytes) :
    (queuedFor p (inboxes.set i (id, items')) : Multiset Bytes)
        + (if id = p then items else [] : List Bytes)
      = queuedFor p inboxes
        + (if id = p then items' else [] : List Bytes) := by
  induction inboxes generalizing i with
  | nil => cases h
  | cons inbox inboxes ih =>
      cases i with
      | zero =>
          cases h
          simp only [List.set_cons_zero, queuedFor, List.flatMap_cons,
            ← Multiset.coe_add]
          rw [add_right_comm, add_comm (_ : Multiset Bytes)
            (if id = p then items else [] : List Bytes), add_right_comm]
      | succ i =>
          have hrest := ih (by simpa using h)
          simp only [List.set_cons_succ, queuedFor, List.flatMap_cons,
            ← Multiset.coe_add, add_assoc] at hrest ⊢
          rw [hrest]

/-- A change in the queue of another peer. -/
theorem queuedFor_set_of_ne {inboxes : List (VarInt × List Bytes)}
    {i : Nat} {id : VarInt} {items : List Bytes}
    (h : inboxes[i]? = some (id, items)) (hid : id ≠ p)
    (items' : List Bytes) :
    (queuedFor p (inboxes.set i (id, items')) : Multiset Bytes)
      = queuedFor p inboxes := by
  have hset := queuedFor_set (p := p) h items'
  simpa [hid] using hset

/-- A queue of the peer: what it had is what it has and what it lost. -/
theorem queuedFor_set_lost {inboxes : List (VarInt × List Bytes)}
    {i : Nat} {items items' lost : List Bytes}
    (h : inboxes[i]? = some (p, items))
    (hitems : items = lost ++ items') :
    (queuedFor p inboxes : Multiset Bytes)
      = queuedFor p (inboxes.set i (p, items')) + lost := by
  have hset := queuedFor_set (p := p) h items'
  simp only [if_true, hitems, ← Multiset.coe_add, ← add_assoc] at hset
  exact (add_right_cancel hset).symm

-- ============================================================== what is sent

/-- The datagrams of a turn are the ones in its events. -/
theorem payloads_clientTurn (peer : ClientPeer Ip) (origin : Origin)
    (out : List PushedPacket) :
    (out.filterMap peer.sendDatagram).filterMap (payloadFor p)
      = (out.map (peer.sendEvent origin)).filterMap (sentToServer p) := by
  rw [List.filterMap_filterMap, List.filterMap_map]
  congr 1
  funext sent
  obtain ⟨packet, dir⟩ := sent
  cases dir with
  | toClient => rfl
  | toServer => exact payloadFor_encode ⟨peer.peerId, packet⟩

theorem payloads_serverTurn (peer : ServerPeer Ip) (origin : Origin)
    (out : List PushedPacket) :
    (out.filterMap peer.sendDatagram).filterMap (payloadFor p)
      = (out.map (peer.sendEvent origin)).filterMap (sentToClient p) := by
  rw [List.filterMap_filterMap, List.filterMap_map]
  congr 1
  funext sent
  obtain ⟨packet, dir⟩ := sent
  cases dir with
  | toServer => rfl
  | toClient => exact payloadFor_encode ⟨peer.peerId, packet⟩

/-- A task sends on one path only. -/
theorem clientTurn_sent_other (peer : ClientPeer Ip) (origin : Origin)
    (out : List PushedPacket) :
    (out.map (peer.sendEvent origin)).filterMap (sentToClient p) = []
    ∧ (out.map (peer.sendEvent origin)).filterMap (relayedToServer p)
      = [] :=
  ⟨filterMap_sends (fun _ dir => by cases dir <;> rfl) out,
    filterMap_sends (fun _ dir => by cases dir <;> rfl) out⟩

theorem serverTurn_sent_other (peer : ServerPeer Ip) (origin : Origin)
    (out : List PushedPacket) :
    (out.map (peer.sendEvent origin)).filterMap (sentToServer p) = []
    ∧ (out.map (peer.sendEvent origin)).filterMap (relayedToClient p)
      = [] :=
  ⟨filterMap_sends (fun _ dir => by cases dir <;> rfl) out,
    filterMap_sends (fun _ dir => by cases dir <;> rfl) out⟩

-- ========================================================= what is delivered

/-- What a task's own state pushed is not relayed. -/
theorem clientTurn_own (peer : ClientPeer Ip) (out : List PushedPacket) :
    (out.map (peer.sendEvent .own)).filterMap (relayedToClient p) = [] :=
  filterMap_sends (fun _ dir => by cases dir <;> rfl) out

theorem serverTurn_own (peer : ServerPeer Ip) (out : List PushedPacket) :
    (out.map (peer.sendEvent .own)).filterMap (relayedToServer p) = [] :=
  filterMap_sends (fun _ dir => by cases dir <;> rfl) out

/-- What a task relays it relays under its own id. -/
theorem clientTurn_relayed (peer : ClientPeer Ip) (origin : Origin)
    (out : List PushedPacket) :
    (out.map (peer.sendEvent origin)).filterMap (relayedToClient p)
      = if peer.peerId = p then (out.map (peer.sendEvent origin)).filterMap
          (relayedToClient peer.peerId) else [] := by
  by_cases hid : peer.peerId = p
  · rw [if_pos hid, hid]
  · rw [if_neg hid]
    refine filterMap_sends ?_ out
    intro packet dir
    cases dir with
    | toServer => rfl
    | toClient =>
        cases origin with
        | own => rfl
        | relayed => exact if_neg hid

theorem serverTurn_relayed (peer : ServerPeer Ip) (origin : Origin)
    (out : List PushedPacket) :
    (out.map (peer.sendEvent origin)).filterMap (relayedToServer p)
      = if peer.peerId = p then (out.map (peer.sendEvent origin)).filterMap
          (relayedToServer peer.peerId) else [] := by
  by_cases hid : peer.peerId = p
  · rw [if_pos hid, hid]
  · rw [if_neg hid]
    refine filterMap_sends ?_ out
    intro packet dir
    cases dir with
    | toClient => rfl
    | toServer =>
        cases origin with
        | own => rfl
        | relayed => exact if_neg hid

/-- Nor does it touch the queue from the other side, but by ending. -/
theorem clientSelect_own {peer : ClientPeer Ip}
    {proxyState : ClientProxyState} {worldDataDone : Bool}
    {turn : ClientTurn} (hturn : ClientPeer.origin turn = .own) :
    (peer.select proxyState worldDataDone turn).1.serverReceiveQueue
        = peer.serverReceiveQueue
    ∨ (peer.select proxyState worldDataDone turn).1.serverReceiveQueue
        = peer.serverReceiveQueue.close := by
  cases turn with
  | serverQueue => cases hturn
  | idle => exact Or.inr rfl
  | clientQueue elapsedAt now =>
      rw [ClientPeer.select]
      cases peer.clientReceiveQueue.recv with
      | waits => exact Or.inl rfl
      | ended => exact Or.inr rfl
      | item packet rest => exact Or.inl rfl
  | worldData newData now =>
      rw [ClientPeer.select]
      split <;> exact Or.inl rfl

theorem serverSelect_own [DecidableEq Ip] {peer : ServerPeer Ip}
    {proxyState : ServerProxyState} {turn : ServerTurn Ip}
    (hturn : ServerPeer.origin turn = .own) :
    (peer.select proxyState turn).1.receiveQueue = peer.receiveQueue
    ∨ (peer.select proxyState turn).1.receiveQueue
        = peer.receiveQueue.close := by
  cases turn with
  | queue => cases hturn
  | idle | socketError => exact Or.inr rfl
  | socket remoteAddr delivery =>
      rw [ServerPeer.select]
      split
      case isTrue => exact Or.inl rfl
      case isFalse =>
        cases proxyState.onPacketFromServer delivery with
        | none => exact Or.inr rfl
        | some result => exact Or.inl rfl

/-- A turn of the client's task, seen from its queue: what was in it was
relayed, was lost, or is still there. -/
theorem clientTurn_inbox (peer : ClientPeer Ip)
    (proxyState : ClientProxyState) (worldDataDone : Bool)
    (turn : ClientTurn) (sends : Nat) :
    ∃ lost, peer.serverReceiveQueue.items
      = (((peer.select proxyState worldDataDone turn).2.take sends).map
          (peer.sendEvent (ClientPeer.origin turn))).filterMap
          (relayedToClient peer.peerId)
        ++ lost
        ++ (PeerNet.afterTurn sends (peer.select proxyState worldDataDone
          turn)).serverReceiveQueue.items := by
  cases horigin : ClientPeer.origin turn with
  | own =>
      simp only [clientTurn_own, List.nil_append]
      unfold PeerNet.afterTurn
      split
      case isTrue => exact ⟨_, (List.append_nil _).symm⟩
      case isFalse =>
        rcases @clientSelect_own Ip peer proxyState worldDataDone turn
          horigin with hsame | hclosed
        · rw [hsame]
          exact ⟨[], rfl⟩
        · rw [hclosed]
          exact ⟨_, (List.append_nil _).symm⟩
  | relayed =>
      cases turn with
      | clientQueue | worldData | idle => cases horigin
      | serverQueue =>
          rw [ClientPeer.select]
          cases hrecv : peer.serverReceiveQueue.recv with
          | waits => exact ⟨[], by simp [PeerNet.afterTurn]⟩
          | ended =>
              exact ⟨peer.serverReceiveQueue.items,
                by simp [PeerNet.afterTurn, ClientPeer.finish]⟩
          | item packet rest =>
              rw [BoundedQueue.items_of_recv hrecv]
              cases sends with
              | zero => exact ⟨_, (List.append_nil _).symm⟩
              | succ sends =>
                  exact ⟨[], by simp [ClientPeer.sendEvent, relayedToClient,
                    PeerNet.afterTurn]⟩

/-- The same on the server's side. -/
theorem serverTurn_inbox [DecidableEq Ip] (peer : ServerPeer Ip)
    (proxyState : ServerProxyState) (turn : ServerTurn Ip) (sends : Nat) :
    ∃ lost, peer.receiveQueue.items
      = (((ServerPeer.outPackets (peer.select proxyState turn).2).take
          sends).map (peer.sendEvent (ServerPeer.origin turn))).filterMap
          (relayedToServer peer.peerId)
        ++ lost
        ++ (PeerNet.afterServerTurn sends
          (peer.select proxyState turn)).receiveQueue.items := by
  cases horigin : ServerPeer.origin turn with
  | own =>
      simp only [serverTurn_own, List.nil_append]
      unfold PeerNet.afterServerTurn
      split
      case isTrue => exact ⟨_, (List.append_nil _).symm⟩
      case isFalse =>
        rcases @serverSelect_own Ip _ peer proxyState turn horigin with
          hsame | hclosed
        · rw [hsame]
          exact ⟨[], rfl⟩
        · rw [hclosed]
          exact ⟨_, (List.append_nil _).symm⟩
  | relayed =>
      cases turn with
      | socket | socketError | idle => cases horigin
      | queue =>
          rw [ServerPeer.select]
          cases hrecv : peer.receiveQueue.recv with
          | waits =>
              exact ⟨[], by simp [PeerNet.afterServerTurn,
                ServerPeer.outPackets]⟩
          | ended =>
              exact ⟨peer.receiveQueue.items, by
                simp [PeerNet.afterServerTurn, ServerPeer.outPackets,
                  ServerPeer.finish]⟩
          | item packet rest =>
              rw [BoundedQueue.items_of_recv hrecv]
              cases sends with
              | zero => exact ⟨_, (List.append_nil _).symm⟩
              | succ sends =>
                  exact ⟨[], by simp [ServerPeer.sendEvent, relayedToServer,
                    PeerNet.afterServerTurn, ServerPeer.outPackets]⟩

-- ============================================================ moves of paths

/-- A task takes from its queue, relays some and loses some. -/
theorem moves_inbox {inboxes : List (VarInt × List Bytes)} {i : Nat}
    {id : VarInt} {items items' relayed lost : List Bytes}
    (h : inboxes[i]? = some (id, items))
    (hitems : items = relayed ++ lost ++ items')
    (sent inFlight delivered : Multiset Bytes) :
    Path.Moves ⟨sent, inFlight, queuedFor p inboxes, delivered⟩
      ⟨sent, inFlight, queuedFor p (inboxes.set i (id, items')),
        delivered + (if id = p then relayed else [] : List Bytes)⟩ := by
  by_cases hid : id = p
  · subst hid
    rw [if_pos rfl, queuedFor_set_lost h hitems, ← Multiset.coe_add,
      ← add_assoc]
    refine .trans (Path.moves_drops _ _ _ _ lost) ?_
    exact Path.moves_delivers _ _ _ _ relayed
  · rw [if_neg hid, queuedFor_set_of_ne h hid]
    exact .of_eq (by simp)

/-- A task ends and drops what is in its queue. -/
theorem moves_closed {inboxes : List (VarInt × List Bytes)} {i : Nat}
    {id : VarInt} {items : List Bytes} (h : inboxes[i]? = some (id, items))
    (sent inFlight delivered : Multiset Bytes) :
    Path.Moves ⟨sent, inFlight, queuedFor p inboxes, delivered⟩
      ⟨sent, inFlight, queuedFor p (inboxes.set i (id, [])),
        delivered⟩ := by
  have hitems : items = [] ++ items ++ [] := (List.append_nil _).symm
  have hmoves := moves_inbox (p := p) h hitems sent inFlight delivered
  rwa [ite_self, Multiset.coe_nil, add_zero] at hmoves

/-- A loop reads a datagram and puts what is in it into a queue with its
id, or drops it. -/
theorem moves_dispatch {flight : List Bytes} {n : Nat} {d : Datagram}
    (hd : flight[n]? = some d.encode)
    {inboxes inboxes' : List (VarInt × List Bytes)}
    (hin : inboxes' = inboxes
      ∨ ∃ (i : Nat) (items : List Bytes),
        inboxes[i]? = some (d.peerId, items)
        ∧ inboxes' = inboxes.set i (d.peerId, items ++ [d.data]))
    (sent delivered : Multiset Bytes) :
    Path.Moves
      ⟨sent, flight.filterMap (payloadFor p), queuedFor p inboxes, delivered⟩
      ⟨sent, (flight.eraseIdx n).filterMap (payloadFor p),
        queuedFor p inboxes', delivered⟩ := by
  have hflight : (flight.filterMap (payloadFor p) : Multiset Bytes)
      = ((d.encode :: flight.eraseIdx n).filterMap (payloadFor p)) := by
    obtain ⟨hn, hget⟩ := List.getElem?_eq_some_iff.1 hd
    rw [← hget]
    exact Multiset.coe_eq_coe.2
      ((List.getElem_cons_eraseIdx_perm hn).symm.filterMap _)
  rw [hflight, List.filterMap_cons, payloadFor_encode]
  by_cases hid : d.peerId = p
  · -- it is this peer's: it arrives or is lost
    subst hid
    simp only [if_true, ← Multiset.cons_coe]
    rcases hin with rfl | ⟨i, items, hi, rfl⟩
    · exact .single (.lose _)
    · have hset := queuedFor_set (p := d.peerId) hi (items ++ [d.data])
      simp only [if_true, ← Multiset.coe_add] at hset
      rw [add_comm (items : Multiset Bytes), ← add_assoc] at hset
      rw [add_right_cancel hset, add_comm]
      exact .single (.arrive _)
  · simp only [hid, if_false]
    apply Path.Moves.of_eq
    rcases hin with rfl | ⟨i, items, hi, rfl⟩
    · rfl
    · rw [queuedFor_set_of_ne hi hid]

/-- Events that say nothing about a path. -/
theorem Path.of_quiet {sent delivered : NetEvent Ip → Option Bytes}
    {trace events : List (NetEvent Ip)} (hsent : events.filterMap sent = [])
    (hdelivered : events.filterMap delivered = [])
    (inFlight queued : Multiset Bytes) :
    (⟨trace.filterMap sent, inFlight, queued, trace.filterMap delivered⟩
      : Path Bytes)
      = ⟨(trace ++ events).filterMap sent, inFlight, queued,
        (trace ++ events).filterMap delivered⟩ := by
  simp only [List.filterMap_append, hsent, hdelivered, List.append_nil]

-- ================================================================= the turns

section Turns

variable {s : PeerNet Ip} {i : Nat} {sends : Nat}

theorem peerId_afterTurn {peer : ClientPeer Ip}
    {proxyState : ClientProxyState} {worldDataDone : Bool}
    (htask : peer.task = .running proxyState worldDataDone)
    (turn : ClientTurn) :
    (PeerNet.afterTurn sends
      (peer.select proxyState worldDataDone turn)).peerId = peer.peerId :=
  (continues_afterTurn htask turn sends).peerId

/-- A turn of the client's task sends on the way up. -/
theorem up_clientTurn (trace : List (NetEvent Ip)) (turn : ClientTurn) :
    Path.Moves (upPath p s trace) (upPath p (s.clientTurn i turn sends).1
      (trace ++ (s.clientTurn i turn sends).2)) := by
  rcases s.clientTurn_cases i turn sends with
    heq | ⟨peer, proxyState, worldDataDone, -, -, heq⟩
  · rw [heq, List.append_nil]
  · rw [heq]
    have hquiet := (clientTurn_sent_other (p := p) peer
      (ClientPeer.origin turn) ((peer.select proxyState worldDataDone
        turn).2.take sends)).2
    simp only [upPath, List.filterMap_append, hquiet, List.append_nil,
      payloads_clientTurn peer (ClientPeer.origin turn),
      ← Multiset.coe_add]
    exact Path.moves_sends ..

/-- And relays what came down to it. -/
theorem down_clientTurn (trace : List (NetEvent Ip)) (turn : ClientTurn) :
    Path.Moves (downPath p s trace)
      (downPath p (s.clientTurn i turn sends).1
        (trace ++ (s.clientTurn i turn sends).2)) := by
  rcases s.clientTurn_cases i turn sends with
    heq | ⟨peer, proxyState, worldDataDone, hpeer, htask, heq⟩
  · rw [heq, List.append_nil]
  · rw [heq]
    have hquiet := (clientTurn_sent_other (p := p) peer
      (ClientPeer.origin turn) ((peer.select proxyState worldDataDone
        turn).2.take sends)).1
    have hinbox : (s.client.peers.map clientInbox)[i]?
        = some (peer.peerId, peer.serverReceiveQueue.items) := by
      rw [List.getElem?_map, hpeer]
      rfl
    obtain ⟨lost, hitems⟩ := clientTurn_inbox peer proxyState worldDataDone
      turn sends
    simp only [downPath, ClientLoop.setPeer, List.filterMap_append, hquiet,
      List.append_nil, List.map_set, clientInbox, peerId_afterTurn htask]
    rw [← Multiset.coe_add, clientTurn_relayed]
    exact moves_inbox hinbox hitems _ _ _

/-- A turn of the server's task sends on the way down. -/
theorem down_serverTurn [DecidableEq Ip] (trace : List (NetEvent Ip))
    (turn : ServerTurn Ip) :
    Path.Moves (downPath p s trace)
      (downPath p (s.serverTurn i turn sends).1
        (trace ++ (s.serverTurn i turn sends).2)) := by
  rcases s.serverTurn_cases i turn sends with
    heq | ⟨peer, proxyState, -, -, heq⟩
  · rw [heq, List.append_nil]
  · rw [heq]
    have hquiet := (serverTurn_sent_other (p := p) peer
      (ServerPeer.origin turn) ((ServerPeer.outPackets
        (peer.select proxyState turn).2).take sends)).2
    have hsent := filterMap_serverTurn (f := sentToClient p)
      (fun _ _ _ => rfl) (fun _ _ => rfl) peer turn
    have hrelayed := filterMap_serverTurn (f := relayedToClient p)
      (fun _ _ _ => rfl) (fun _ _ => rfl) peer turn
    simp only [downPath, hsent, hrelayed, hquiet, List.append_nil]
    rw [List.filterMap_append, payloads_serverTurn peer
      (ServerPeer.origin turn), ← Multiset.coe_add, ← Multiset.coe_add]
    exact Path.moves_sends ..

/-- And relays what came up to it. -/
theorem up_serverTurn [DecidableEq Ip] (trace : List (NetEvent Ip))
    (turn : ServerTurn Ip) :
    Path.Moves (upPath p s trace) (upPath p (s.serverTurn i turn sends).1
      (trace ++ (s.serverTurn i turn sends).2)) := by
  rcases s.serverTurn_cases i turn sends with
    heq | ⟨peer, proxyState, hpeer, -, heq⟩
  · rw [heq, List.append_nil]
  · rw [heq]
    have hquiet := (serverTurn_sent_other (p := p) peer
      (ServerPeer.origin turn) ((ServerPeer.outPackets
        (peer.select proxyState turn).2).take sends)).1
    have hinbox : (s.server.peers.map serverInbox)[i]?
        = some (peer.peerId, peer.receiveQueue.items) := by
      rw [List.getElem?_map, hpeer]
      rfl
    obtain ⟨lost, hitems⟩ := serverTurn_inbox peer proxyState turn sends
    have hsent := filterMap_serverTurn (f := sentToServer p)
      (fun _ _ _ => rfl) (fun _ _ => rfl) peer turn
    have hrelayed := filterMap_serverTurn (f := relayedToServer p)
      (fun _ _ _ => rfl) (fun _ _ => rfl) peer turn
    simp only [upPath, ServerLoop.setPeer, hsent, hrelayed, hquiet,
      List.append_nil, List.map_set, serverInbox, peerId_afterServerTurn]
    rw [← Multiset.coe_add, serverTurn_relayed]
    exact moves_inbox hinbox hitems _ _ _

end Turns

-- ================================================================= the loops

section Loops

theorem inboxes_offer {loop : ClientLoop Ip} {i : Nat}
    {peer : ClientPeer Ip} (hpeer : loop.peers[i]? = some peer)
    (addr : SocketAddr Ip) (packet : Bytes) :
    (loop.offer i peer addr packet).1.peers.map clientInbox
      = loop.peers.map clientInbox :=
  map_set_of_eq hpeer rfl

/-- A packet at the client's socket touches no queue from the other
side. -/
theorem queuedFor_onPacket [DecidableEq Ip] (loop : ClientLoop Ip)
    (addr : SocketAddr Ip) (packet : Bytes) :
    queuedFor p ((loop.onPacket addr packet).1.peers.map clientInbox)
      = queuedFor p (loop.peers.map clientInbox) := by
  rw [ClientLoop.onPacket]
  cases hqueue : loop.queueOf addr with
  | some found =>
      obtain ⟨i, peer⟩ := found
      dsimp only
      rw [inboxes_offer (peers_of_queueOf hqueue)]
  | none =>
      dsimp only
      split
      case isTrue => rfl
      case isFalse =>
        have hnew : (loop.addPeer addr).peers[loop.peers.length]?
            = some (.new (peerIdOf loop.nextPeerId) addr) :=
          getElem?_snoc_iff.2 (Or.inr ⟨rfl, rfl⟩)
        rw [inboxes_offer hnew, ClientLoop.addPeer, List.map_append]
        exact queuedFor_snoc_empty ..

/-- A new peer of the server's side has nothing queued. -/
theorem queuedFor_addPeer (loop : ServerLoop Ip) (id : VarInt) :
    queuedFor p ((loop.addPeer id).peers.map serverInbox)
      = queuedFor p (loop.peers.map serverInbox) := by
  have hdrop : (loop.dropSender id).peers.map serverInbox
      = loop.peers.map serverInbox := by
    unfold ServerLoop.dropSender
    split
    case h_1 => rfl
    case h_2 i _ =>
      split
      case h_1 => rfl
      case h_2 peer hpeer => exact map_set_of_eq hpeer rfl
  rw [ServerLoop.addPeer, List.map_append, hdrop]
  exact queuedFor_snoc_empty ..

theorem inboxes_fail (loop : ServerLoop Ip) (error : LoopError) :
    (loop.fail error).peers.map serverInbox
      = loop.peers.map serverInbox := by
  rw [ServerLoop.fail, List.map_map]
  rfl

theorem inboxes_onLanPacket [DecidableEq Ip] (loop : ServerLoop Ip)
    (addr : SocketAddr Ip) (packet : Bytes) :
    (loop.onLanPacket addr packet).peers.map serverInbox
      = loop.peers.map serverInbox := by
  unfold ServerLoop.onLanPacket
  split
  case h_1 =>
    dsimp only
    split <;> rfl
  case h_2 => rfl

/-- A datagram that is read goes to a queue of its id, or nowhere. -/
theorem inboxes_onDatagram {loop : ClientLoop Ip} (h : ClientInv loop)
    (d : Datagram) :
    (loop.onDatagram d.encode).peers.map clientInbox
        = loop.peers.map clientInbox
    ∨ ∃ (i : Nat) (items : List Bytes),
      (loop.peers.map clientInbox)[i]? = some (d.peerId, items)
      ∧ (loop.onDatagram d.encode).peers.map clientInbox
        = (loop.peers.map clientInbox).set i
          (d.peerId, items ++ [d.data]) := by
  rcases loop.onDatagram_cases d with heq | ⟨i, peer, hlookup, hpeer, heq⟩
  · exact Or.inl (by rw [heq])
  · have hid : peer.peerId = d.peerId := by
      have hget := (h.byId d.peerId i).1 hlookup
      rw [List.getElem?_map, hpeer] at hget
      exact Option.some.inj hget
    rw [heq]
    simp only [ClientLoop.setPeer]
    by_cases haccepts : peer.serverReceiveQueue.Accepts
    · refine Or.inr ⟨i, peer.serverReceiveQueue.items, ?_, ?_⟩
      · rw [List.getElem?_map, hpeer, ← hid]
        rfl
      · rw [List.map_set, ← hid]
        simp only [clientInbox, BoundedQueue.items_trySend, if_pos haccepts]
    · refine Or.inl (map_set_of_eq hpeer ?_)
      simp only [clientInbox, BoundedQueue.items_trySend, if_neg haccepts]

theorem serverInboxes_onDatagram {loop : ServerLoop Ip} (h : ServerInv loop)
    (d : Datagram) :
    (loop.onDatagram d.encode).peers.map serverInbox
        = loop.peers.map serverInbox
    ∨ ∃ (i : Nat) (items : List Bytes),
      (loop.peers.map serverInbox)[i]? = some (d.peerId, items)
      ∧ (loop.onDatagram d.encode).peers.map serverInbox
        = (loop.peers.map serverInbox).set i
          (d.peerId, items ++ [d.data]) := by
  rcases loop.onDatagram_cases d with heq | ⟨i, peer, hlookup, hpeer, heq⟩
  · exact Or.inl (by rw [heq])
  · have hid : peer.peerId = d.peerId := by
      have hget := (h d.peerId i).1 hlookup
      rw [List.getElem?_map, hpeer] at hget
      exact Option.some.inj hget
    rw [heq]
    simp only [ServerLoop.setPeer]
    by_cases haccepts : peer.receiveQueue.Accepts
    · refine Or.inr ⟨i, peer.receiveQueue.items, ?_, ?_⟩
      · rw [List.getElem?_map, hpeer, ← hid]
        rfl
      · rw [List.map_set, ← hid]
        simp only [serverInbox, BoundedQueue.items_trySend, if_pos haccepts]
    · refine Or.inl (map_set_of_eq hpeer ?_)
      simp only [serverInbox, BoundedQueue.items_trySend, if_neg haccepts]

end Loops

-- ================================================================ every step

section Steps

variable {s : PeerNet Ip}

/-- A datagram is lost. -/
theorem moves_lose {flight : List Bytes}
    (hflight : ∀ data ∈ flight, ∃ d : Datagram, data = d.encode) (n : Nat)
    (sent delivered : Multiset Bytes)
    (inboxes : List (VarInt × List Bytes)) :
    Path.Moves
      ⟨sent, flight.filterMap (payloadFor p), queuedFor p inboxes, delivered⟩
      ⟨sent, (flight.eraseIdx n).filterMap (payloadFor p),
        queuedFor p inboxes, delivered⟩ := by
  cases hdata : flight[n]? with
  | none =>
      rw [List.eraseIdx_of_length_le (List.getElem?_eq_none_iff.1 hdata)]
  | some data =>
      obtain ⟨d, rfl⟩ := hflight data (List.mem_of_getElem? hdata)
      exact moves_dispatch hdata (Or.inl rfl) _ _

/-- What happens on the client's side, on the way up. -/
theorem up_clientStep [DecidableEq Ip] (trace : List (NetEvent Ip))
    (action : NetAction Ip) :
    Path.Moves (upPath p s trace) (upPath p (s.clientStep action).1
      (trace ++ (s.clientStep action).2)) := by
  have hstay : Path.Moves (upPath p s trace) (upPath p s (trace ++ [])) :=
    .of_eq (by rw [List.append_nil])
  cases action with
  | clientPacket addr packet =>
      obtain ⟨takenBy, hevents⟩ := onPacket_events s.client addr packet
      apply Path.Moves.of_eq
      simp only [PeerNet.clientStep, hevents]
      exact Path.of_quiet rfl rfl _ _
  | clientDatagram n =>
      rw [PeerNet.clientStep]
      cases s.toClient[n]? <;> exact hstay
  | openStream i opened now =>
      rw [PeerNet.clientStep]
      rcases s.openStream_cases i opened now with
        heq | ⟨peer, -, -, heq | heq⟩
      all_goals
        simp only [heq]
        exact hstay
  | clientTurn i turn sends => exact up_clientTurn trace turn
  | _ => exact hstay

/-- What happens on the client's side, on the way down. -/
theorem down_clientStep [DecidableEq Ip] (h : NetInv s)
    (trace : List (NetEvent Ip)) (action : NetAction Ip) :
    Path.Moves (downPath p s trace) (downPath p (s.clientStep action).1
      (trace ++ (s.clientStep action).2)) := by
  have hstay : Path.Moves (downPath p s trace)
      (downPath p s (trace ++ [])) := .of_eq (by rw [List.append_nil])
  cases action with
  | clientPacket addr packet =>
      obtain ⟨takenBy, hevents⟩ := onPacket_events s.client addr packet
      apply Path.Moves.of_eq
      simp only [PeerNet.clientStep, hevents, downPath, queuedFor_onPacket]
      exact Path.of_quiet rfl rfl _ _
  | clientDatagram n =>
      rw [PeerNet.clientStep]
      cases hdata : s.toClient[n]? with
      | none => exact hstay
      | some data =>
          obtain ⟨d, rfl⟩ := h.toClient data (List.mem_of_getElem? hdata)
          rw [List.append_nil]
          exact moves_dispatch hdata (inboxes_onDatagram h.client d) _ _
  | openStream i opened now =>
      rw [PeerNet.clientStep]
      rcases s.openStream_cases i opened now with
        heq | ⟨peer, hpeer, -, heq | heq⟩
      · simp only [heq]
        exact hstay
      · have hsame : (s.client.setPeer i
            { peer with task := .running (.new now) false }).peers.map
              clientInbox = s.client.peers.map clientInbox :=
          map_set_of_eq hpeer rfl
        simp only [heq, List.append_nil, downPath, hsame]
        exact .refl
      · -- the task ends and drops what it has
        have hinbox : (s.client.peers.map clientInbox)[i]?
            = some (peer.peerId, peer.serverReceiveQueue.items) := by
          rw [List.getElem?_map, hpeer]
          rfl
        simp only [heq, List.append_nil, downPath, ClientLoop.setPeer,
          List.map_set]
        exact moves_closed hinbox _ _ _
  | clientTurn i turn sends => exact down_clientTurn trace turn
  | _ => exact hstay

/-- What the loop of the server's side does, on the way up. -/
theorem up_serverLoopStep (h : NetInv s) (trace : List (NetEvent Ip))
    (action : NetAction Ip) :
    Path.Moves (upPath p s trace)
      (upPath p (s.serverLoopStep action) trace) := by
  cases action with
  | serverDatagram n =>
      rw [PeerNet.serverLoopStep]
      cases hdata : s.toServer[n]? with
      | none => exact .refl
      | some data =>
          obtain ⟨d, rfl⟩ := h.toServer data (List.mem_of_getElem? hdata)
          exact moves_dispatch hdata (serverInboxes_onDatagram h.server d)
            _ _
  | acceptStream n bound =>
      rw [PeerNet.serverLoopStep]
      cases s.streams[n]? with
      | none => exact .refl
      | some id =>
          apply Path.Moves.of_eq
          cases bound with
          | true => simp only [upPath, if_true, queuedFor_addPeer]
          | false =>
              simp only [upPath, Bool.false_eq_true, if_false,
                inboxes_fail]
  | serverReadError error =>
      apply Path.Moves.of_eq
      simp only [PeerNet.serverLoopStep, upPath, inboxes_fail]
  | _ => exact .refl

/-- On the way down it does nothing. -/
theorem down_serverLoopStep (trace : List (NetEvent Ip))
    (action : NetAction Ip) :
    downPath p (s.serverLoopStep action) trace = downPath p s trace := by
  cases action with
  | serverDatagram n =>
      rw [PeerNet.serverLoopStep]
      cases s.toServer[n]? <;> rfl
  | acceptStream n bound =>
      rw [PeerNet.serverLoopStep]
      cases s.streams[n]? <;> rfl
  | _ => rfl

/-- A step is some moves on the way up of every peer. -/
theorem up_act [DecidableEq Ip] (h : NetInv s) (trace : List (NetEvent Ip))
    (action : NetAction Ip) :
    Path.Moves (upPath p s trace)
      (upPath p (s.act action).1 (trace ++ (s.act action).2)) := by
  have hstay : Path.Moves (upPath p s trace) (upPath p s (trace ++ [])) :=
    .of_eq (by rw [List.append_nil])
  cases action with
  | clientPacket | clientDatagram | clientReadError | openStream
  | clientTurn =>
      rw [PeerNet.act]
      split
      case isTrue => exact hstay
      case isFalse => exact up_clientStep trace _
  | serverDatagram | acceptStream | serverReadError =>
      rw [PeerNet.act]
      split
      case isTrue => exact hstay
      case isFalse =>
        rw [List.append_nil]
        exact up_serverLoopStep h trace _
  | serverTurn i turn sends => exact up_serverTurn trace turn
  | lanPacket addr packet =>
      apply Path.Moves.of_eq
      simp only [PeerNet.act, upPath, List.append_nil, inboxes_onLanPacket]
  | loseToServer n =>
      rw [PeerNet.act, List.append_nil]
      exact moves_lose h.toServer n _ _ _
  | loseToClient n => exact hstay

/-- And on the way down. -/
theorem down_act [DecidableEq Ip] (h : NetInv s)
    (trace : List (NetEvent Ip)) (action : NetAction Ip) :
    Path.Moves (downPath p s trace)
      (downPath p (s.act action).1 (trace ++ (s.act action).2)) := by
  have hstay : Path.Moves (downPath p s trace)
      (downPath p s (trace ++ [])) := .of_eq (by rw [List.append_nil])
  cases action with
  | clientPacket | clientDatagram | clientReadError | openStream
  | clientTurn =>
      rw [PeerNet.act]
      split
      case isTrue => exact hstay
      case isFalse => exact down_clientStep h trace _
  | serverDatagram | acceptStream | serverReadError =>
      rw [PeerNet.act]
      split
      case isTrue => exact hstay
      case isFalse =>
        rw [List.append_nil]
        exact .of_eq (down_serverLoopStep trace _).symm
  | serverTurn i turn sends => exact down_serverTurn trace turn
  | lanPacket addr packet => exact hstay
  | loseToServer n => exact hstay
  | loseToClient n =>
      rw [PeerNet.act, List.append_nil]
      exact moves_lose h.toClient n _ _ _

end Steps

-- ================================================================= every run

/-- Every run moves along the paths. -/
theorem moves_run [DecidableEq Ip] (factorioAddress : SocketAddr Ip)
    (worldEstimate : UInt32 → UInt32) (actions : List (NetAction Ip)) :
    ∃ (s : PeerNet Ip) (trace : List (NetEvent Ip)),
      Machine.run PeerNet.step (.start factorioAddress worldEstimate) actions
        = some (s, trace)
      ∧ NetInv s
      ∧ ∀ p : VarInt, Path.Moves .unused (upPath p s trace)
        ∧ Path.Moves .unused (downPath p s trace) :=
  Machine.run_induction
    (fun s _ trace => NetInv s
      ∧ ∀ p, Path.Moves .unused (upPath p s trace)
        ∧ Path.Moves .unused (downPath p s trace))
    (C := fun _ _ => True)
    (fun _ _ trace action h _ => ⟨_, _, rfl, h.1.act action,
      fun p => ⟨(h.2 p).1.trans (up_act h.1 trace action),
        (h.2 p).2.trans (down_act h.1 trace action)⟩⟩)
    (Machine.stepsMeet_of PeerNet.step (fun _ _ _ => trivial) _)
    ⟨netInv_start factorioAddress worldEstimate, fun _ => ⟨.refl, .refl⟩⟩

/-- One connection carries the packets of each peer as a path of its own
would, in both directions, however everything is interleaved. So under
every id, what the server's task relays to the game server are packets
the client's task sent under that id, each at most once, and the other
way round. -/
theorem peer_paths [DecidableEq Ip] (factorioAddress : SocketAddr Ip)
    (worldEstimate : UInt32 → UInt32) (actions : List (NetAction Ip)) :
    ∃ (s : PeerNet Ip) (trace : List (NetEvent Ip)),
      Machine.run PeerNet.step (.start factorioAddress worldEstimate) actions
        = some (s, trace)
      ∧ ∀ p : VarInt,
        Path.Moves .unused (upPath p s trace)
        ∧ Path.Moves .unused (downPath p s trace)
        ∧ (trace.filterMap (relayedToServer p)).Subperm
          (trace.filterMap (sentToServer p))
        ∧ (trace.filterMap (relayedToClient p)).Subperm
          (trace.filterMap (sentToClient p)) := by
  obtain ⟨s, trace, hrun, -, hmoves⟩ := moves_run factorioAddress
    worldEstimate actions
  refine ⟨s, trace, hrun, fun p => ⟨(hmoves p).1, (hmoves p).2, ?_, ?_⟩⟩
  · exact Multiset.coe_le.1 (Path.delivered_le (hmoves p).1)
  · exact Multiset.coe_le.1 (Path.delivered_le (hmoves p).2)

end FactoryCacher
