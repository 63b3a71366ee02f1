/-
Every task runs the machine of its peer, however the tasks are
interleaved.

The modules about one peer (BlockServing, WorldDownload, DownloadWindow,
Announcement and the others) are about runs of `ClientProxyState.step`
and `ServerProxyState.onPacketFromServer`. Here these runs are found in
the system: what a task has sent of its own is what such a run has
emitted, and the inputs of that run are what came to the peer.

# The history of a task

- On the client's side: the packets its queue took, in order, without
  those still in the queue, and pieces of world data, none after the
  end. All of the packets came from the peer's address, and all that was
  sent to a game client went there.
- On the server's side: every packet that came to the peer's socket from
  the address of the game server. Everything sent to a game server went
  to that address.

A task that returned may have emitted more than it could send; it sent a
part from the front. No packet of a game server makes a task panic, so a
returned task has handled all that came.

# The proof

The parties of `Lib/Histories.lean` are the peers of one side, with the
id as the key. A step is then about one peer, and the machine of that
peer makes one step or none.
-/
import FactoryCacher.Lib.Histories
import FactoryCacher.Factorio.Proofs.Forwarding
import FactoryCacher.Factorio.Proofs.PeerRegistry

namespace FactoryCacher

open ServerProxyState

variable {Ip : Type}

-- ===================================================== what events are about

namespace NetEvent

/-- The peer of the client's side an event is about. -/
def clientPeer : NetEvent Ip → Option VarInt
  | .fromGameClient _ _ takenBy => takenBy
  | .toGameClient peerId .. => some peerId
  | .datagramToServer peerId _ => some peerId
  | _ => none

/-- The peer of the server's side an event is about. -/
def serverPeer : NetEvent Ip → Option VarInt
  | .fromGameServer peerId .. => some peerId
  | .toGameServer peerId .. => some peerId
  | .datagramToClient peerId _ => some peerId
  | .transfer peerId _ => some peerId
  | _ => none

/-- The address of a game client in an event. -/
def gameClient : NetEvent Ip → Option (SocketAddr Ip)
  | .fromGameClient peerAddr .. => some peerAddr
  | .toGameClient _ peerAddr .. => some peerAddr
  | _ => none

/-- The address something is sent to for the game server. -/
def gameServer : NetEvent Ip → Option (SocketAddr Ip)
  | .toGameServer _ factorioAddr .. => some factorioAddr
  | _ => none

/-- A packet from a game client. -/
def taken : NetEvent Ip → Option Bytes
  | .fromGameClient _ packet _ => some packet
  | _ => none

/-- A packet a client's task sent and its own state had pushed. -/
def clientPushed : NetEvent Ip → Option PushedPacket
  | .toGameClient _ _ .own packet => some (packet, .toClient)
  | .datagramToServer _ packet => some (packet, .toServer)
  | _ => none

/-- A packet from a game server's address. -/
def deliveredFrom [DecidableEq Ip] (addr : SocketAddr Ip) :
    NetEvent Ip → Option Delivery
  | .fromGameServer _ remoteAddr delivery =>
      if remoteAddr = addr then some delivery else none
  | _ => none

/-- A packet a server's task sent and its own state had pushed. -/
def serverPushed : NetEvent Ip → Option PushedPacket
  | .toGameServer _ _ .own packet => some (packet, .toServer)
  | .datagramToClient _ packet => some (packet, .toClient)
  | _ => none

/-- A download that was handed over. -/
def handedOver : NetEvent Ip → Option DownloadingWorldState
  | .transfer _ state => some state
  | _ => none

end NetEvent

-- ======================================================== the client's tasks

/-- The packets among the inputs of a client's state. -/
def packetsOf (inputs : List ClientInput) : List Bytes :=
  inputs.filterMap fun input =>
    match input with
    | .packet packetData _ _ => some packetData
    | .worldData .. => none

/-- The world data among them. -/
def piecesOf (inputs : List ClientInput) : List (Option Bytes) :=
  inputs.filterMap fun input =>
    match input with
    | .packet .. => none
    | .worldData newData _ => some newData

/-- A run of the client's state over the packets taken but not waiting,
and world data up to its end if `done`. -/
def ClientRun (taken : List Bytes) (pushed : List PushedPacket)
    (waiting : List Bytes) (proxyState : ClientProxyState) (done : Bool) :
    Prop :=
  ∃ (now : Nat) (inputs : List ClientInput) (pieces : List Bytes),
    Machine.run ClientProxyState.step (.new now) inputs
      = some (proxyState, pushed)
    ∧ taken = packetsOf inputs ++ waiting
    ∧ piecesOf inputs = pieces.map some ++ if done then [none] else []

namespace ClientRun

variable {taken waiting : List Bytes} {pushed : List PushedPacket}
  {proxyState : ClientProxyState} {done : Bool} {packetData : Bytes}

theorem new (taken : List Bytes) (now : Nat) :
    ClientRun taken [] taken (.new now) false :=
  ⟨now, [], [], rfl, rfl, rfl⟩

/-- The queue takes a packet. -/
theorem take (h : ClientRun taken pushed waiting proxyState done)
    (packet : Bytes) : ClientRun (taken ++ [packet]) pushed
      (waiting ++ [packet]) proxyState done := by
  obtain ⟨now, inputs, pieces, hrun, htaken, hpieces⟩ := h
  refine ⟨now, inputs, pieces, hrun, ?_, hpieces⟩
  rw [htaken, List.append_assoc]

/-- The task handles a packet. -/
theorem packet
    (h : ClientRun taken pushed (packetData :: waiting) proxyState done)
    (elapsedAt now : Nat) :
    ClientRun taken
      (pushed
        ++ (proxyState.onPacketFromClient packetData elapsedAt now).2)
      waiting (proxyState.onPacketFromClient packetData elapsedAt now).1
      done := by
  obtain ⟨start, inputs, pieces, hrun, htaken, hpieces⟩ := h
  refine ⟨start, inputs ++ [.packet packetData elapsedAt now], pieces,
    Machine.run_snoc hrun rfl, ?_, ?_⟩
  · rw [htaken, packetsOf, packetsOf, List.filterMap_append,
      List.append_assoc]
    rfl
  · rw [piecesOf, List.filterMap_append] at *
    rw [hpieces]
    exact List.append_nil _

/-- The task gets world data, which has not ended. -/
theorem worldData (h : ClientRun taken pushed waiting proxyState false)
    (newData : Option Bytes) (now : Nat) :
    ClientRun taken (pushed ++ (proxyState.onNewWorldData newData now).2)
      waiting (proxyState.onNewWorldData newData now).1
      newData.isNone := by
  obtain ⟨start, inputs, pieces, hrun, htaken, hpieces⟩ := h
  have hpackets : packetsOf (inputs ++ [.worldData newData now])
      = packetsOf inputs := by
    rw [packetsOf, List.filterMap_append]
    exact List.append_nil _
  have hpieces' : piecesOf (inputs ++ [.worldData newData now])
      = pieces.map some ++ [newData] := by
    rw [piecesOf, List.filterMap_append, ← piecesOf, hpieces]
    simp
  cases newData with
  | none =>
      exact ⟨start, _, pieces, Machine.run_snoc hrun rfl,
        hpackets ▸ htaken, hpieces'⟩
  | some newData =>
      refine ⟨start, _, pieces ++ [newData], Machine.run_snoc hrun rfl,
        hpackets ▸ htaken, ?_⟩
      rw [hpieces']
      simp

end ClientRun

/-- What a client's task has done: with the packets its queue took, what
it sent of its own, and what waits in the queue. -/
def ClientTask.Ran (taken : List Bytes) (sent : List PushedPacket)
    (waiting : List Bytes) : ClientTask → Prop
  | .opening => taken = waiting ∧ sent = []
  | .running proxyState worldDataDone =>
      ClientRun taken sent waiting proxyState worldDataDone
  | .returned => ∃ pushed left proxyState worldDataDone,
      ClientRun taken pushed left proxyState worldDataDone
      ∧ sent <+: pushed

theorem ClientTask.Ran.take {taken waiting : List Bytes}
    {sent : List PushedPacket} {task : ClientTask}
    (h : task.Ran taken sent waiting) (packet : Bytes) :
    task.Ran (taken ++ [packet]) sent (waiting ++ [packet]) := by
  cases task with
  | opening => exact ⟨by rw [h.1], h.2⟩
  | running proxyState worldDataDone => exact ClientRun.take h packet
  | returned =>
      obtain ⟨pushed, left, proxyState, worldDataDone, hrun, hsent⟩ := h
      exact ⟨pushed, left ++ [packet], proxyState, worldDataDone,
        hrun.take packet, hsent⟩

/-- A task returns, maybe before it could send everything. -/
theorem ClientTask.Ran.finish {taken waiting : List Bytes}
    {sent pushed : List PushedPacket} {task : ClientTask}
    (h : task.Ran taken pushed waiting) (hsent : sent <+: pushed)
    (waiting' : List Bytes) :
    ClientTask.returned.Ran taken sent waiting' := by
  cases task with
  | opening =>
      obtain ⟨-, rfl⟩ := h
      exact ⟨[], taken, _, _, .new taken 0, hsent⟩
  | running proxyState worldDataDone => exact ⟨_, _, _, _, h, hsent⟩
  | returned =>
      obtain ⟨all, left, proxyState, worldDataDone, hrun, hall⟩ := h
      exact ⟨all, left, proxyState, worldDataDone, hrun,
        hsent.trans hall⟩

/-- What the events about a client's peer say. -/
structure ClientHistory (events : List (NetEvent Ip))
    (peer : ClientPeer Ip) : Prop where
  address : ∀ event ∈ events, ∀ addr, event.gameClient = some addr →
    addr = peer.peerAddr
  ran : peer.task.Ran (events.filterMap NetEvent.taken)
    (events.filterMap NetEvent.clientPushed) peer.clientReceiveQueue.items

/-- The queue takes a packet from the peer's address. -/
theorem ClientHistory.accepted {peer : ClientPeer Ip}
    {events : List (NetEvent Ip)} (h : ClientHistory events peer)
    (haccepts : peer.clientReceiveQueue.Accepts) (packet : Bytes) :
    ClientHistory
      (events
        ++ [.fromGameClient peer.peerAddr packet (some peer.peerId)])
      { peer with
        clientReceiveQueue := peer.clientReceiveQueue.trySend packet } where
  address := by
    intro event hevent addr haddr
    rcases List.mem_append.1 hevent with hold | hnew
    · exact h.address event hold addr haddr
    · cases List.mem_singleton.1 hnew
      exact (Option.some.inj haddr).symm
  ran := by
    have hran := h.ran.take packet
    rw [List.filterMap_append, List.filterMap_append,
      BoundedQueue.items_trySend, if_pos haccepts]
    rwa [← List.append_nil (events.filterMap NetEvent.clientPushed)] at hran

/-- A packet that is sent is about the task's peer, and goes to its
address. -/
theorem sends_client (peer : ClientPeer Ip) (origin : Origin)
    (out : List PushedPacket) :
    ∀ event ∈ out.map (peer.sendEvent origin),
      event.clientPeer = some peer.peerId ∧ event.serverPeer = none
      ∧ event.taken = none
      ∧ ∀ addr, event.gameClient = some addr → addr = peer.peerAddr := by
  intro event hevent
  obtain ⟨⟨packet, dir⟩, -, rfl⟩ := List.mem_map.1 hevent
  cases dir with
  | toClient =>
      refine ⟨rfl, rfl, rfl, fun addr haddr => ?_⟩
      exact (Option.some.inj haddr).symm
  | toServer => exact ⟨rfl, rfl, rfl, nofun⟩

theorem pushed_own (peer : ClientPeer Ip) (out : List PushedPacket) :
    (out.map (peer.sendEvent .own)).filterMap NetEvent.clientPushed
      = out := by
  rw [List.filterMap_map]
  conv_rhs => rw [← List.filterMap_some (l := out)]
  congr 1
  funext sent
  obtain ⟨packet, dir⟩ := sent
  cases dir <;> rfl

/-- What is selected is a step of the client's state, or none. -/
theorem ran_select {peer : ClientPeer Ip} {proxyState : ClientProxyState}
    {worldDataDone : Bool} {taken : List Bytes} {sent : List PushedPacket}
    (htask : peer.task = .running proxyState worldDataDone)
    (h : ClientRun taken sent peer.clientReceiveQueue.items proxyState
      worldDataDone) (turn : ClientTurn) :
    (peer.select proxyState worldDataDone turn).1.task.Ran taken
      (sent ++ ((peer.select proxyState worldDataDone turn).2.map
        (peer.sendEvent (ClientPeer.origin turn))).filterMap
          NetEvent.clientPushed)
      (peer.select proxyState worldDataDone
        turn).1.clientReceiveQueue.items := by
  have hstay : peer.task.Ran taken (sent ++ [])
      peer.clientReceiveQueue.items := by
    rw [htask, List.append_nil]
    exact h
  have hends : peer.finish.task.Ran taken (sent ++ [])
      peer.finish.clientReceiveQueue.items :=
    hstay.finish (List.prefix_refl _) _
  cases turn with
  | clientQueue elapsedAt now =>
      rw [ClientPeer.select]
      cases hrecv : peer.clientReceiveQueue.recv with
      | waits => exact hstay
      | ended => exact hends
      | item packet rest =>
          rw [BoundedQueue.items_of_recv hrecv] at h
          dsimp only [ClientPeer.origin]
          rw [pushed_own]
          exact h.packet elapsedAt now
  | serverQueue =>
      rw [ClientPeer.select]
      cases peer.serverReceiveQueue.recv with
      | waits => exact hstay
      | ended => exact hends
      | item packet rest => exact hstay
  | worldData newData now =>
      rw [ClientPeer.select]
      cases worldDataDone with
      | true => exact hstay
      | false =>
          dsimp only [ClientPeer.origin]
          rw [if_neg Bool.false_ne_true, pushed_own]
          exact h.worldData newData now
  | idle => exact hends

/-- A turn of a client's task. -/
theorem ClientHistory.turn {peer : ClientPeer Ip}
    {events : List (NetEvent Ip)} (h : ClientHistory events peer)
    {proxyState : ClientProxyState} {worldDataDone : Bool}
    (htask : peer.task = .running proxyState worldDataDone)
    (turn : ClientTurn) (sends : Nat) :
    ClientHistory
      (events ++ ((peer.select proxyState worldDataDone turn).2.take
        sends).map (peer.sendEvent (ClientPeer.origin turn)))
      (PeerNet.afterTurn sends
        (peer.select proxyState worldDataDone turn)) where
  address := by
    intro event hevent addr haddr
    rw [(continues_afterTurn htask turn sends).peerAddr]
    rcases List.mem_append.1 hevent with hold | hnew
    · exact h.address event hold addr haddr
    · exact (sends_client peer _ _ event hnew).2.2.2 addr haddr
  ran := by
    have hran := h.ran
    rw [htask] at hran
    have hselect := ran_select htask hran turn
    have htaken : (((peer.select proxyState worldDataDone turn).2.take
        sends).map (peer.sendEvent (ClientPeer.origin turn))).filterMap
          NetEvent.taken = [] := by
      rw [List.filterMap_eq_nil_iff]
      exact fun event hevent => (sends_client peer _ _ event hevent).2.2.1
    rw [List.filterMap_append, List.filterMap_append, htaken,
      List.append_nil]
    unfold PeerNet.afterTurn
    split
    case isTrue =>
      -- the sends stop early: what was sent is a front part
      refine hselect.finish ?_ _
      rw [List.prefix_append_right_inj]
      exact ((List.take_prefix _ _).map _).filterMap _
    case isFalse hall =>
      rw [List.take_of_length_le (Nat.le_of_not_lt hall)]
      exact hselect

-- ======================================================== the server's tasks

/-- A run of the server's state over what came from the game server. -/
def ServerRun (worldEstimate : UInt32 → UInt32) (delivered : List Delivery)
    (pushed : List PushedPacket) (handed : List DownloadingWorldState)
    (proxyState : ServerProxyState) : Prop :=
  ∃ emitted, Machine.run onPacketFromServer (.new worldEstimate) delivered
      = some (proxyState, emitted)
    ∧ ServerPeer.outPackets emitted = pushed
    ∧ transfers emitted = handed

/-- What a server's task has done: with what came from the game server,
what it sent of its own, and the downloads it handed over. -/
def ServerTask.Ran (worldEstimate : UInt32 → UInt32)
    (delivered : List Delivery) (sent : List PushedPacket)
    (handed : List DownloadingWorldState) : ServerTask → Prop
  | .running proxyState =>
      ServerRun worldEstimate delivered sent handed proxyState
  | .returned => ∃ pushed proxyState,
      ServerRun worldEstimate delivered pushed handed proxyState
      ∧ sent <+: pushed

section ServerTasks

variable {worldEstimate : UInt32 → UInt32} {delivered : List Delivery}
  {pushed sent : List PushedPacket} {handed : List DownloadingWorldState}

theorem ServerTask.Ran.finish {task : ServerTask}
    (h : task.Ran worldEstimate delivered pushed handed)
    (hsent : sent <+: pushed) :
    ServerTask.returned.Ran worldEstimate delivered sent handed := by
  cases task with
  | running proxyState => exact ⟨_, _, h, hsent⟩
  | returned =>
      obtain ⟨all, proxyState, hrun, hall⟩ := h
      exact ⟨all, proxyState, hrun, hsent.trans hall⟩

/-- A packet of the game server is handled, and does not panic. -/
theorem ServerRun.delivery {proxyState : ServerProxyState}
    (h : ServerRun worldEstimate delivered pushed handed proxyState)
    (d : Delivery) :
    ∃ next emitted, proxyState.onPacketFromServer d = some (next, emitted)
      ∧ ServerRun worldEstimate (delivered ++ [d])
        (pushed ++ ServerPeer.outPackets emitted)
        (handed ++ transfers emitted) next := by
  obtain ⟨before, hrun, rfl, rfl⟩ := h
  have hstep : ∃ next emitted,
      proxyState.onPacketFromServer d = some (next, emitted) := by
    cases reached_run hrun with
    | announced h =>
        obtain ⟨next, emitted, hstep, -⟩ := leaks_iff proxyState d h
        exact ⟨next, emitted, hstep⟩
    | waiting hphase hstream =>
        cases hworld : announcedWorld d.packet with
        | none => exact ⟨_, _, onPacketFromServer_waiting hphase hworld⟩
        | some worldInfo =>
            exact ⟨_, _, onPacketFromServer_announcement hphase hworld⟩
  obtain ⟨next, emitted, hstep⟩ := hstep
  refine ⟨next, emitted, hstep, before ++ emitted,
    Machine.run_snoc hrun hstep, ?_, ?_⟩
  · exact List.filterMap_append
  · exact List.filterMap_append

end ServerTasks

/-- What the events about a server's peer say. -/
structure ServerHistory [DecidableEq Ip] (worldEstimate : UInt32 → UInt32)
    (events : List (NetEvent Ip)) (peer : ServerPeer Ip) : Prop where
  address : ∀ event ∈ events, ∀ addr, event.gameServer = some addr →
    addr = peer.factorioAddr
  ran : peer.task.Ran worldEstimate
    (events.filterMap (NetEvent.deliveredFrom peer.factorioAddr))
    (events.filterMap NetEvent.serverPushed)
    (events.filterMap NetEvent.handedOver)

theorem factorioAddr_select [DecidableEq Ip] (peer : ServerPeer Ip)
    (proxyState : ServerProxyState) (turn : ServerTurn Ip) :
    (peer.select proxyState turn).1.factorioAddr = peer.factorioAddr := by
  cases turn with
  | socket remoteAddr delivery =>
      rw [ServerPeer.select]
      split
      case isTrue => rfl
      case isFalse =>
        cases proxyState.onPacketFromServer delivery <;> rfl
  | socketError | idle => rfl
  | queue =>
      rw [ServerPeer.select]
      cases peer.receiveQueue.recv <;> rfl

theorem sends_server (peer : ServerPeer Ip) (origin : Origin)
    (out : List PushedPacket) :
    ∀ event ∈ out.map (peer.sendEvent origin),
      event.serverPeer = some peer.peerId ∧ event.clientPeer = none
      ∧ ∀ addr, event.gameServer = some addr → addr = peer.factorioAddr := by
  intro event hevent
  obtain ⟨⟨packet, dir⟩, -, rfl⟩ := List.mem_map.1 hevent
  cases dir with
  | toServer =>
      refine ⟨rfl, rfl, fun addr haddr => ?_⟩
      exact (Option.some.inj haddr).symm
  | toClient => exact ⟨rfl, rfl, nofun⟩

/-- Everything seen of a turn is about the task's peer. -/
theorem serverTurn_about (peer : ServerPeer Ip) (turn : ServerTurn Ip)
    (emitted : List ServerEvent) (sends : Nat) :
    ∀ event ∈ peer.socketEvents turn ++ peer.transfers emitted
        ++ ((ServerPeer.outPackets emitted).take sends).map
          (peer.sendEvent (ServerPeer.origin turn)),
      event.serverPeer = some peer.peerId ∧ event.clientPeer = none
      ∧ ∀ addr, event.gameServer = some addr →
        addr = peer.factorioAddr := by
  intro event hevent
  rcases List.mem_append.1 hevent with hbefore | hsend
  · rcases List.mem_append.1 hbefore with hsocket | htransfer
    · cases turn with
      | socket remoteAddr delivery =>
          cases List.mem_singleton.1 hsocket
          exact ⟨rfl, rfl, nofun⟩
      | socketError | queue | idle => cases hsocket
    · obtain ⟨serverEvent, -, heq⟩ := List.mem_filterMap.1 htransfer
      cases serverEvent with
      | push => cases heq
      | transfer state =>
          cases heq
          exact ⟨rfl, rfl, nofun⟩
  · exact sends_server peer _ _ event hsend

theorem serverPushed_own (peer : ServerPeer Ip) (out : List PushedPacket) :
    (out.map (peer.sendEvent .own)).filterMap NetEvent.serverPushed
      = out := by
  rw [List.filterMap_map]
  conv_rhs => rw [← List.filterMap_some (l := out)]
  congr 1
  funext sent
  obtain ⟨packet, dir⟩ := sent
  cases dir <;> rfl

/-- Only the socket delivers. -/
theorem delivered_serverTurn [DecidableEq Ip] (peer : ServerPeer Ip)
    (turn : ServerTurn Ip) (emitted : List ServerEvent) (origin : Origin)
    (out : List PushedPacket) (addr : SocketAddr Ip)
    (events : List (NetEvent Ip)) :
    (events ++ (peer.socketEvents turn ++ peer.transfers emitted
        ++ out.map (peer.sendEvent origin))).filterMap
          (NetEvent.deliveredFrom addr)
      = events.filterMap (NetEvent.deliveredFrom addr)
        ++ (peer.socketEvents turn).filterMap
          (NetEvent.deliveredFrom addr) := by
  rw [List.filterMap_append, List.filterMap_append, List.filterMap_append,
    filterMap_transfers (fun _ _ => rfl),
    filterMap_sends (fun _ dir => by cases dir <;> rfl), List.append_nil,
    List.append_nil]

/-- What is handed over is what the state handed over. -/
theorem handedOver_serverTurn (peer : ServerPeer Ip)
    (turn : ServerTurn Ip) (emitted : List ServerEvent) (origin : Origin)
    (out : List PushedPacket) (events : List (NetEvent Ip)) :
    (events ++ (peer.socketEvents turn ++ peer.transfers emitted
        ++ out.map (peer.sendEvent origin))).filterMap NetEvent.handedOver
      = events.filterMap NetEvent.handedOver ++ transfers emitted := by
  have htransfers : (peer.transfers emitted).filterMap NetEvent.handedOver
      = transfers emitted := by
    rw [ServerPeer.transfers, List.filterMap_filterMap, transfers]
    congr 1
    funext event
    cases event <;> rfl
  rw [List.filterMap_append, List.filterMap_append, List.filterMap_append,
    filterMap_socketEvents (fun _ _ _ => rfl), htransfers,
    filterMap_sends (fun _ dir => by cases dir <;> rfl), List.nil_append,
    List.append_nil]

/-- What is selected is a step of the server's state, or none. -/
theorem ran_serverSelect [DecidableEq Ip]
    {worldEstimate : UInt32 → UInt32} {delivered : List Delivery}
    {sent : List PushedPacket} {handed : List DownloadingWorldState}
    {peer : ServerPeer Ip} {proxyState : ServerProxyState}
    (htask : peer.task = .running proxyState)
    (h : ServerRun worldEstimate delivered sent handed proxyState)
    (turn : ServerTurn Ip) :
    (peer.select proxyState turn).1.task.Ran worldEstimate
      (delivered ++ (peer.socketEvents turn).filterMap
        (NetEvent.deliveredFrom peer.factorioAddr))
      (sent ++ ((ServerPeer.outPackets (peer.select proxyState turn).2).map
        (peer.sendEvent (ServerPeer.origin turn))).filterMap
          NetEvent.serverPushed)
      (handed ++ transfers (peer.select proxyState turn).2) := by
  have hstay : peer.task.Ran worldEstimate (delivered ++ []) (sent ++ [])
      (handed ++ []) := by
    rw [htask]
    simp only [List.append_nil]
    exact h
  have hends : peer.finish.task.Ran worldEstimate (delivered ++ [])
      (sent ++ []) (handed ++ []) := hstay.finish (List.prefix_refl _)
  cases turn with
  | socketError | idle => exact hends
  | queue =>
      rw [ServerPeer.select]
      cases peer.receiveQueue.recv with
      | waits => exact hstay
      | ended => exact hends
      | item packet rest => exact hstay
  | socket remoteAddr delivery =>
      by_cases haddr : remoteAddr = peer.factorioAddr
      case neg =>
        -- a packet that does not originate from the server
        have hnone : (peer.socketEvents
            (.socket remoteAddr delivery)).filterMap
            (NetEvent.deliveredFrom peer.factorioAddr) = [] := by
          simp [ServerPeer.socketEvents, NetEvent.deliveredFrom, haddr]
        rw [hnone, ServerPeer.select, if_pos haddr]
        exact hstay
      case pos =>
        have hone : (peer.socketEvents (.socket remoteAddr delivery)).filterMap
            (NetEvent.deliveredFrom peer.factorioAddr) = [delivery] := by
          simp [ServerPeer.socketEvents, NetEvent.deliveredFrom, haddr]
        obtain ⟨next, emitted, hstep, hnext⟩ := h.delivery delivery
        rw [hone, ServerPeer.select, if_neg (not_not_intro haddr), hstep]
        dsimp only [ServerPeer.origin]
        rw [serverPushed_own]
        exact hnext

/-- A turn of a server's task. -/
theorem ServerHistory.turn [DecidableEq Ip]
    {worldEstimate : UInt32 → UInt32} {peer : ServerPeer Ip}
    {events : List (NetEvent Ip)}
    (h : ServerHistory worldEstimate events peer)
    {proxyState : ServerProxyState}
    (htask : peer.task = .running proxyState) (turn : ServerTurn Ip)
    (sends : Nat) :
    ServerHistory worldEstimate
      (events ++ (peer.socketEvents turn
        ++ peer.transfers (peer.select proxyState turn).2
        ++ ((ServerPeer.outPackets (peer.select proxyState turn).2).take
          sends).map (peer.sendEvent (ServerPeer.origin turn))))
      (PeerNet.afterServerTurn sends (peer.select proxyState turn)) := by
  have haddr : (PeerNet.afterServerTurn sends
      (peer.select proxyState turn)).factorioAddr = peer.factorioAddr := by
    unfold PeerNet.afterServerTurn
    split <;> exact factorioAddr_select peer proxyState turn
  constructor
  · intro event hevent addr hsent
    rw [haddr]
    rcases List.mem_append.1 hevent with hold | hnew
    · exact h.address event hold addr hsent
    · exact (serverTurn_about peer turn _ sends event hnew).2.2 addr hsent
  · have hran := h.ran
    rw [htask] at hran
    have hselect := ran_serverSelect htask hran turn
    have hpushed := filterMap_serverTurn (f := NetEvent.serverPushed)
      (fun _ _ _ => rfl) (fun _ _ => rfl) peer turn
    simp only [haddr, delivered_serverTurn, handedOver_serverTurn, hpushed]
    unfold PeerNet.afterServerTurn
    split
    case isTrue =>
      refine hselect.finish ?_
      rw [List.prefix_append_right_inj]
      exact ((List.take_prefix _ _).map _).filterMap _
    case isFalse hall =>
      rw [List.take_of_length_le (Nat.le_of_not_lt hall)]
      exact hselect

-- ================================================================ every step

/-- The histories of all tasks. -/
structure TaskInv [DecidableEq Ip] (worldEstimate : UInt32 → UInt32)
    (s : PeerNet Ip) (trace : List (NetEvent Ip)) : Prop where
  net : NetInv s
  estimate : s.server.worldEstimate = worldEstimate
  client : Histories ClientPeer.peerId NetEvent.clientPeer ClientHistory
    s.client.peers trace
  server : Histories ServerPeer.peerId NetEvent.serverPeer
    (ServerHistory worldEstimate) s.server.peers trace

section ClientSteps

variable {loop : ClientLoop Ip} {trace : List (NetEvent Ip)} {i : Nat}
  {peer next : ClientPeer Ip}

/-- A peer of the client's side goes on in a way its history does not
see. -/
theorem clientHistories_setPeer
    (h : Histories ClientPeer.peerId NetEvent.clientPeer ClientHistory
      loop.peers trace) (hinv : ClientInv loop)
    (hpeer : loop.peers[i]? = some peer)
    (hid : next.peerId = peer.peerId)
    (hnext : ∀ events, ClientHistory events peer →
      ClientHistory events next) :
    Histories ClientPeer.peerId NetEvent.clientPeer ClientHistory
      (loop.setPeer i next).peers (trace ++ []) := by
  refine h.set hinv.nodup_ids hpeer hid nofun ?_
  intro hold
  rw [show eventsOf NetEvent.clientPeer peer.peerId
    ([] : List (NetEvent Ip)) = [] from rfl, List.append_nil]
  exact hnext _ hold

/-- A packet is offered to a peer of its address. -/
theorem clientHistories_offer
    (h : Histories ClientPeer.peerId NetEvent.clientPeer ClientHistory
      loop.peers trace) (hnodup : (loop.peers.map ClientPeer.peerId).Nodup)
    (hpeer : loop.peers[i]? = some peer) (packet : Bytes) :
    Histories ClientPeer.peerId NetEvent.clientPeer ClientHistory
      (loop.offer i peer peer.peerAddr packet).1.peers
      (trace ++ (loop.offer i peer peer.peerAddr packet).2) := by
  rw [ClientLoop.offer]
  refine h.set hnodup hpeer rfl ?_ ?_
  · intro event hevent k hk
    cases List.mem_singleton.1 hevent
    have hk' : (if peer.clientReceiveQueue.Accepts then some peer.peerId
      else none) = some k := hk
    split at hk'
    case isTrue => exact (Option.some.inj hk').symm
    case isFalse => cases hk'
  · intro hold
    by_cases haccepts : peer.clientReceiveQueue.Accepts
    · have hevent : eventsOf NetEvent.clientPeer peer.peerId
          [.fromGameClient peer.peerAddr packet (some peer.peerId)]
          = [.fromGameClient peer.peerAddr packet (some peer.peerId)] :=
        eventsOf_eq_self (by simp [NetEvent.clientPeer])
      rw [if_pos haccepts, hevent]
      exact hold.accepted haccepts packet
    · have hnone : eventsOf NetEvent.clientPeer peer.peerId
          [.fromGameClient peer.peerAddr packet none] = [] :=
        eventsOf_eq_nil (by simp [NetEvent.clientPeer])
      rw [if_neg haccepts, hnone, List.append_nil]
      refine ⟨hold.address, ?_⟩
      rw [BoundedQueue.items_trySend, if_neg haccepts]
      exact hold.ran

/-- A packet at the socket of the client's side. -/
theorem clientHistories_onPacket [DecidableEq Ip]
    (h : Histories ClientPeer.peerId NetEvent.clientPeer ClientHistory
      loop.peers trace) (hinv : ClientInv loop) (addr : SocketAddr Ip)
    (packet : Bytes) :
    Histories ClientPeer.peerId NetEvent.clientPeer ClientHistory
      (loop.onPacket addr packet).1.peers
      (trace ++ (loop.onPacket addr packet).2) := by
  rw [ClientLoop.onPacket]
  cases hqueue : loop.queueOf addr with
  | some found =>
      obtain ⟨i, peer⟩ := found
      obtain rfl : peer.peerAddr = addr := hinv.addr_of_queueOf hqueue
      exact clientHistories_offer h hinv.nodup_ids
        (peers_of_queueOf hqueue) packet
  | none =>
      dsimp only
      split
      case isTrue => exact h.quiet (by simp [NetEvent.clientPeer])
      case isFalse hroom =>
        have hnew : (loop.addPeer addr).peers[loop.peers.length]?
            = some (.new (peerIdOf loop.nextPeerId) addr) :=
          getElem?_snoc_iff.2 (Or.inr ⟨rfl, rfl⟩)
        have hadded : Histories ClientPeer.peerId NetEvent.clientPeer
            ClientHistory (loop.addPeer addr).peers trace :=
          h.snoc hinv.fresh_next ⟨List.forall_mem_nil _, rfl, rfl⟩
        exact clientHistories_offer hadded
          (hinv.addPeer hqueue hroom).nodup_ids hnew packet

end ClientSteps

/-- What the loop of the server's side leaves alone. -/
theorem worldEstimate_serverLoopStep {s : PeerNet Ip} (h : NetInv s)
    (action : NetAction Ip) :
    (s.serverLoopStep action).server.worldEstimate
      = s.server.worldEstimate := by
  cases action with
  | serverDatagram n =>
      rw [PeerNet.serverLoopStep]
      cases hdata : s.toServer[n]? with
      | none => rfl
      | some data =>
          obtain ⟨d, rfl⟩ := h.toServer data (List.mem_of_getElem? hdata)
          dsimp only
          rcases s.server.onDatagram_cases d with heq | ⟨i, peer, -, -, heq⟩
          · rw [heq]
          · rw [heq, ServerLoop.setPeer]
  | acceptStream n bound =>
      rw [PeerNet.serverLoopStep]
      cases s.streams[n]? with
      | none => rfl
      | some id =>
          cases bound with
          | false => rfl
          | true =>
              show (s.server.dropSender (peerIdOf id)).worldEstimate = _
              unfold ServerLoop.dropSender
              split
              case h_1 => rfl
              case h_2 => split <;> rfl
  | _ => rfl

section Steps

variable [DecidableEq Ip] {worldEstimate : UInt32 → UInt32}
  {s : PeerNet Ip} {trace : List (NetEvent Ip)}

/-- What happens on the client's side, to its histories. -/
theorem clientHistories_clientStep (h : TaskInv worldEstimate s trace)
    (action : NetAction Ip) :
    Histories ClientPeer.peerId NetEvent.clientPeer ClientHistory
      (s.clientStep action).1.client.peers
      (trace ++ (s.clientStep action).2) := by
  have hstay : Histories ClientPeer.peerId NetEvent.clientPeer
      ClientHistory s.client.peers (trace ++ []) := h.client.quiet nofun
  cases action with
  | clientPacket addr packet =>
      exact clientHistories_onPacket h.client h.net.client addr packet
  | clientDatagram n =>
      rw [PeerNet.clientStep]
      cases hdata : s.toClient[n]? with
      | none => exact hstay
      | some data =>
          obtain ⟨d, rfl⟩ := h.net.toClient data
            (List.mem_of_getElem? hdata)
          dsimp only
          rcases s.client.onDatagram_cases d with
            heq | ⟨i, peer, -, hpeer, heq⟩
          · rw [heq]
            exact hstay
          · rw [heq]
            exact clientHistories_setPeer h.client h.net.client hpeer rfl
              fun _ hold => ⟨hold.address, hold.ran⟩
  | openStream i opened now =>
      rw [PeerNet.clientStep]
      dsimp only
      rcases s.openStream_cases i opened now with
        heq | ⟨peer, hpeer, htask, heq | heq⟩
      · rw [heq]
        exact hstay
      · rw [heq]
        refine clientHistories_setPeer h.client h.net.client hpeer rfl ?_
        intro events hold
        obtain ⟨htaken, hsent⟩ : _ ∧ _ := htask ▸ hold.ran
        refine ⟨hold.address, ?_⟩
        rw [hsent, htaken]
        exact .new _ now
      · rw [heq]
        exact clientHistories_setPeer h.client h.net.client hpeer rfl
          fun _ hold => ⟨hold.address,
            hold.ran.finish (List.prefix_refl _) _⟩
  | clientTurn i turn sends =>
      rw [PeerNet.clientStep]
      rcases s.clientTurn_cases i turn sends with
        heq | ⟨peer, proxyState, worldDataDone, hpeer, htask, heq⟩
      · rw [heq]
        exact hstay
      · rw [heq]
        have habout := fun event hevent => (sends_client peer
          (ClientPeer.origin turn) ((peer.select proxyState worldDataDone
            turn).2.take sends) event hevent).1
        refine h.client.set h.net.client.nodup_ids hpeer
          (continues_afterTurn htask turn sends).peerId
          (onlyAbout_of_forall habout) ?_
        intro hold
        rw [eventsOf_eq_self habout]
        exact hold.turn htask turn sends
  | _ => exact hstay

/-- Nothing that happens there is about the server's side. -/
theorem clientStep_events (s : PeerNet Ip) (action : NetAction Ip) :
    ∀ event ∈ (s.clientStep action).2, event.serverPeer = none := by
  cases action with
  | clientPacket addr packet =>
      obtain ⟨takenBy, hevents⟩ := onPacket_events s.client addr packet
      rw [PeerNet.clientStep]
      dsimp only
      rw [hevents]
      simp [NetEvent.serverPeer]
  | clientDatagram n =>
      rw [PeerNet.clientStep]
      cases s.toClient[n]? <;> exact List.forall_mem_nil _
  | clientTurn i turn sends =>
      rw [PeerNet.clientStep]
      rcases s.clientTurn_cases i turn sends with
        heq | ⟨peer, proxyState, worldDataDone, -, -, heq⟩
      · rw [heq]
        exact List.forall_mem_nil _
      · rw [heq]
        exact fun event hevent => (sends_client peer _ _ event hevent).2.1
  | _ => exact List.forall_mem_nil _

/-- What the loop of the server's side does, to its histories. -/
theorem serverHistories_loopStep (h : TaskInv worldEstimate s trace)
    (action : NetAction Ip) :
    Histories ServerPeer.peerId NetEvent.serverPeer
      (ServerHistory worldEstimate)
      (s.serverLoopStep action).server.peers (trace ++ []) := by
  have hstay : Histories ServerPeer.peerId NetEvent.serverPeer
      (ServerHistory worldEstimate) s.server.peers (trace ++ []) :=
    h.server.quiet (List.forall_mem_nil _)
  have hfails : ∀ {error : LoopError},
      Histories ServerPeer.peerId NetEvent.serverPeer
        (ServerHistory worldEstimate) (s.server.fail error).peers
        (trace ++ []) :=
    hstay.map (fun _ => rfl) fun _ _ hold => ⟨hold.address, hold.ran⟩
  cases action with
  | serverDatagram n =>
      rw [PeerNet.serverLoopStep]
      cases hdata : s.toServer[n]? with
      | none => exact hstay
      | some data =>
          obtain ⟨d, rfl⟩ := h.net.toServer data
            (List.mem_of_getElem? hdata)
          dsimp only
          rcases s.server.onDatagram_cases d with
            heq | ⟨i, peer, -, hpeer, heq⟩
          · rw [heq]
            exact hstay
          · rw [heq]
            refine h.server.set h.net.nodup_serverIds hpeer rfl
              (List.forall_mem_nil _) ?_
            intro hold
            exact (List.append_nil _).symm ▸ ⟨hold.address, hold.ran⟩
  | acceptStream n bound =>
      rw [PeerNet.serverLoopStep]
      cases hid : s.streams[n]? with
      | none => exact hstay
      | some id =>
          cases bound with
          | true =>
              have hfresh := h.net.fresh_stream hid
              dsimp only
              rw [if_pos rfl, (h.net.server.addPeer hfresh).2]
              refine hstay.snoc hfresh ⟨List.forall_mem_nil _, ?_⟩
              rw [h.estimate]
              exact ⟨[], rfl, rfl, rfl⟩
          | false => exact hfails
  | serverReadError error => exact hfails
  | _ => exact hstay

/-- A turn of a server's task, to the histories of its side. -/
theorem serverHistories_serverTurn (h : TaskInv worldEstimate s trace)
    (i : Nat) (turn : ServerTurn Ip) (sends : Nat) :
    Histories ServerPeer.peerId NetEvent.serverPeer
      (ServerHistory worldEstimate)
      (s.serverTurn i turn sends).1.server.peers
      (trace ++ (s.serverTurn i turn sends).2) := by
  rcases s.serverTurn_cases i turn sends with
    heq | ⟨peer, proxyState, hpeer, htask, heq⟩
  · rw [heq]
    exact h.server.quiet nofun
  · rw [heq]
    have habout := serverTurn_about peer turn
      (peer.select proxyState turn).2 sends
    have hid : (PeerNet.afterServerTurn sends
        (peer.select proxyState turn)).peerId = peer.peerId :=
      peerId_afterServerTurn peer proxyState turn sends
    refine h.server.set h.net.nodup_serverIds hpeer hid
      (onlyAbout_of_forall fun event hevent => (habout event hevent).1) ?_
    intro hold
    rw [eventsOf_eq_self fun event hevent => (habout event hevent).1]
    exact hold.turn htask turn sends

/-- A server's turn is not about the client's side. -/
theorem serverTurn_events (s : PeerNet Ip) (i : Nat) (turn : ServerTurn Ip)
    (sends : Nat) :
    (s.serverTurn i turn sends).1.server.worldEstimate
      = s.server.worldEstimate
    ∧ ∀ event ∈ (s.serverTurn i turn sends).2, event.clientPeer = none := by
  rcases s.serverTurn_cases i turn sends with
    heq | ⟨peer, proxyState, -, -, heq⟩
  · rw [heq]
    exact ⟨rfl, nofun⟩
  · rw [heq]
    exact ⟨rfl, fun event hevent =>
      (serverTurn_about peer turn _ sends event hevent).2.1⟩

theorem worldEstimate_onLanPacket (loop : ServerLoop Ip)
    (addr : SocketAddr Ip) (packet : Bytes) :
    (loop.onLanPacket addr packet).worldEstimate = loop.worldEstimate
    ∧ (loop.onLanPacket addr packet).peers = loop.peers := by
  unfold ServerLoop.onLanPacket
  split
  case h_1 =>
    dsimp only
    split <;> exact ⟨rfl, rfl⟩
  case h_2 => exact ⟨rfl, rfl⟩

/-- Every step keeps the histories. -/
theorem TaskInv.act (h : TaskInv worldEstimate s trace)
    (action : NetAction Ip) :
    TaskInv worldEstimate (s.act action).1
      (trace ++ (s.act action).2) := by
  have hnet := h.net.act action
  have hclient : Histories ClientPeer.peerId NetEvent.clientPeer
      ClientHistory s.client.peers (trace ++ []) := h.client.quiet nofun
  have hserver : Histories ServerPeer.peerId NetEvent.serverPeer
      (ServerHistory worldEstimate) s.server.peers (trace ++ []) :=
    h.server.quiet nofun
  cases action with
  | clientPacket | clientDatagram | clientReadError | openStream
  | clientTurn =>
      rw [PeerNet.act] at hnet ⊢
      split
      case isTrue => exact ⟨h.net, h.estimate, hclient, hserver⟩
      case isFalse hgoes =>
        rw [if_neg hgoes] at hnet
        refine ⟨hnet, ?_, clientHistories_clientStep h _, ?_⟩
        · rw [s.server_clientStep]
          exact h.estimate
        · rw [s.server_clientStep]
          exact h.server.quiet (clientStep_events s _)
  | serverDatagram | acceptStream | serverReadError =>
      rw [PeerNet.act] at hnet ⊢
      split
      case isTrue => exact ⟨h.net, h.estimate, hclient, hserver⟩
      case isFalse hgoes =>
        rw [if_neg hgoes] at hnet
        refine ⟨hnet, ?_, ?_, serverHistories_loopStep h _⟩
        · rw [worldEstimate_serverLoopStep h.net]
          exact h.estimate
        · rw [s.client_serverLoopStep]
          exact hclient
  | serverTurn i turn sends =>
      refine ⟨hnet, ?_, ?_, serverHistories_serverTurn h i turn sends⟩
      · exact (serverTurn_events s i turn sends).1.trans h.estimate
      · rw [PeerNet.act, s.client_serverTurn]
        exact h.client.quiet (serverTurn_events s i turn sends).2
  | lanPacket addr packet =>
      obtain ⟨hestimate, hpeers⟩ :=
        worldEstimate_onLanPacket s.server addr packet
      refine ⟨hnet, hestimate.trans h.estimate, hclient, ?_⟩
      rw [PeerNet.act]
      dsimp only
      rw [hpeers]
      exact hserver
  | loseToServer n => exact ⟨hnet, h.estimate, hclient, hserver⟩
  | loseToClient n => exact ⟨hnet, h.estimate, hclient, hserver⟩

end Steps

-- ================================================================= every run

/-- Every run keeps the histories. -/
theorem taskInv_run [DecidableEq Ip] (factorioAddress : SocketAddr Ip)
    (worldEstimate : UInt32 → UInt32) (actions : List (NetAction Ip)) :
    ∃ (s : PeerNet Ip) (trace : List (NetEvent Ip)),
      Machine.run PeerNet.step (.start factorioAddress worldEstimate) actions
        = some (s, trace)
      ∧ TaskInv worldEstimate s trace :=
  Machine.run_induction (fun s _ trace => TaskInv worldEstimate s trace)
    (C := fun _ _ => True)
    (fun _ _ _ action h _ => ⟨_, _, rfl, h.act action⟩)
    (Machine.stepsMeet_of PeerNet.step (fun _ _ _ => trivial) _)
    ⟨netInv_start factorioAddress worldEstimate, rfl, .nil, .nil⟩

/-- However the tasks are interleaved, each has done what the machine of
its peer does with what came to that peer, and nothing else: a client's
task with the packets its queue took, all from its address, and a
server's task with every packet that came from its game server. -/
theorem tasks_run_alone [DecidableEq Ip] (factorioAddress : SocketAddr Ip)
    (worldEstimate : UInt32 → UInt32) (actions : List (NetAction Ip)) :
    ∃ (s : PeerNet Ip) (trace : List (NetEvent Ip)),
      Machine.run PeerNet.step (.start factorioAddress worldEstimate) actions
        = some (s, trace)
      ∧ (∀ peer ∈ s.client.peers, ClientHistory
          (eventsOf NetEvent.clientPeer peer.peerId trace) peer)
      ∧ ∀ peer ∈ s.server.peers, ServerHistory worldEstimate
          (eventsOf NetEvent.serverPeer peer.peerId trace) peer := by
  obtain ⟨s, trace, hrun, h⟩ := taskInv_run factorioAddress worldEstimate
    actions
  exact ⟨s, trace, hrun, h.client.each, h.server.each⟩

end FactoryCacher
