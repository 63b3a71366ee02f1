/-
A packet reaches the game server only from the game client it belongs
to, and the other way round.

The parts are there: a connection carries the packets of every peer as a
path of its own would (PeerPaths), and each task runs the machine of its
peer on what came to that peer (PeerTasks). What is left is what those
machines forward.

- The client's state pushes to the server the packets it was given and
  nothing else, each once and in order (`pushedToServer_sublist`).
- The server's state pushes to the client at most one packet for each it
  was given: that packet, or that packet with the description of the
  world its game server announced first replaced by the same description
  with the estimated size (`Forwards`, `forwards_run`).

Together they say, for every interleaving, where a relayed packet comes
from and where it goes (`relays_are_isolated`). The proxies send packets
of their own as well, block requests and the blocks of the world; those
are not relayed, and only their addresses are spoken of here.
-/
import Mathlib.Data.List.Forall2
import FactoryCacher.Factorio.Proofs.PeerPaths
import FactoryCacher.Factorio.Proofs.PeerTasks

namespace FactoryCacher

open ServerProxyState

variable {Ip : Type}

-- ======================================================== the client's state

/-- A packet pushed towards the server. -/
def pushedToServer : PushedPacket → Option Bytes
  | (packet, .toServer) => some packet
  | (_, .toClient) => none

/-- A packet pushed towards the client. -/
def pushedToClient : PushedPacket → Option Bytes
  | (packet, .toClient) => some packet
  | (_, .toServer) => none

theorem fulfillPending_toServer (s : ClientProxyState) (ids : List UInt32)
    (swap : OrdSet UInt32) :
    (s.fulfillPending ids swap).2.filterMap pushedToServer = [] := by
  induction ids generalizing swap with
  | nil => rfl
  | cons id rest ih =>
      rw [ClientProxyState.fulfillPending]
      cases s.tryFulfillBlockRequest id with
      | none => exact ih _
      | some response => exact ih swap

/-- One input: a packet may go on, world data is answered to the
client. -/
theorem pushedToServer_step {s s' : ClientProxyState} {input : ClientInput}
    {out : List PushedPacket} (hstep : s.step input = some (s', out)) :
    (out.filterMap pushedToServer).Sublist (packetsOf [input]) := by
  cases input with
  | packet packetData elapsedAt now =>
      have hout : (s.onPacketFromClient packetData elapsedAt now).2 = out :=
        congrArg Prod.snd (Option.some.inj hstep)
      rw [← hout, ClientProxyState.onPacketFromClient]
      cases decodeBlockRequest packetData with
      | none => exact List.Sublist.refl _
      | some request =>
          dsimp only
          cases s.tryFulfillBlockRequest request.blockId with
          | none => exact List.nil_sublist _
          | some response => exact List.nil_sublist _
  | worldData newData now =>
      have hout : (s.onNewWorldData newData now).2 = out :=
        congrArg Prod.snd (Option.some.inj hstep)
      rw [← hout]
      unfold ClientProxyState.onNewWorldData
      cases newData with
      | none => exact List.Sublist.refl _
      | some newData =>
          dsimp only
          rw [fulfillPending_toServer]
          exact List.nil_sublist _

/-- A run pushes to the server packets it was given, in order. -/
theorem pushedToServer_sublist {s s' : ClientProxyState}
    {inputs : List ClientInput} {out : List PushedPacket}
    (hrun : Machine.run ClientProxyState.step s inputs = some (s', out)) :
    (out.filterMap pushedToServer).Sublist (packetsOf inputs) := by
  have hstep : ∀ (s : ClientProxyState) (past : List ClientInput)
      (emitted : List PushedPacket) (input : ClientInput)
      (s' : ClientProxyState) (out : List PushedPacket),
      (emitted.filterMap pushedToServer).Sublist (packetsOf past) →
      s.step input = some (s', out) →
      ((emitted ++ out).filterMap pushedToServer).Sublist
        (packetsOf (past ++ [input])) := by
    intro s past emitted input s' out hpast hstep
    rw [List.filterMap_append, packetsOf, List.filterMap_append]
    exact hpast.append (pushedToServer_step hstep)
  exact Machine.run_history hstep (List.Sublist.refl _) hrun

/-- So does a task. -/
theorem ClientTask.Ran.toServer {taken waiting : List Bytes}
    {sent : List PushedPacket} {task : ClientTask}
    (h : task.Ran taken sent waiting) :
    (sent.filterMap pushedToServer).Sublist taken := by
  have hall : ∀ {pushed left proxyState done},
      ClientRun taken pushed left proxyState done → sent <+: pushed →
      (sent.filterMap pushedToServer).Sublist taken := by
    intro pushed left proxyState done hrun hsent
    obtain ⟨now, inputs, pieces, hrun, htaken, -⟩ := hrun
    rw [htaken]
    exact ((hsent.filterMap pushedToServer).sublist.trans
      (pushedToServer_sublist hrun)).trans (List.sublist_append_left _ _)
  cases task with
  | opening =>
      rw [h.2]
      exact List.nil_sublist _
  | running proxyState worldDataDone => exact hall h (List.prefix_refl _)
  | returned =>
      obtain ⟨pushed, left, proxyState, worldDataDone, hrun, hsent⟩ := h
      exact hall hrun hsent

-- ======================================================== the server's state

/-- The packets among the events that go to the client. -/
def toClientOf (emitted : List ServerEvent) : List Bytes :=
  (ServerPeer.outPackets emitted).filterMap pushedToClient

theorem toClientOf_append (a b : List ServerEvent) :
    toClientOf (a ++ b) = toClientOf a ++ toClientOf b := by
  rw [toClientOf, ServerPeer.outPackets, List.filterMap_append,
    List.filterMap_append]
  rfl

theorem toClientOf_requests (ids : List UInt32) :
    toClientOf (ids.map requestEvent) = [] := by
  induction ids with
  | nil => rfl
  | cons id rest ih => exact ih

/-- A world's description with the estimate in place of its size. -/
def estimatedInfo (worldEstimate : UInt32 → UInt32)
    (worldInfo : FactorioWorldMetadata) : FactorioWorldMetadata :=
  { worldInfo with worldSize := worldEstimate worldInfo.worldSize }

/-- The world a game server announces first. -/
def firstAnnounced (deliveries : List Delivery) :
    Option FactorioWorldMetadata :=
  deliveries.findSome? fun d => announcedWorld d.packet

theorem firstAnnounced_snoc (past : List Delivery) (d : Delivery) :
    firstAnnounced (past ++ [d])
      = (firstAnnounced past).or (announcedWorld d.packet) := by
  rw [firstAnnounced, List.findSome?_append, List.findSome?_singleton]
  rfl

/-- A packet as it is forwarded: as it came, or with the description of
the announced world replaced by that with the estimated size. -/
def Forwards (worldEstimate : UInt32 → UInt32)
    (announced : Option FactorioWorldMetadata) (packet : Bytes)
    (d : Delivery) : Prop :=
  packet = d.packet
  ∨ ∃ worldInfo, announced = some worldInfo
    ∧ packet = replaceAll worldInfo.encode
      (estimatedInfo worldEstimate worldInfo).encode d.packet

/-- The first announcement stays the first. -/
theorem Forwards.later {worldEstimate : UInt32 → UInt32}
    {announced : Option FactorioWorldMetadata} {packet : Bytes}
    {d : Delivery} (h : Forwards worldEstimate announced packet d)
    (other : Option FactorioWorldMetadata) :
    Forwards worldEstimate (announced.or other) packet d := by
  rcases h with heq | ⟨worldInfo, rfl, heq⟩
  · exact Or.inl heq
  · exact Or.inr ⟨worldInfo, rfl, heq⟩

/-- While the proxy waits, no world was announced; the filter, if there
is one, replaces the size of the announced world by the estimate. -/
structure FiltersWorlds (worldEstimate : UInt32 → UInt32)
    (announced : Option FactorioWorldMetadata) (s : ServerProxyState) :
    Prop where
  estimate : s.worldEstimate = worldEstimate
  waiting : s.phase = .waitingForWorld → announced = none
  filter : ∀ f, s.packetFilter = some f →
    ∃ worldInfo, announced = some worldInfo
      ∧ f.needle = worldInfo.encode
      ∧ f.replaceWith = (estimatedInfo worldEstimate worldInfo).encode

section ServerState

variable {worldEstimate : UInt32 → UInt32}
  {announced : Option FactorioWorldMetadata} {s s' : ServerProxyState}
  {d : Delivery} {out : List ServerEvent}

/-- A proxy that does not wait does not look at announcements. -/
theorem FiltersWorlds.later (h : FiltersWorlds worldEstimate announced s)
    {other : Option FactorioWorldMetadata}
    (hwaits : s.phase = .waitingForWorld → other = none) :
    FiltersWorlds worldEstimate (announced.or other) s where
  estimate := h.estimate
  waiting := by
    intro hphase
    rw [h.waiting hphase, hwaits hphase]
    rfl
  filter := by
    intro f hf
    obtain ⟨worldInfo, rfl, hneedle, hwith⟩ := h.filter f hf
    exact ⟨worldInfo, rfl, hneedle, hwith⟩

theorem FiltersWorlds.forwards
    (h : FiltersWorlds worldEstimate announced s) (d : Delivery) :
    Forwards worldEstimate announced (s.rewritten d.packet) d := by
  rw [ServerProxyState.rewritten]
  cases hfilter : s.packetFilter with
  | none => exact Or.inl rfl
  | some f =>
      obtain ⟨worldInfo, hworld, hneedle, hwith⟩ := h.filter f hfilter
      refine Or.inr ⟨worldInfo, hworld, ?_⟩
      show f.rewrite d.packet = _
      rw [FilteringPacketsState.rewrite, hneedle, hwith]

theorem filterPacket_keeps (f : FilteringPacketsState) (packet : Bytes)
    (now : Nat) :
    (filterPacket f packet now).1.needle = f.needle
    ∧ (filterPacket f packet now).1.replaceWith = f.replaceWith := by
  unfold filterPacket
  split <;> exact ⟨rfl, rfl⟩

theorem FiltersWorlds.forwardPacket
    (h : FiltersWorlds worldEstimate announced s) (packet : Bytes)
    (t : Instants) :
    FiltersWorlds worldEstimate announced (s.forwardPacket packet t).1 := by
  unfold ServerProxyState.forwardPacket
  cases hfilter : s.packetFilter with
  | none => exact ⟨h.estimate, h.waiting, by rw [hfilter]; exact nofun⟩
  | some f =>
      refine ⟨h.estimate, h.waiting, ?_⟩
      intro g hg
      dsimp only at hg
      split at hg
      case isTrue => cases hg
      case isFalse =>
        cases hg
        obtain ⟨worldInfo, hworld, hneedle, hwith⟩ := h.filter f hfilter
        obtain ⟨hkeeps, hkeeps'⟩ := filterPacket_keeps f packet t.setReplace
        exact ⟨worldInfo, hworld, hkeeps.trans hneedle,
          hkeeps'.trans hwith⟩

/-- The filter and the estimate are as before. -/
theorem FiltersWorlds.of_eq (h : FiltersWorlds worldEstimate announced s)
    (hfilter : s'.packetFilter = s.packetFilter)
    (hestimate : s'.worldEstimate = s.worldEstimate)
    (hphase : s'.phase ≠ .waitingForWorld) :
    FiltersWorlds worldEstimate announced s' :=
  ⟨hestimate.trans h.estimate, fun hwaits => absurd hwaits hphase,
    by rw [hfilter]; exact h.filter⟩

/-- The filter the announcement installs. -/
theorem FiltersWorlds.transition
    (h : FiltersWorlds worldEstimate announced s) (packet : Bytes)
    (worldInfo : FactorioWorldMetadata) (t : Instants) :
    FiltersWorlds worldEstimate (some worldInfo)
      (s.transitionToDownloadingWorld packet worldInfo t).1 := by
  have hphase : (s.transitionToDownloadingWorld packet worldInfo t).1.phase
      = .downloadingWorld (requestNextBlocks (startDownload worldInfo
        (s.newWorldInfo worldInfo) t.setBlock)).1 := rfl
  refine ⟨h.estimate, ?_, ?_⟩
  · rw [hphase]
    exact nofun
  intro f hf
  obtain ⟨hneedle, hwith⟩ := filterPacket_keeps (startFilter worldInfo
    (s.newWorldInfo worldInfo) t.checkReplace) packet t.setReplace
  have hf' : (filterPacket (startFilter worldInfo
    (s.newWorldInfo worldInfo) t.checkReplace) packet t.setReplace).1 = f :=
    Option.some.inj hf
  rw [← hf']
  refine ⟨worldInfo, rfl, hneedle, hwith.trans ?_⟩
  rw [← h.estimate]
  rfl

/-- What is between the proxy and the server after a block. -/
theorem continueDownload_keeps {state : DownloadingWorldState}
    (hstep : s.continueDownload state = some (s', out)) :
    s'.packetFilter = s.packetFilter ∧ s'.worldEstimate = s.worldEstimate
    ∧ s'.phase ≠ .waitingForWorld ∧ toClientOf out = [] := by
  unfold continueDownload at hstep
  split at hstep
  case isTrue =>
    unfold finalizeWorld at hstep
    dsimp only at hstep
    split at hstep
    case isTrue =>
      cases hstep
      exact ⟨rfl, rfl, nofun, rfl⟩
    case isFalse => cases hstep
  case isFalse =>
    cases hstep
    obtain ⟨ids, hids⟩ := requestNextBlocks_requests state
    exact ⟨rfl, rfl, nofun, by rw [hids, toClientOf_requests]⟩

/-- What handling a packet leads to: at most one goes on to the client,
and the filter is for the announced world. -/
def PassesOn (worldEstimate : UInt32 → UInt32)
    (announced : Option FactorioWorldMetadata) (s' : ServerProxyState)
    (out : List ServerEvent) (d : Delivery) : Prop :=
  FiltersWorlds worldEstimate announced s'
  ∧ (toClientOf out = []
    ∨ ∃ packet, toClientOf out = [packet]
      ∧ Forwards worldEstimate announced packet d)

/-- A packet that is forwarded. -/
theorem passesOn_forwardPacket (h : FiltersWorlds worldEstimate announced s)
    (hstep : some (s.forwardPacket d.packet d.instants) = some (s', out))
    (hwaits : s.phase = .waitingForWorld → announcedWorld d.packet = none) :
    PassesOn worldEstimate (announced.or (announcedWorld d.packet)) s' out
      d := by
  have hnext := h.forwardPacket d.packet d.instants
  rw [Option.some.inj hstep] at hnext
  obtain ⟨hphase, -, hout⟩ := forwarded_spec hstep
  refine ⟨hnext.later ?_, Or.inr ⟨s.rewritten d.packet, by rw [hout]; rfl,
    (h.forwards d).later _⟩⟩
  rw [hphase]
  exact hwaits

/-- An announcement, which is the first. -/
theorem passesOn_announcement (h : FiltersWorlds worldEstimate announced s)
    (hphase : s.phase = .waitingForWorld) {worldInfo : FactorioWorldMetadata}
    (hworld : announcedWorld d.packet = some worldInfo)
    (hstep : s.onPacketFromServer d = some (s', out)) :
    PassesOn worldEstimate (announced.or (some worldInfo)) s' out d := by
  rw [onPacketFromServer_announcement hphase hworld] at hstep
  have hout := transitionToDownloadingWorld_snd s d.packet worldInfo
    d.instants
  have hnext := h.transition d.packet worldInfo d.instants
  rw [Option.some.inj hstep] at hout hnext
  dsimp only at hout hnext
  obtain ⟨ids, hids⟩ := requestNextBlocks_requests (startDownload
    worldInfo (s.newWorldInfo worldInfo) d.instants.setBlock)
  rw [h.waiting hphase, Option.none_or]
  refine ⟨hnext, Or.inr ⟨_, ?_, Or.inr ⟨worldInfo, rfl, rfl⟩⟩⟩
  rw [hout, hids, toClientOf_append, toClientOf_requests, ← h.estimate]
  rfl

/-- A packet during the download: a block, or one that is forwarded with
requests behind it. -/
theorem passesOn_downloading (h : FiltersWorlds worldEstimate announced s)
    {state : DownloadingWorldState}
    (hphase : s.phase = .downloadingWorld state)
    (hstep : s.onPacketFromServer d = some (s', out)) :
    PassesOn worldEstimate (announced.or (announcedWorld d.packet)) s' out
      d := by
  rw [onPacketFromServer_downloading hphase] at hstep
  split at hstep
  case isTrue =>
    cases hdecode : decodeTransferBlock d.packet with
    | none =>
        rw [hdecode] at hstep
        cases hstep
        refine ⟨h.later ?_, Or.inl rfl⟩
        rw [hphase]
        exact nofun
    | some block =>
        rw [hdecode] at hstep
        obtain ⟨hfilter, hestimate, hne, hout⟩ :=
          continueDownload_keeps hstep
        exact ⟨(h.of_eq hfilter hestimate hne).later
          fun hwaits => absurd hwaits hne, Or.inl hout⟩
  case isFalse =>
    have hsame : FiltersWorlds worldEstimate announced { s with
        phase := .downloadingWorld (reRequest state d.instants).1 } :=
      h.of_eq rfl rfl nofun
    have hnext := hsame.forwardPacket d.packet d.instants
    obtain ⟨ids, hids⟩ := reRequest_requests state d.instants
    obtain ⟨hdownloading, -, hout⟩ := forwardDownloading_spec hstep
    have hlater : s'.phase = .waitingForWorld →
        announcedWorld d.packet = none := by
      rw [hdownloading]
      exact nofun
    cases hstep
    refine ⟨hnext.later hlater,
      Or.inr ⟨s.rewritten d.packet, ?_, (h.forwards d).later _⟩⟩
    rw [hout, hids, toClientOf_append, toClientOf_requests]
    rfl

/-- One packet from the server. -/
theorem forwards_step (h : FiltersWorlds worldEstimate announced s)
    (hstep : s.onPacketFromServer d = some (s', out)) :
    PassesOn worldEstimate (announced.or (announcedWorld d.packet)) s' out
      d := by
  cases hphase : s.phase with
  | done =>
      rw [onPacketFromServer_done hphase] at hstep
      apply passesOn_forwardPacket h hstep
      rw [hphase]
      exact nofun
  | waitingForWorld =>
      cases hworld : announcedWorld d.packet with
      | none =>
          rw [onPacketFromServer_waiting hphase hworld] at hstep
          have hpasses := passesOn_forwardPacket h hstep fun _ => hworld
          rwa [hworld] at hpasses
      | some worldInfo => exact passesOn_announcement h hphase hworld hstep
  | downloadingWorld state => exact passesOn_downloading h hphase hstep

/-- What a run has forwarded: packets it was given, in order. -/
def HasForwarded (worldEstimate : UInt32 → UInt32) (s : ServerProxyState)
    (past : List Delivery) (emitted : List ServerEvent) : Prop :=
  FiltersWorlds worldEstimate (firstAnnounced past) s
  ∧ ∃ given, List.Forall₂ (Forwards worldEstimate (firstAnnounced past))
      (toClientOf emitted) given ∧ given.Sublist past

theorem hasForwarded_step {past : List Delivery}
    {emitted : List ServerEvent}
    (h : HasForwarded worldEstimate s past emitted)
    (hstep : s.onPacketFromServer d = some (s', out)) :
    HasForwarded worldEstimate s' (past ++ [d]) (emitted ++ out) := by
  obtain ⟨hfilters, given, hgiven, hsub⟩ := h
  obtain ⟨hnext, hout⟩ := forwards_step hfilters hstep
  rw [HasForwarded, firstAnnounced_snoc, toClientOf_append]
  refine ⟨hnext, ?_⟩
  have hlater : List.Forall₂ (Forwards worldEstimate
      ((firstAnnounced past).or (announcedWorld d.packet)))
      (toClientOf emitted) given :=
    hgiven.imp fun _ _ hforwards => hforwards.later _
  rcases hout with hnone | ⟨packet, hone, hforwards⟩
  · rw [hnone, List.append_nil]
    exact ⟨given, hlater, hsub.trans (List.sublist_append_left _ _)⟩
  · rw [hone]
    exact ⟨given ++ [d], List.rel_append hlater (.cons hforwards .nil),
      hsub.append (List.Sublist.refl _)⟩

theorem forwards_run {deliveries : List Delivery}
    (hrun : Machine.run onPacketFromServer (.new worldEstimate) deliveries
      = some (s, out)) :
    ∃ given, List.Forall₂ (Forwards worldEstimate
        (firstAnnounced deliveries)) (toClientOf out) given
      ∧ given.Sublist deliveries := by
  have hnew : FiltersWorlds worldEstimate (firstAnnounced [])
      (ServerProxyState.new worldEstimate) := by
    refine ⟨rfl, fun _ => rfl, ?_⟩
    intro f hf
    cases hf
  have hinv : HasForwarded worldEstimate s deliveries out :=
    Machine.run_history (fun _ _ _ _ _ _ => hasForwarded_step)
      ⟨hnew, [], .nil, .slnil⟩ hrun
  exact hinv.2

/-- So does a task. -/
theorem ServerTask.Ran.toClient {delivered : List Delivery}
    {sent : List PushedPacket} {handed : List DownloadingWorldState}
    {task : ServerTask}
    (h : task.Ran worldEstimate delivered sent handed) :
    ∃ given, List.Forall₂ (Forwards worldEstimate
        (firstAnnounced delivered)) (sent.filterMap pushedToClient) given
      ∧ given.Sublist delivered := by
  obtain ⟨pushed, proxyState, ⟨emitted, hrun, rfl, -⟩, hsent⟩ :
      ServerTask.returned.Ran worldEstimate delivered sent handed :=
    h.finish (List.prefix_refl _)
  obtain ⟨given, hgiven, hsub⟩ := forwards_run hrun
  have hfront := hsent.filterMap pushedToClient
  have htake := List.forall₂_take (sent.filterMap pushedToClient).length
    hgiven
  rw [toClientOf, ← List.prefix_iff_eq_take.1 hfront] at htake
  exact ⟨_, htake, (List.take_sublist _ _).trans hsub⟩

end ServerState

-- ========================================================== the whole system

/-- A packet from an address that the queue of a peer took. -/
def takenBy [DecidableEq Ip] (addr : SocketAddr Ip) (p : VarInt) :
    NetEvent Ip → Option Bytes
  | .fromGameClient peerAddr packet id =>
      if peerAddr = addr ∧ id = some p then some packet else none
  | _ => none

/-- A packet from an address at the socket of a peer. -/
def deliveredTo [DecidableEq Ip] (addr : SocketAddr Ip) (p : VarInt) :
    NetEvent Ip → Option Delivery
  | .fromGameServer id remoteAddr delivery =>
      if remoteAddr = addr ∧ id = p then some delivery else none
  | _ => none

section Traces

variable {p : VarInt} {trace : List (NetEvent Ip)}

theorem sentToServer_eq :
    ((eventsOf NetEvent.clientPeer p trace).filterMap
        NetEvent.clientPushed).filterMap pushedToServer
      = trace.filterMap (sentToServer p) := by
  rw [eventsOf, List.filterMap_filterMap, List.filterMap_filter]
  congr 1
  funext event
  cases event with
  | datagramToServer id packet =>
      simp [NetEvent.clientPeer, NetEvent.clientPushed, pushedToServer,
        sentToServer]
  | toGameClient id addr origin packet =>
      cases origin <;> simp [NetEvent.clientPushed, pushedToServer,
        sentToServer]
  | _ => simp [NetEvent.clientPushed, sentToServer]

theorem sentToClient_eq :
    ((eventsOf NetEvent.serverPeer p trace).filterMap
        NetEvent.serverPushed).filterMap pushedToClient
      = trace.filterMap (sentToClient p) := by
  rw [eventsOf, List.filterMap_filterMap, List.filterMap_filter]
  congr 1
  funext event
  cases event with
  | datagramToClient id packet =>
      simp [NetEvent.serverPeer, NetEvent.serverPushed, pushedToClient,
        sentToClient]
  | toGameServer id addr origin packet =>
      cases origin <;> simp [NetEvent.serverPushed, pushedToClient,
        sentToClient]
  | _ => simp [NetEvent.serverPushed, sentToClient]

theorem taken_eq [DecidableEq Ip] {peer : ClientPeer Ip}
    (h : ClientHistory (eventsOf NetEvent.clientPeer peer.peerId trace)
      peer) :
    (eventsOf NetEvent.clientPeer peer.peerId trace).filterMap
        NetEvent.taken
      = trace.filterMap (takenBy peer.peerAddr peer.peerId) := by
  rw [eventsOf, List.filterMap_filter]
  apply List.filterMap_congr
  intro event hevent
  cases event with
  | fromGameClient addr packet id =>
      by_cases hid : id = some peer.peerId
      · have haddr : addr = peer.peerAddr := h.address _
          (List.mem_filter.2 ⟨hevent, decide_eq_true hid⟩) addr rfl
        simp [NetEvent.clientPeer, NetEvent.taken, takenBy, hid, haddr]
      · simp [NetEvent.clientPeer, takenBy, hid]
  | _ => simp [NetEvent.taken, takenBy]

theorem delivered_eq [DecidableEq Ip] (addr : SocketAddr Ip) :
    (eventsOf NetEvent.serverPeer p trace).filterMap
        (NetEvent.deliveredFrom addr)
      = trace.filterMap (deliveredTo addr p) := by
  rw [eventsOf, List.filterMap_filter]
  congr 1
  funext event
  cases event with
  | fromGameServer id remoteAddr delivery =>
      by_cases hid : id = p
      · simp [NetEvent.serverPeer, NetEvent.deliveredFrom, deliveredTo, hid]
      · simp [NetEvent.serverPeer, deliveredTo, hid]
  | _ => simp [NetEvent.deliveredFrom, deliveredTo]

end Traces

/-- However everything is interleaved, and whatever is lost: what the
server's task of a peer relays to the game server are packets the peer's
queue took from the peer's own game client, each at most once, and
everything sent to a game client under the peer's id goes to that one.
What the client's task relays to it are packets that came to the peer's
own socket from the address of its game server, each at most once, as
they came or with the description of the world that server announced
first replaced by that with the estimated size; and everything sent to a
game server under the id goes to that address. -/
theorem relays_are_isolated [DecidableEq Ip]
    (factorioAddress : SocketAddr Ip) (worldEstimate : UInt32 → UInt32)
    (actions : List (NetAction Ip)) :
    ∃ (s : PeerNet Ip) (trace : List (NetEvent Ip)),
      Machine.run PeerNet.step (.start factorioAddress worldEstimate) actions
        = some (s, trace)
      ∧ (∀ peer ∈ s.client.peers,
        (trace.filterMap (relayedToServer peer.peerId)).Subperm
          (trace.filterMap (takenBy peer.peerAddr peer.peerId))
        ∧ ∀ addr origin packet,
          .toGameClient peer.peerId addr origin packet ∈ trace →
            addr = peer.peerAddr)
      ∧ ∀ peer ∈ s.server.peers,
        (∃ forwarded given,
          (trace.filterMap (relayedToClient peer.peerId)).Subperm forwarded
          ∧ List.Forall₂ (Forwards worldEstimate (firstAnnounced
              (trace.filterMap
                (deliveredTo peer.factorioAddr peer.peerId))))
            forwarded given
          ∧ given.Sublist
            (trace.filterMap (deliveredTo peer.factorioAddr peer.peerId)))
        ∧ ∀ addr origin packet,
          .toGameServer peer.peerId addr origin packet ∈ trace →
            addr = peer.factorioAddr := by
  obtain ⟨s, trace, hrun, h⟩ := taskInv_run factorioAddress worldEstimate
    actions
  obtain ⟨s', trace', hrun', -, hmoves⟩ := moves_run factorioAddress
    worldEstimate actions
  rw [hrun] at hrun'
  cases hrun'
  refine ⟨s, trace, hrun, ?_, ?_⟩
  · intro peer hpeer
    have hhistory := h.client.each peer hpeer
    have hpath := Multiset.coe_le.1
      (Path.delivered_le (hmoves peer.peerId).1)
    have hsent := hhistory.ran.toServer
    rw [sentToServer_eq, taken_eq hhistory] at hsent
    refine ⟨hpath.trans hsent.subperm, ?_⟩
    intro addr origin packet hevent
    exact hhistory.address _
      (List.mem_filter.2 ⟨hevent, decide_eq_true rfl⟩) addr rfl
  · intro peer hpeer
    have hhistory := h.server.each peer hpeer
    have hpath := Multiset.coe_le.1
      (Path.delivered_le (hmoves peer.peerId).2)
    obtain ⟨given, hgiven, hsub⟩ := hhistory.ran.toClient
    rw [sentToClient_eq, delivered_eq] at hgiven
    rw [delivered_eq] at hsub
    refine ⟨⟨_, given, hpath, hgiven, hsub⟩, ?_⟩
    intro addr origin packet hevent
    exact hhistory.address _
      (List.mem_filter.2 ⟨hevent, decide_eq_true rfl⟩) addr rfl

end FactoryCacher
