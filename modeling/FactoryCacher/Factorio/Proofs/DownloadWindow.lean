/-
The window of the world download: how many blocks are asked for at a
time, and that the download never stalls.

# The argument

Between packets the proxy has asked for everything in flight and for
nothing that is queued, and sixteen blocks are in flight unless the queue
has run dry. Three things happen to a download (`Window`): blocks are
requested until the window is full (`Window.request`), a block is
accepted from either set, which may leave a gap (`Window.accept`), and
what is in flight is requested again (`Window.reRequest`). A gap is
filled before the packet is done with, except where a packet leaves the
sets as they are, and then the window was full already.

What was asked for is read off the packets pushed to the server
(`serverRequests`), not off the proxy's books.
-/
import FactoryCacher.Factorio.ClientProxy
import FactoryCacher.Factorio.Proofs.Forwarding

namespace FactoryCacher

open ServerProxyState

-- ============================================================= the requests

/-- The ids of the block requests pushed to the server, in order. -/
def serverRequests (events : List ServerEvent) : List UInt32 :=
  events.filterMap fun event =>
    match event with
    | .push packet .toServer =>
        (decodeBlockRequest packet).map TransferBlockRequestPacket.blockId
    | .push _ .toClient => none
    | .transfer _ => none

@[simp] theorem serverRequests_append (a b : List ServerEvent) :
    serverRequests (a ++ b) = serverRequests a ++ serverRequests b :=
  List.filterMap_append ..

theorem decodeBlockRequest_encodeFullPacket
    (packet : TransferBlockRequestPacket) :
    decodeBlockRequest (encodeFullPacket packet) = some packet := by
  unfold decodeBlockRequest
  rw [FactorioPacketHeader.decode_encodeFullPacket packet (Or.inl rfl)]
  show (TransferBlockRequestPacket.decode
    (FactorioPacket.encode packet)).toOption = some packet
  rw [TransferBlockRequestPacket.decode_encode]
  rfl

@[simp] theorem serverRequests_requests (ids : List UInt32) :
    serverRequests (ids.map requestEvent) = ids := by
  induction ids with
  | nil => rfl
  | cons id rest ih =>
      have hdecode := decodeBlockRequest_encodeFullPacket ⟨id⟩
      unfold serverRequests at ih ⊢
      rw [List.map_cons, List.filterMap_cons, ih]
      simp only [requestEvent, hdecode, Option.map_some]

@[simp] theorem serverRequests_toClient (packet : Bytes) :
    serverRequests [.push packet .toClient] = [] := rfl

-- =============================================================== the window

/-- The loop of `request_next_blocks` does not overfill the window. -/
theorem requestLoop_atMost (turns : Nat) (queue inflight : OrdSet UInt32)
    (h : inflight.len ≤ 16) :
    (requestLoop turns queue inflight).2.1.len ≤ 16 := by
  induction turns generalizing queue inflight with
  | zero => exact h
  | succ turns ih =>
      rw [requestLoop]
      by_cases hroom : inflight.len < inflightBlockRequestLimit
      case neg =>
        rw [if_neg hroom]
        exact h
      case pos =>
        rw [if_pos hroom]
        cases hpop : queue.popFirst with
        | none => exact h
        | some popped =>
            have hlen := inflight.len_insert_le popped.1
            unfold inflightBlockRequestLimit at hroom
            exact ih popped.2 (inflight.insert popped.1) (by omega)

/-- It fills it, as far as the queue goes. -/
theorem requestLoop_full (turns : Nat) (queue inflight : OrdSet UInt32)
    (hturns : queue.len ≤ turns) :
    (requestLoop turns queue inflight).1.isEmpty = true
      ∨ 16 ≤ (requestLoop turns queue inflight).2.1.len := by
  induction turns generalizing queue inflight with
  | zero =>
      left
      exact List.isEmpty_iff_length_eq_zero.mpr (Nat.le_zero.mp hturns)
  | succ turns ih =>
      rw [requestLoop]
      by_cases hroom : inflight.len < inflightBlockRequestLimit
      case neg =>
        rw [if_neg hroom]
        exact Or.inr (not_lt.mp hroom)
      case pos =>
        rw [if_pos hroom]
        cases hpop : queue.popFirst with
        | none => exact Or.inl (OrdSet.popFirst_eq_none hpop)
        | some popped =>
            have hlen := OrdSet.len_popFirst hpop
            exact ih popped.2 (inflight.insert popped.1) (by omega)

/-- A download and the requests made for it: where every id is, no more
than sixteen in flight, all of them asked for, and none of the
queued. -/
structure Window (worldInfo : FactorioWorldMetadata) (total : Nat)
    (state : DownloadingWorldState) (asked : List UInt32) : Prop where
  blocks : DownloadInv worldInfo total (fun _ => True) state
  atMost : state.inflightBlockRequests.len ≤ 16
  inflight : ∀ id ∈ state.inflightBlockRequests, id ∈ asked
  queued : ∀ id ∈ state.blockRequestQueue, id ∉ asked

/-- The window is full, unless the queue has run dry. -/
def Full (state : DownloadingWorldState) : Prop :=
  state.blockRequestQueue.isEmpty = true
    ∨ 16 ≤ state.inflightBlockRequests.len

/-- Something is missing. -/
def Missing (state : DownloadingWorldState) : Prop :=
  ∃ id, id ∈ state.inflightBlockRequests ∨ id ∈ state.blockRequestQueue

/-- Where something is missing and the window is full, something is in
flight. -/
theorem Full.outstanding {state : DownloadingWorldState}
    (hfull : Full state) (hmissing : Missing state) :
    1 ≤ state.inflightBlockRequests.len := by
  rcases hfull with hempty | hfull
  · obtain ⟨id, hin | hin⟩ := hmissing
    · exact OrdSet.len_pos hin
    · exact absurd hin (OrdSet.isEmpty_iff.mp hempty id)
  · omega

namespace Window

variable {worldInfo : FactorioWorldMetadata} {total : Nat}
  {state : DownloadingWorldState} {asked : List UInt32}

/-- `request_next_blocks`. -/
theorem request (h : Window worldInfo total state asked) :
    Window worldInfo total (requestNextBlocks state).1
        (asked ++ serverRequests (requestNextBlocks state).2)
      ∧ Full (requestNextBlocks state).1
      ∧ (Missing state → Missing (requestNextBlocks state).1) := by
  obtain ⟨ids, hids, hfrom, hinflight, hqueue⟩ := requestLoop_moves
    state.blockRequestQueue.len state.blockRequestQueue
    state.inflightBlockRequests
  have hevents : serverRequests (requestNextBlocks state).2 = ids := by
    show serverRequests (requestLoop _ _ _).2.2 = ids
    rw [hids, serverRequests_requests]
  rw [hevents]
  refine ⟨⟨requestNextBlocks_spec h.blocks,
    requestLoop_atMost _ _ _ h.atMost, ?_, ?_⟩,
    requestLoop_full _ _ _ le_rfl, ?_⟩
  · intro id hid
    rcases (hinflight id).mp hid with hid | hid
    · exact List.mem_append_left _ (h.inflight id hid)
    · exact List.mem_append_right _ hid
  · intro id hid hin
    obtain ⟨hold, hnew⟩ := (hqueue id).mp hid
    rcases List.mem_append.mp hin with hin | hin
    · exact h.queued id hold hin
    · exact hnew hin
  · intro hmissing
    obtain ⟨hsame, -⟩ := requestLoop_spec state.blockRequestQueue.len
      state.blockRequestQueue state.inflightBlockRequests
      h.blocks.inflightApart
    obtain ⟨id, hid⟩ := hmissing
    exact ⟨id, (hsame id).mpr hid⟩

/-- A block arrives. -/
theorem accept (h : Window worldInfo total state asked)
    (block : TransferBlockPacket) (now : Nat) :
    Window worldInfo total (acceptBlock state block now) asked := by
  have hblocks : DownloadInv worldInfo total (fun _ => True)
      (acceptBlock state block now) :=
    acceptBlock_spec h.blocks now fun _ => trivial
  have hinflight : (acceptBlock state block now).inflightBlockRequests
      = state.inflightBlockRequests.erase block.blockId := by
    unfold acceptBlock OrdSet.remove
    by_cases hin : block.blockId ∈ state.inflightBlockRequests
    · simp [hin]
    · by_cases hqueue : block.blockId ∈ state.blockRequestQueue
      · simp [hin, hqueue]
      · simp [hin, hqueue]
  have hqueue : ∀ id ∈ (acceptBlock state block now).blockRequestQueue,
      id ∈ state.blockRequestQueue := by
    intro id hid
    unfold acceptBlock OrdSet.remove at hid
    by_cases hin : block.blockId ∈ state.inflightBlockRequests
    · simpa [hin] using hid
    · by_cases hqueue : block.blockId ∈ state.blockRequestQueue
      · simp only [hin, hqueue, decide_true, decide_false] at hid
        exact (OrdSet.mem_erase.mp hid).1
      · simp only [hin, hqueue, decide_false] at hid
        exact (OrdSet.mem_erase.mp hid).1
  refine ⟨hblocks, ?_, ?_, ?_⟩
  · have hlen := state.inflightBlockRequests.len_erase_le block.blockId
    rw [hinflight]
    exact hlen.trans h.atMost
  · intro id hid
    rw [hinflight] at hid
    exact h.inflight id (OrdSet.mem_erase.mp hid).1
  · intro id hid
    exact h.queued id (hqueue id hid)

/-- Asking again for what is in flight. -/
theorem again (h : Window worldInfo total state asked) :
    Window worldInfo total state
      (asked ++ state.inflightBlockRequests.toList) := by
  refine ⟨h.blocks, h.atMost, ?_, ?_⟩
  · intro id hid
    exact List.mem_append_left _ (h.inflight id hid)
  · intro id hid hin
    rcases List.mem_append.mp hin with hin | hin
    · exact h.queued id hid hin
    · exact h.blocks.inflightApart id hin hid

/-- The re-request branch, taken or not. -/
theorem reRequest (h : Window worldInfo total state asked)
    (hfull : Full state) (t : Instants) :
    Window worldInfo total (ServerProxyState.reRequest state t).1
        (asked ++ serverRequests (ServerProxyState.reRequest state t).2)
      ∧ Full (ServerProxyState.reRequest state t).1
      ∧ (Missing state →
          Missing (ServerProxyState.reRequest state t).1) := by
  unfold ServerProxyState.reRequest
  by_cases hlate : t.checkBlock - state.lastBlockTime > 100000000
  case neg =>
    rw [if_neg hlate]
    refine ⟨?_, hfull, id⟩
    show Window _ _ state (asked ++ [])
    rwa [List.append_nil]
  case pos =>
    rw [if_pos hlate]
    obtain ⟨hwindow, hfull', hmissing⟩ := h.again.request
    rw [serverRequests_append, serverRequests_requests, ← List.append_assoc]
    -- the time of the last block is none of the window's business
    exact ⟨⟨hwindow.blocks.moved t.setBlock (fun _ => Iff.rfl)
      hwindow.blocks.inflightApart, hwindow.atMost, hwindow.inflight,
      hwindow.queued⟩, hfull', hmissing⟩

/-- A download as it starts, before the first requests. -/
theorem start (worldInfo newWorldInfo : FactorioWorldMetadata) (now : Nat) :
    Window worldInfo (totalBlockCount worldInfo).toNat
      (startDownload worldInfo newWorldInfo now) [] := by
  refine ⟨downloadInv_start _ newWorldInfo now rfl, Nat.zero_le _, ?_, ?_⟩
  · intro id hid
    exact absurd hid (OrdSet.not_mem_empty id)
  · intro id _
    exact List.not_mem_nil

end Window

-- ============================================================== whole runs

/-- The run of the proxy, as far as the window goes. Something is missing
throughout a download that is not of nothing. -/
inductive WindowRun : ServerProxyState → List ServerEvent → Prop
  | waiting {s emitted} (hphase : s.phase = .waitingForWorld)
      (hasked : serverRequests emitted = [])
      (hnone : transfers emitted = []) : WindowRun s emitted
  | running {s emitted state worldInfo}
      (hphase : s.phase = .downloadingWorld state)
      (hwindow : Window worldInfo (totalBlockCount worldInfo).toNat state
        (serverRequests emitted))
      (hfull : Full state)
      (hmissing : totalBlockCount worldInfo ≠ 0 → Missing state)
      (hnone : transfers emitted = []) : WindowRun s emitted
  | finished {s emitted state worldInfo} (hphase : s.phase = .done)
      (hone : transfers emitted = [state])
      (hblocks : DownloadInv worldInfo (totalBlockCount worldInfo).toNat
        (fun _ => True) state) : WindowRun s emitted

/-- The packet that announces the world. -/
theorem windowRun_announced {s : ServerProxyState}
    {emitted : List ServerEvent} (hasked : serverRequests emitted = [])
    (hnone : transfers emitted = []) (packet : Bytes)
    (worldInfo : FactorioWorldMetadata) (t : Instants) :
    WindowRun (s.transitionToDownloadingWorld packet worldInfo t).1
      (emitted ++ (s.transitionToDownloadingWorld packet worldInfo t).2) := by
  obtain ⟨hwindow, hfull, hmissing⟩ :=
    (Window.start worldInfo (s.newWorldInfo worldInfo) t.setBlock).request
  have hphase : (s.transitionToDownloadingWorld packet worldInfo t).1.phase
      = .downloadingWorld (requestNextBlocks (startDownload worldInfo
          (s.newWorldInfo worldInfo) t.setBlock)).1 := rfl
  have hevents : serverRequests
      (emitted ++ (s.transitionToDownloadingWorld packet worldInfo t).2)
      = [] ++ serverRequests (requestNextBlocks (startDownload worldInfo
          (s.newWorldInfo worldInfo) t.setBlock)).2 := by
    rw [transitionToDownloadingWorld_snd, serverRequests_append,
      serverRequests_append, hasked, serverRequests_toClient,
      List.nil_append]
  refine .running hphase (hevents ▸ hwindow) hfull ?_ ?_
  · intro hblocks
    have hpos : 0 < (totalBlockCount worldInfo).toNat :=
      Nat.pos_of_ne_zero fun hzero => hblocks (UInt32.toNat_inj.mp hzero)
    exact hmissing ⟨0, Or.inr (mem_blockIds.mpr hpos)⟩
  · obtain ⟨ids, hids⟩ := requestNextBlocks_requests (startDownload
      worldInfo (s.newWorldInfo worldInfo) t.setBlock)
    rw [transitionToDownloadingWorld_snd, transfers_append,
      transfers_append, hnone, hids, transfers_requests]
    rfl

/-- After a block. -/
theorem windowRun_continue {s s' : ServerProxyState}
    {worldInfo : FactorioWorldMetadata} {state : DownloadingWorldState}
    {emitted out : List ServerEvent}
    (hwindow : Window worldInfo (totalBlockCount worldInfo).toNat state
      (serverRequests emitted))
    (hnone : transfers emitted = [])
    (hstep : s.continueDownload state = some (s', out)) :
    WindowRun s' (emitted ++ out) := by
  rcases continueDownload_cases hstep with hdone | hmore
  · obtain ⟨-, hphase, hout⟩ := hdone
    refine .finished hphase ?_ hwindow.blocks
    rw [hout, transfers_append, hnone]
    rfl
  · obtain ⟨hmissing, hphase, -, rfl⟩ := hmore
    obtain ⟨hwindow', hfull, hstill⟩ := hwindow.request
    obtain ⟨ids, hids⟩ := requestNextBlocks_requests state
    rw [← serverRequests_append] at hwindow'
    refine .running hphase hwindow' hfull (fun _ => hstill hmissing) ?_
    rw [transfers_append, hnone, hids, transfers_requests]
    rfl

/-- One packet. -/
theorem windowRun_step {s s' : ServerProxyState}
    {emitted out : List ServerEvent} {d : Delivery}
    (h : WindowRun s emitted)
    (hstep : s.onPacketFromServer d = some (s', out)) :
    WindowRun s' (emitted ++ out) := by
  cases h with
  | waiting hphase hasked hnone =>
      cases hworld : announcedWorld d.packet with
      | none =>
          rw [onPacketFromServer_waiting hphase hworld] at hstep
          obtain ⟨hphase', -, hout⟩ := forwarded_spec hstep
          refine .waiting (hphase'.trans hphase) ?_ ?_
          · rw [hout, serverRequests_append, hasked, serverRequests_toClient]
            rfl
          · rw [hout, transfers_append, hnone]
            rfl
      | some worldInfo =>
          rw [onPacketFromServer_announcement hphase hworld] at hstep
          cases hstep
          exact windowRun_announced hasked hnone d.packet worldInfo
            d.instants
  | @running state worldInfo hphase hwindow hfull hmissing hnone =>
      rw [onPacketFromServer_downloading hphase] at hstep
      by_cases hblock : isTransferBlock d.packet = true
      case pos =>
        rw [if_pos hblock] at hstep
        cases hdecode : decodeTransferBlock d.packet with
        | none =>
            rw [hdecode] at hstep
            cases hstep
            rw [List.append_nil]
            exact .running hphase hwindow hfull hmissing hnone
        | some block =>
            rw [hdecode] at hstep
            exact windowRun_continue
              (hwindow.accept block d.instants.setBlock) hnone hstep
      case neg =>
        rw [if_neg hblock] at hstep
        obtain ⟨hphase', -, hout⟩ := forwardDownloading_spec hstep
        obtain ⟨hwindow', hfull', hmissing'⟩ :=
          hwindow.reRequest hfull d.instants
        have hasked : serverRequests (emitted ++ out)
            = serverRequests emitted ++ serverRequests
              (ServerProxyState.reRequest state d.instants).2 := by
          rw [hout, serverRequests_append, serverRequests_append,
            serverRequests_toClient, List.append_nil]
        rw [← hasked] at hwindow'
        refine .running hphase' hwindow' hfull'
          (fun hblocks => hmissing' (hmissing hblocks)) ?_
        obtain ⟨ids, hids⟩ := reRequest_requests state d.instants
        rw [hout, transfers_append, transfers_append, hnone, hids,
          transfers_requests]
        rfl
  | finished hphase hone hblocks =>
      rw [onPacketFromServer_done hphase] at hstep
      obtain ⟨hphase', -, hout⟩ := forwarded_spec hstep
      refine .finished (hphase'.trans hphase) ?_ hblocks
      rw [hout, transfers_append, hone]
      rfl

/-- Every run from the start. -/
theorem windowRun_run {worldEstimate : UInt32 → UInt32}
    {deliveries : List Delivery} {s : ServerProxyState}
    {out : List ServerEvent}
    (hrun : Machine.run onPacketFromServer
      (ServerProxyState.new worldEstimate) deliveries = some (s, out)) :
    WindowRun s out := by
  have hstep : ∀ (s : ServerProxyState) (past : List Delivery)
      (emitted : List ServerEvent) (d : Delivery) (s' : ServerProxyState)
      (out : List ServerEvent), WindowRun s emitted →
      s.onPacketFromServer d = some (s', out) →
      WindowRun s' (emitted ++ out) :=
    fun _ _ _ _ _ _ h hs => windowRun_step h hs
  exact Machine.run_history hstep (.waiting rfl rfl rfl) hrun

/-- The window between packets. In every state a run of the proxy reaches
while it downloads a world of at least one block: every block id below
the total is received, in flight, or queued, and only one of these; at
least one is in flight and at most sixteen are, and sixteen are as long
as the queue is not empty; what is in flight was requested from the
server, and what is queued never was. -/
theorem download_window {worldEstimate : UInt32 → UInt32}
    {deliveries : List Delivery} {s : ServerProxyState}
    {out : List ServerEvent} {state : DownloadingWorldState}
    (hrun : Machine.run onPacketFromServer
      (ServerProxyState.new worldEstimate) deliveries = some (s, out))
    (hphase : s.phase = .downloadingWorld state)
    (hblocks : totalBlockCount state.worldInfo ≠ 0) :
    (∀ id : UInt32, id.toNat < (totalBlockCount state.worldInfo).toNat
      ↔ id ∈ state.receivedBlocks.map TransferBlockPacket.blockId
        ∨ id ∈ state.inflightBlockRequests
        ∨ id ∈ state.blockRequestQueue)
    ∧ (∀ id ∈ state.receivedBlocks.map TransferBlockPacket.blockId,
        id ∉ state.inflightBlockRequests ∧ id ∉ state.blockRequestQueue)
    ∧ (∀ id ∈ state.inflightBlockRequests, id ∉ state.blockRequestQueue)
    ∧ 1 ≤ state.inflightBlockRequests.len
    ∧ state.inflightBlockRequests.len ≤ 16
    ∧ (state.blockRequestQueue.isEmpty = false →
        state.inflightBlockRequests.len = 16)
    ∧ (∀ id ∈ state.inflightBlockRequests, id ∈ serverRequests out)
    ∧ ∀ id ∈ state.blockRequestQueue, id ∉ serverRequests out := by
  cases windowRun_run hrun with
  | waiting hwaiting =>
      rw [hphase] at hwaiting
      cases hwaiting
  | finished hdone =>
      rw [hphase] at hdone
      cases hdone
  | @running state' worldInfo hdownloading hwindow hfull hmissing =>
      rw [hphase] at hdownloading
      cases hdownloading
      have hinfo := hwindow.blocks.info
      rw [hinfo] at hblocks ⊢
      refine ⟨hwindow.blocks.everywhere, hwindow.blocks.receivedApart,
        hwindow.blocks.inflightApart, hfull.outstanding (hmissing hblocks),
        hwindow.atMost, ?_, hwindow.inflight, hwindow.queued⟩
      intro hqueue
      rcases hfull with hempty | hfull
      · rw [hqueue] at hempty
        cases hempty
      · exact le_antisymm hwindow.atMost hfull

/-- A map-ready heartbeat for a world of twenty blocks. -/
def twentyBlocks : Delivery :=
  ⟨[7, 0x10, 0, 0, 0, 0, 1, 5]
    ++ FactorioWorldMetadata.encode ⟨10060, 0, 0, 0, 0⟩, atRest⟩

/-- Of twenty blocks, sixteen are in flight at first. -/
theorem download_window_twentyBlocks :
    ∃ s out state,
      Machine.run onPacketFromServer (ServerProxyState.new id)
        [twentyBlocks] = some (s, out)
      ∧ s.phase = .downloadingWorld state
      ∧ totalBlockCount state.worldInfo ≠ 0
      ∧ state.blockRequestQueue.isEmpty = false
      ∧ 1 ≤ state.inflightBlockRequests.len
      ∧ state.inflightBlockRequests.len = 16 := by
  have hrun : Machine.run onPacketFromServer (ServerProxyState.new id)
      [twentyBlocks] = some (_, _) := rfl
  obtain ⟨-, -, -, hleast, -, hfull, -⟩ :=
    download_window hrun rfl (by decide)
  exact ⟨_, _, _, hrun, rfl, by decide, rfl, hleast, hfull rfl⟩

end FactoryCacher
