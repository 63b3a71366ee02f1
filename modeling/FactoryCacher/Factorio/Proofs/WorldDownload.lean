/-
The world download: whatever the game server's packets do on the way,
what is handed over is the world the server sent.

# The argument

Every block id below the total is in exactly one of three places:
received, in flight, queued (`DownloadInv`). A packet only ever moves an
id toward the front of that list: `request_next_blocks` from the queue
into flight, an accepted block from either to received. So no id is
received twice, and the download ends exactly when everything is
received. Blocks are kept with their content, which the hypothesis on
the packets fixes (`CarriesBlock`); sorted by id they are the blocks of
one stream in order, and `flatten_blocks` glues them.

`onPacketFromServer_downloading` and its neighbours say once what a step
can do in each phase; `Downloading` is the invariant of the whole run,
including what was handed over so far.
-/
import FactoryCacher.Lib.Blocks
import FactoryCacher.Factorio.ServerProxy
import FactoryCacher.Factorio.Proofs.ZipRoundTrip

namespace FactoryCacher

open ServerProxyState

-- =================================================== what a step can do

/-- A packet `FactorioPacketHeader::decode` classifies as a block. -/
def isTransferBlock (packet : Bytes) : Bool :=
  match FactorioPacketHeader.decode packet with
  | .ok (header, _) => header.packetType = .transferBlock
  | .error _ => false

/-- The block a packet decodes to. -/
def decodeTransferBlock (packet : Bytes) : Option TransferBlockPacket :=
  match FactorioPacketHeader.decode packet with
  | .ok (header, msgData) =>
      if header.packetType = .transferBlock then
        (TransferBlockPacket.decode msgData).toOption
      else none
  | .error _ => none

/-- The step while downloading, by the kind of packet. -/
theorem onPacketFromServer_downloading {s : ServerProxyState}
    {state : DownloadingWorldState}
    (hphase : s.phase = .downloadingWorld state) (d : Delivery) :
    s.onPacketFromServer d
      = if isTransferBlock d.packet then
          match decodeTransferBlock d.packet with
          | none => some (s, [])
          | some block =>
              s.continueDownload
                (acceptBlock state block d.instants.setBlock)
        else s.forwardDownloading state d := by
  unfold onPacketFromServer isTransferBlock decodeTransferBlock
  rw [hphase]
  dsimp only
  cases FactorioPacketHeader.decode d.packet with
  | error e => simp
  | ok decoded =>
      obtain ⟨header, msgData⟩ := decoded
      dsimp only
      by_cases htype : header.packetType = .transferBlock
      case neg => simp [htype]
      case pos =>
        simp only [htype, if_true, decide_true]
        cases TransferBlockPacket.decode msgData with
        | error e => rfl
        | ok block => rfl

/-- While waiting, an announcement starts the download. -/
theorem onPacketFromServer_announcement {s : ServerProxyState}
    (hphase : s.phase = .waitingForWorld) {d : Delivery}
    {worldInfo : FactorioWorldMetadata}
    (hworld : announcedWorld d.packet = some worldInfo) :
    s.onPacketFromServer d
      = some (s.transitionToDownloadingWorld d.packet worldInfo
          d.instants) := by
  simp only [onPacketFromServer, hphase, hworld]

/-- Any other packet is forwarded. -/
theorem onPacketFromServer_waiting {s : ServerProxyState}
    (hphase : s.phase = .waitingForWorld) {d : Delivery}
    (hworld : announcedWorld d.packet = none) :
    s.onPacketFromServer d
      = some (s.forwardPacket d.packet d.instants) := by
  simp only [onPacketFromServer, hphase, hworld]

theorem onPacketFromServer_done {s : ServerProxyState}
    (hphase : s.phase = .done) (d : Delivery) :
    s.onPacketFromServer d
      = some (s.forwardPacket d.packet d.instants) := by
  unfold onPacketFromServer
  rw [hphase]

/-- The packet as it is forwarded in state `s`. -/
def ServerProxyState.rewritten (s : ServerProxyState) (packet : Bytes) :
    Bytes :=
  match s.packetFilter with
  | none => packet
  | some filteringState => filteringState.rewrite packet

theorem filterPacket_snd (state : FilteringPacketsState) (packet : Bytes)
    (now : Nat) :
    (filterPacket state packet now).2 = state.rewrite packet := by
  unfold filterPacket
  by_cases h : (findIter state.needle 0 0 packet).isEmpty
  case pos =>
    rw [if_pos h, FilteringPacketsState.rewrite, replaceAll,
      List.isEmpty_iff.mp h]
    rfl
  case neg => rw [if_neg h]

/-- The announcement goes on rewritten, and the first requests go out. -/
theorem transitionToDownloadingWorld_snd (s : ServerProxyState)
    (packet : Bytes) (worldInfo : FactorioWorldMetadata) (t : Instants) :
    (s.transitionToDownloadingWorld packet worldInfo t).2
      = [.push ((startFilter worldInfo (s.newWorldInfo worldInfo)
          t.checkReplace).rewrite packet) .toClient]
        ++ (requestNextBlocks (startDownload worldInfo
          (s.newWorldInfo worldInfo) t.setBlock)).2 := by
  rw [← filterPacket_snd _ packet t.setReplace]
  rfl

/-- Forwarding touches nothing but the filter, and pushes the packet
rewritten. -/
theorem forwardPacket_spec (s : ServerProxyState) (packet : Bytes)
    (t : Instants) :
    (s.forwardPacket packet t).1.phase = s.phase
      ∧ (s.forwardPacket packet t).1.compStream = s.compStream
      ∧ (s.forwardPacket packet t).2
        = [.push (s.rewritten packet) .toClient] := by
  unfold forwardPacket rewritten
  cases hfilter : s.packetFilter with
  | none => exact ⟨rfl, rfl, rfl⟩
  | some filteringState =>
      refine ⟨rfl, rfl, ?_⟩
      show [ServerEvent.push (filterPacket filteringState packet
        t.setReplace).2 .toClient] = _
      rw [filterPacket_snd]

/-- The same, for a step that only forwards. -/
theorem forwarded_spec {s s' : ServerProxyState} {d : Delivery}
    {out : List ServerEvent}
    (hstep : some (s.forwardPacket d.packet d.instants) = some (s', out)) :
    s'.phase = s.phase ∧ s'.compStream = s.compStream
      ∧ out = [.push (s.rewritten d.packet) .toClient] := by
  have hspec := forwardPacket_spec s d.packet d.instants
  rwa [Option.some.inj hstep] at hspec

/-- And for one that forwards while downloading. -/
theorem forwardDownloading_spec {s s' : ServerProxyState}
    {state : DownloadingWorldState} {d : Delivery} {out : List ServerEvent}
    (hstep : s.forwardDownloading state d = some (s', out)) :
    s'.phase = .downloadingWorld (reRequest state d.instants).1
      ∧ s'.compStream = s.compStream
      ∧ out = (reRequest state d.instants).2
        ++ [.push (s.rewritten d.packet) .toClient] := by
  obtain ⟨hphase, hstream, hpushed⟩ := forwardPacket_spec
    { s with phase := .downloadingWorld (reRequest state d.instants).1 }
    d.packet d.instants
  cases hstep
  exact ⟨hphase, hstream, congrArg _ hpushed⟩

/-- After a block: the download is handed over when nothing is missing,
and goes on otherwise. -/
theorem continueDownload_cases {s s' : ServerProxyState}
    {state : DownloadingWorldState} {out : List ServerEvent}
    (hstep : s.continueDownload state = some (s', out)) :
    ((∀ id, id ∉ state.inflightBlockRequests
        ∧ id ∉ state.blockRequestQueue)
      ∧ s'.phase = .done ∧ out = [.transfer state])
    ∨ ((∃ id, id ∈ state.inflightBlockRequests
        ∨ id ∈ state.blockRequestQueue)
      ∧ s'.phase = .downloadingWorld (requestNextBlocks state).1
      ∧ s'.compStream = s.compStream
      ∧ out = (requestNextBlocks state).2) := by
  unfold continueDownload at hstep
  by_cases hall : state.blockRequestQueue.isEmpty
      ∧ state.inflightBlockRequests.isEmpty
  case pos =>
    rw [if_pos hall] at hstep
    unfold finalizeWorld at hstep
    dsimp only at hstep
    split at hstep
    case isTrue =>
      cases hstep
      refine Or.inl ⟨fun id => ?_, rfl, rfl⟩
      exact ⟨OrdSet.isEmpty_iff.mp hall.2 id, OrdSet.isEmpty_iff.mp hall.1 id⟩
    case isFalse => cases hstep
  case neg =>
    rw [if_neg hall] at hstep
    cases hstep
    refine Or.inr ⟨?_, rfl, rfl, rfl⟩
    by_contra hnone
    simp only [not_exists, not_or] at hnone
    exact hall ⟨OrdSet.isEmpty_iff.mpr fun id => (hnone id).2,
      OrdSet.isEmpty_iff.mpr fun id => (hnone id).1⟩

/-- It does not panic while the stream to the other cacher is held. -/
theorem continueDownload_ok {s : ServerProxyState}
    (hstream : s.compStream = true) (state : DownloadingWorldState) :
    ∃ s' out, s.continueDownload state = some (s', out) := by
  unfold continueDownload
  by_cases hall : state.blockRequestQueue.isEmpty
      ∧ state.inflightBlockRequests.isEmpty
  case pos =>
    rw [if_pos hall]
    unfold finalizeWorld
    dsimp only
    rw [if_pos hstream]
    exact ⟨_, _, rfl⟩
  case neg =>
    rw [if_neg hall]
    exact ⟨_, _, rfl⟩

-- ============================================================ the partition

/-- The downloads handed over, in order. -/
def transfers (events : List ServerEvent) : List DownloadingWorldState :=
  events.filterMap fun event =>
    match event with
    | .transfer state => some state
    | .push _ _ => none

@[simp] theorem transfers_append (a b : List ServerEvent) :
    transfers (a ++ b) = transfers a ++ transfers b :=
  List.filterMap_append ..

@[simp] theorem transfers_requests (ids : List UInt32) :
    transfers (ids.map requestEvent) = [] := by
  induction ids with
  | nil => rfl
  | cons id rest ih => exact ih

/-- `request_next_blocks`: some ids of the queue are requested and move
into flight. -/
theorem requestLoop_moves (turns : Nat) (queue inflight : OrdSet UInt32) :
    ∃ ids : List UInt32,
      (requestLoop turns queue inflight).2.2 = ids.map requestEvent
      ∧ (∀ id ∈ ids, id ∈ queue)
      ∧ (∀ id, id ∈ (requestLoop turns queue inflight).2.1
          ↔ id ∈ inflight ∨ id ∈ ids)
      ∧ ∀ id, id ∈ (requestLoop turns queue inflight).1
          ↔ id ∈ queue ∧ id ∉ ids := by
  induction turns generalizing queue inflight with
  | zero => exact ⟨[], rfl, by simp, by simp [requestLoop],
      by simp [requestLoop]⟩
  | succ turns ih =>
      rw [requestLoop]
      by_cases hroom : inflight.len < inflightBlockRequestLimit
      case neg =>
        rw [if_neg hroom]
        exact ⟨[], rfl, by simp, by simp, by simp⟩
      case pos =>
        rw [if_pos hroom]
        cases hpop : queue.popFirst with
        | none => exact ⟨[], rfl, by simp, by simp, by simp⟩
        | some popped =>
            obtain ⟨blockId, rest⟩ := popped
            obtain ⟨hmem, hrest⟩ := OrdSet.popFirst_eq_some hpop
            obtain ⟨ids, hids, hfrom, hinflight, hqueue⟩ :=
              ih rest (inflight.insert blockId)
            refine ⟨blockId :: ids, ?_, ?_, ?_, ?_⟩
            · rw [List.map_cons, ← hids]
            · intro id hid
              rcases List.mem_cons.mp hid with rfl | hid
              · exact hmem
              · exact ((hrest id).mp (hfrom id hid)).1
            · intro id
              show id ∈ (requestLoop turns rest _).2.1 ↔ _
              rw [hinflight id, OrdSet.mem_insert, List.mem_cons]
              tauto
            · intro id
              show id ∈ (requestLoop turns rest _).1 ↔ _
              rw [hqueue id, hrest id, List.mem_cons]
              tauto

/-- In terms of what is missing: nothing is lost or doubled. -/
theorem requestLoop_spec (turns : Nat) (queue inflight : OrdSet UInt32)
    (hapart : ∀ id ∈ inflight, id ∉ queue) :
    (∀ id, (id ∈ (requestLoop turns queue inflight).2.1
        ∨ id ∈ (requestLoop turns queue inflight).1)
        ↔ (id ∈ inflight ∨ id ∈ queue))
      ∧ ∀ id ∈ (requestLoop turns queue inflight).2.1,
          id ∉ (requestLoop turns queue inflight).1 := by
  obtain ⟨ids, -, hfrom, hinflight, hqueue⟩ :=
    requestLoop_moves turns queue inflight
  refine ⟨fun id => ?_, fun id hid hin => ?_⟩
  · have hmoved := hfrom id
    rw [hinflight id, hqueue id]
    tauto
  · rw [hinflight id] at hid
    rw [hqueue id] at hin
    rcases hid with hid | hid
    · exact hapart id hid hin.1
    · exact hin.2 hid

theorem requestNextBlocks_requests (state : DownloadingWorldState) :
    ∃ ids : List UInt32,
      (requestNextBlocks state).2 = ids.map requestEvent := by
  obtain ⟨ids, hids, -⟩ := requestLoop_moves state.blockRequestQueue.len
    state.blockRequestQueue state.inflightBlockRequests
  exact ⟨ids, hids⟩

/-- The re-request branch pushes requests and nothing else. -/
theorem reRequest_requests (state : DownloadingWorldState) (t : Instants) :
    ∃ ids : List UInt32,
      (reRequest state t).2 = ids.map requestEvent := by
  unfold reRequest
  by_cases hlate : t.checkBlock - state.lastBlockTime > 100000000
  case neg =>
    rw [if_neg hlate]
    exact ⟨[], rfl⟩
  case pos =>
    rw [if_pos hlate]
    obtain ⟨ids, hids⟩ := requestNextBlocks_requests state
    refine ⟨state.inflightBlockRequests.toList ++ ids, ?_⟩
    rw [List.map_append, ← hids]

/-- Where every block id of a download of `total` blocks is: received
once, in flight, or queued. `Kept` is what is known of received
blocks. -/
structure DownloadInv (worldInfo : FactorioWorldMetadata) (total : Nat)
    (Kept : TransferBlockPacket → Prop) (state : DownloadingWorldState) :
    Prop where
  info : state.worldInfo = worldInfo
  worldBlocks : state.worldBlockCount = blockCount worldInfo.worldSize
  nodup : (state.receivedBlocks.map TransferBlockPacket.blockId).Nodup
  kept : ∀ block ∈ state.receivedBlocks, Kept block
  everywhere : ∀ id : UInt32, id.toNat < total
    ↔ id ∈ state.receivedBlocks.map TransferBlockPacket.blockId
      ∨ id ∈ state.inflightBlockRequests ∨ id ∈ state.blockRequestQueue
  receivedApart : ∀ id ∈ state.receivedBlocks.map TransferBlockPacket.blockId,
    id ∉ state.inflightBlockRequests ∧ id ∉ state.blockRequestQueue
  inflightApart : ∀ id ∈ state.inflightBlockRequests,
    id ∉ state.blockRequestQueue

section Partition

variable {worldInfo : FactorioWorldMetadata} {total : Nat}
  {Kept : TransferBlockPacket → Prop} {state : DownloadingWorldState}

/-- Ids that move between the queue and flight. -/
theorem DownloadInv.moved (h : DownloadInv worldInfo total Kept state)
    {queue inflight : OrdSet UInt32} (now : Nat)
    (hsame : ∀ id, (id ∈ inflight ∨ id ∈ queue)
      ↔ (id ∈ state.inflightBlockRequests ∨ id ∈ state.blockRequestQueue))
    (hapart : ∀ id ∈ inflight, id ∉ queue) :
    DownloadInv worldInfo total Kept
      { state with blockRequestQueue := queue
                   inflightBlockRequests := inflight
                   lastBlockTime := now } where
  info := h.info
  worldBlocks := h.worldBlocks
  nodup := h.nodup
  kept := h.kept
  everywhere id := by
    rw [h.everywhere id, hsame id]
  receivedApart id hid := by
    have hold := h.receivedApart id hid
    have hnew := hsame id
    constructor
    · intro hin
      exact absurd (hnew.mp (Or.inl hin)) (by simp [hold])
    · intro hin
      exact absurd (hnew.mp (Or.inr hin)) (by simp [hold])
  inflightApart := hapart

theorem requestNextBlocks_spec (h : DownloadInv worldInfo total Kept state) :
    DownloadInv worldInfo total Kept (requestNextBlocks state).1 := by
  obtain ⟨hsame, hapart⟩ := requestLoop_spec
    state.blockRequestQueue.len state.blockRequestQueue
    state.inflightBlockRequests h.inflightApart
  exact h.moved state.lastBlockTime hsame hapart

/-- The re-request branch only moves ids too. -/
theorem reRequest_spec (h : DownloadInv worldInfo total Kept state)
    (t : Instants) :
    DownloadInv worldInfo total Kept (reRequest state t).1 := by
  unfold reRequest
  by_cases hlate : t.checkBlock - state.lastBlockTime > 100000000
  case neg =>
    rw [if_neg hlate]
    exact h
  case pos =>
    rw [if_pos hlate]
    obtain ⟨hsame, hapart⟩ := requestLoop_spec
      state.blockRequestQueue.len state.blockRequestQueue
      state.inflightBlockRequests h.inflightApart
    exact h.moved t.setBlock hsame hapart

/-- A missing block that is received. -/
theorem DownloadInv.received (h : DownloadInv worldInfo total Kept state)
    {block : TransferBlockPacket} {queue inflight : OrdSet UInt32}
    (now : Nat) (hkept : block.blockId.toNat < total → Kept block)
    (hmissing : block.blockId ∈ state.inflightBlockRequests
      ∨ block.blockId ∈ state.blockRequestQueue)
    (hsame : ∀ id, (id ∈ inflight ∨ id ∈ queue)
      ↔ (id ∈ state.inflightBlockRequests ∨ id ∈ state.blockRequestQueue)
        ∧ id ≠ block.blockId)
    (hapart : ∀ id ∈ inflight, id ∉ queue) :
    DownloadInv worldInfo total Kept
      { state with inflightBlockRequests := inflight
                   blockRequestQueue := queue
                   receivedBlocks := state.receivedBlocks ++ [block]
                   lastBlockTime := now } := by
  have hfresh : block.blockId
      ∉ state.receivedBlocks.map TransferBlockPacket.blockId := by
    intro hin
    have hnot := h.receivedApart _ hin
    rcases hmissing with hin | hin
    · exact hnot.1 hin
    · exact hnot.2 hin
  constructor
  case info => exact h.info
  case worldBlocks => exact h.worldBlocks
  case nodup =>
    show ((state.receivedBlocks ++ [block]).map _).Nodup
    have hconcat := h.nodup.concat hfresh
    rw [List.concat_eq_append] at hconcat
    rw [List.map_append]
    exact hconcat
  case kept =>
    intro b hb
    rcases List.mem_append.mp hb with hb | hb
    · exact h.kept b hb
    · cases List.mem_singleton.mp hb
      exact hkept ((h.everywhere _).mpr (Or.inr hmissing))
  case everywhere =>
    intro id
    show id.toNat < total
      ↔ id ∈ (state.receivedBlocks ++ [block]).map _ ∨ _
    rw [h.everywhere id, hsame id, List.map_append, List.mem_append]
    by_cases hid : id = block.blockId
    case pos => simp [hid, hmissing]
    case neg => simp [hid]
  case receivedApart =>
    intro id hid
    have hgone : id ∉ inflight ∧ id ∉ queue
        ↔ ¬ (id ∈ inflight ∨ id ∈ queue) := not_or.symm
    show id ∉ inflight ∧ id ∉ queue
    rw [hgone, hsame id]
    rintro ⟨hin, hne⟩
    rw [List.map_append, List.mem_append] at hid
    rcases hid with hid | hid
    · have hnot := h.receivedApart id hid
      rcases hin with hin | hin
      · exact hnot.1 hin
      · exact hnot.2 hin
    · exact hne (List.mem_singleton.mp hid)
  case inflightApart => exact hapart

/-- An accepted block was missing, and is missing no more; any other
block changes nothing. -/
theorem acceptBlock_spec (h : DownloadInv worldInfo total Kept state)
    {block : TransferBlockPacket} (now : Nat)
    (hkept : block.blockId.toNat < total → Kept block) :
    DownloadInv worldInfo total Kept (acceptBlock state block now) := by
  unfold acceptBlock OrdSet.remove
  by_cases hinflight : block.blockId ∈ state.inflightBlockRequests
  case pos =>
    have hqueue := h.inflightApart _ hinflight
    simp only [hinflight, decide_true]
    refine h.received now hkept (Or.inl hinflight) (fun id => ?_) ?_
    · rw [OrdSet.mem_erase]
      by_cases hid : id = block.blockId
      case pos => simp [hid, hqueue]
      case neg => simp [hid]
    · intro id hid
      exact h.inflightApart id (OrdSet.mem_erase.mp hid).1
  case neg =>
    by_cases hqueue : block.blockId ∈ state.blockRequestQueue
    case pos =>
      simp only [hinflight, hqueue, decide_true, decide_false]
      refine h.received now hkept (Or.inr hqueue) (fun id => ?_) ?_
      · rw [OrdSet.mem_erase, OrdSet.mem_erase]
        tauto
      · intro id hid hin
        exact h.inflightApart id (OrdSet.mem_erase.mp hid).1
          (OrdSet.mem_erase.mp hin).1
    case neg =>
      simp only [hinflight, hqueue, decide_false]
      refine h.moved state.lastBlockTime (fun id => ?_) ?_
      · rw [OrdSet.mem_erase, OrdSet.mem_erase]
        by_cases hid : id = block.blockId
        case pos => simp [hid, hinflight, hqueue]
        case neg => simp [hid]
      · intro id hid hin
        exact h.inflightApart id (OrdSet.mem_erase.mp hid).1
          (OrdSet.mem_erase.mp hin).1

theorem mem_blockIds {count id : UInt32} :
    id ∈ blockIds count ↔ id.toNat < count.toNat := by
  unfold blockIds
  rw [OrdSet.mem_ofList, List.mem_map]
  constructor
  · rintro ⟨k, hk, rfl⟩
    have hlt := List.mem_range.mp hk
    have hcount := count.toNat_lt
    rw [UInt32.toNat_ofNat_of_lt' (by unfold UInt32.size; omega)]
    exact hlt
  · intro hid
    exact ⟨id.toNat, List.mem_range.mpr hid, UInt32.ofNat_toNat⟩

/-- A download as it starts. -/
theorem downloadInv_start (Kept : TransferBlockPacket → Prop)
    (newWorldInfo : FactorioWorldMetadata) (now : Nat)
    (htotal : (totalBlockCount worldInfo).toNat = total) :
    DownloadInv worldInfo total Kept
      (startDownload worldInfo newWorldInfo now) := by
  constructor
  case info => rfl
  case worldBlocks => rfl
  case nodup => exact List.nodup_nil
  case kept => simp [startDownload]
  case everywhere =>
    intro id
    rw [← htotal, ← mem_blockIds]
    simp [startDownload]
  case receivedApart => simp [startDownload]
  case inflightApart => simp [startDownload]

-- ============================================================== whole runs

/-- The run of a download: still going on with nothing handed over, or
handed over once, when nothing was missing. -/
inductive Downloading (worldInfo : FactorioWorldMetadata) (total : Nat)
    (Kept : TransferBlockPacket → Prop) :
    ServerProxyState → List ServerEvent → Prop
  | running {s emitted state} (hphase : s.phase = .downloadingWorld state)
      (hstream : s.compStream = true)
      (hinv : DownloadInv worldInfo total Kept state)
      (hnone : transfers emitted = []) :
      Downloading worldInfo total Kept s emitted
  | finished {s emitted state} (hphase : s.phase = .done)
      (hone : transfers emitted = [state])
      (hinv : DownloadInv worldInfo total Kept state)
      (hmissing : ∀ id, id ∉ state.inflightBlockRequests
        ∧ id ∉ state.blockRequestQueue) :
      Downloading worldInfo total Kept s emitted

/-- After a block, with whatever is missing now. -/
theorem continueDownload_spec {s : ServerProxyState}
    {emitted : List ServerEvent} (hstream : s.compStream = true)
    (hinv : DownloadInv worldInfo total Kept state)
    (hnone : transfers emitted = []) :
    ∃ s' out, s.continueDownload state = some (s', out)
      ∧ Downloading worldInfo total Kept s' (emitted ++ out) := by
  obtain ⟨s', out, hstep⟩ := continueDownload_ok hstream state
  refine ⟨s', out, hstep, ?_⟩
  rcases continueDownload_cases hstep with hdone | hmore
  · obtain ⟨hmissing, hphase, hout⟩ := hdone
    refine .finished hphase ?_ hinv hmissing
    rw [hout, transfers_append, hnone]
    rfl
  · obtain ⟨-, hphase, hstream', hout⟩ := hmore
    obtain ⟨ids, hids⟩ := requestNextBlocks_requests state
    refine .running hphase (hstream'.trans hstream)
      (requestNextBlocks_spec hinv) ?_
    rw [hout, transfers_append, hnone, hids, transfers_requests]
    rfl

/-- One packet of a download. -/
theorem downloading_step {s : ServerProxyState}
    {emitted : List ServerEvent} {d : Delivery}
    (h : Downloading worldInfo total Kept s emitted)
    (hpacket : ∀ block, decodeTransferBlock d.packet = some block →
      block.blockId.toNat < total → Kept block) :
    ∃ s' out, s.onPacketFromServer d = some (s', out)
      ∧ Downloading worldInfo total Kept s' (emitted ++ out) := by
  cases h with
  | @running state hphase hstream hinv hnone =>
      rw [onPacketFromServer_downloading hphase]
      by_cases hblock : isTransferBlock d.packet = true
      case neg =>
        rw [if_neg hblock]
        obtain ⟨ids, hids⟩ := reRequest_requests state d.instants
        obtain ⟨hphase', hstream', hpushed⟩ := forwardPacket_spec
          { s with phase := .downloadingWorld (reRequest state d.instants).1 }
          d.packet d.instants
        refine ⟨_, _, rfl, .running hphase' (hstream'.trans hstream)
          (reRequest_spec hinv d.instants) ?_⟩
        rw [transfers_append, transfers_append, hnone, hids,
          transfers_requests]
        show transfers (forwardPacket _ d.packet d.instants).2 = []
        rw [hpushed]
        rfl
      case pos =>
        rw [if_pos hblock]
        cases hdecode : decodeTransferBlock d.packet with
        | none =>
            refine ⟨s, [], rfl, .running hphase hstream hinv ?_⟩
            rw [List.append_nil]
            exact hnone
        | some block =>
            exact continueDownload_spec hstream
              (acceptBlock_spec hinv _ (hpacket block hdecode)) hnone
  | @finished state hphase hone hinv hmissing =>
      obtain ⟨hphase', -, hpushed⟩ :=
        forwardPacket_spec s d.packet d.instants
      rw [onPacketFromServer_done hphase]
      refine ⟨_, (s.forwardPacket d.packet d.instants).2, rfl,
        .finished (hphase'.trans hphase) ?_ hinv hmissing⟩
      rw [transfers_append, hone, hpushed]
      rfl

/-- A download with nothing missing: every id below the total was
received once. -/
theorem DownloadInv.complete (h : DownloadInv worldInfo total Kept state)
    (hmissing : ∀ id, id ∉ state.inflightBlockRequests
      ∧ id ∉ state.blockRequestQueue) (htotal : total ≤ 2 ^ 32) :
    (state.receivedBlocks.map fun block => block.blockId.toNat).Perm
      (List.range total) := by
  have hids : (state.receivedBlocks.map fun block => block.blockId.toNat)
      = (state.receivedBlocks.map TransferBlockPacket.blockId).map
        UInt32.toNat := by
    rw [List.map_map]
    rfl
  rw [hids]
  refine (List.perm_ext_iff_of_nodup ?_ List.nodup_range).mpr ?_
  · exact h.nodup.map fun a b hab => UInt32.toNat_inj.mp hab
  · intro k
    rw [List.mem_range, List.mem_map]
    constructor
    · rintro ⟨id, hid, rfl⟩
      exact (h.everywhere id).mpr (Or.inl hid)
    · intro hk
      have htoNat : (UInt32.ofNat k).toNat = k :=
        UInt32.toNat_ofNat_of_lt' (by unfold UInt32.size; omega)
      refine ⟨UInt32.ofNat k, ?_, htoNat⟩
      rcases (h.everywhere (UInt32.ofNat k)).mp (by omega) with hin | hin
      · exact hin
      · rcases hin with hin | hin
        · exact absurd hin (hmissing _).1
        · exact absurd hin (hmissing _).2

end Partition

-- ================================================================ the stream

/-- The world as the server pads it. -/
def paddedWorld (world : Bytes) : Bytes :=
  world ++ List.replicate (alignUp world.length - world.length) 0

theorem length_paddedWorld (world : Bytes) :
    (paddedWorld world).length = alignUp world.length := by
  have hle := le_alignUp world.length
  rw [paddedWorld, List.length_append, List.length_replicate]
  omega

/-- The number of blocks of the server's stream. -/
def streamBlocks (world aux : Bytes) : Nat :=
  ceilBlocks world.length + ceilBlocks aux.length

/-- `data` is the `k`-th block of the server's stream: the padded world,
the auxiliary data, and a last block that may be short or filled up with
anything. -/
def CarriesBlock (world aux : Bytes) (k : Nat) (data : Bytes) : Prop :=
  ∃ filler, (aux ++ filler).length ≤ alignUp aux.length
    ∧ data = block 503 (paddedWorld world ++ aux ++ filler) k

/-- Only the last block sees how it was filled up. -/
theorem CarriesBlock.eq_of_lt {world aux data : Bytes} {k : Nat}
    (h : CarriesBlock world aux k data)
    (hk : k + 1 < streamBlocks world aux) (filler : Bytes) :
    data = block 503 (paddedWorld world ++ aux ++ filler) k := by
  obtain ⟨filler', -, rfl⟩ := h
  have hcomplete : 503 * (k + 1) ≤ (paddedWorld world ++ aux).length := by
    rw [List.length_append, length_paddedWorld]
    unfold streamBlocks at hk
    unfold alignUp
    unfold ceilBlocks at *
    omega
  rw [block_append_of_le hcomplete, block_append_of_le hcomplete]

/-- Blocks with the ids `0..n` in any order, sorted: the ids in
order. -/
theorem map_blockId_mergeSort {blocks : List TransferBlockPacket} {n : Nat}
    (h : (blocks.map fun block => block.blockId.toNat).Perm
      (List.range n)) :
    ((blocks.mergeSort fun a b => a.blockId ≤ b.blockId).map
      fun block => block.blockId.toNat) = List.range n := by
  let le := fun a b : TransferBlockPacket => decide (a.blockId ≤ b.blockId)
  have htrans : ∀ a b c, le a b = true → le b c = true → le a c = true := by
    intro a b c hab hbc
    simp only [le, decide_eq_true_eq] at *
    exact le_trans hab hbc
  have htotal : ∀ a b, (le a b || le b a) = true := by
    intro a b
    simpa [le] using le_total a.blockId b.blockId
  have hsorted : ((blocks.mergeSort le).map
      fun block => block.blockId.toNat).Pairwise (· ≤ ·) := by
    rw [List.pairwise_map]
    refine (List.pairwise_mergeSort htrans htotal blocks).imp ?_
    intro a b hab
    exact UInt32.le_iff_toNat_le.mp (of_decide_eq_true hab)
  have hrange : (List.range n).Pairwise (· ≤ ·) :=
    List.pairwise_lt_range.imp Nat.le_of_lt
  have hperm := ((List.mergeSort_perm blocks le).map
    fun block => block.blockId.toNat).trans h
  exact hperm.eq_of_pairwise
    (fun a b _ _ hab hba => Nat.le_antisymm hab hba) hsorted hrange

/-- Some filling of the last block that all received blocks agree
with. -/
theorem exists_filler {world aux : Bytes}
    {blocks : List TransferBlockPacket}
    (hall : (blocks.map fun block => block.blockId.toNat).Perm
      (List.range (streamBlocks world aux)))
    (hkept : ∀ b ∈ blocks, CarriesBlock world aux b.blockId.toNat b.data) :
    ∃ filler, (aux ++ filler).length ≤ alignUp aux.length
      ∧ ∀ b ∈ blocks, b.data
        = block 503 (paddedWorld world ++ aux ++ filler)
          b.blockId.toNat := by
  cases hblocks : streamBlocks world aux with
  | zero =>
      refine ⟨[], by simp [le_alignUp], ?_⟩
      intro b hb
      have hb' := hall.mem_iff.mp (List.mem_map_of_mem hb)
      rw [hblocks] at hb'
      cases hb'
  | succ last =>
      have hlast : last ∈ List.range (streamBlocks world aux) := by
        rw [hblocks]
        exact List.mem_range.mpr (Nat.lt_succ_self last)
      obtain ⟨b₀, hb₀, hid₀⟩ := List.mem_map.mp (hall.mem_iff.mpr hlast)
      obtain ⟨filler, hfill, hdata⟩ := hkept b₀ hb₀
      refine ⟨filler, hfill, ?_⟩
      intro b hb
      have hlt := hall.mem_iff.mp (List.mem_map_of_mem hb)
      rw [List.mem_range] at hlt
      by_cases hid : b.blockId.toNat = last
      case pos =>
        have hnodup := hall.nodup_iff.mpr List.nodup_range
        have heq := List.inj_on_of_nodup_map hnodup hb hb₀
          (hid.trans hid₀.symm)
        rw [heq]
        exact hdata
      case neg => exact (hkept b hb).eq_of_lt (by omega) filler

/-- Sorted by id, a complete download is the stream, with some filling
of the last block. -/
theorem receivedData_eq {world aux : Bytes} {state : DownloadingWorldState}
    (hall : (state.receivedBlocks.map fun block => block.blockId.toNat).Perm
      (List.range (streamBlocks world aux)))
    (hkept : ∀ block ∈ state.receivedBlocks,
      CarriesBlock world aux block.blockId.toNat block.data) :
    ∃ filler, receivedData state = paddedWorld world ++ aux ++ filler := by
  obtain ⟨filler, hfill, hdata⟩ := exists_filler hall hkept
  refine ⟨filler, ?_⟩
  have hids := map_blockId_mergeSort hall
  have hmap : ((state.receivedBlocks.mergeSort
        fun a b => a.blockId ≤ b.blockId).map TransferBlockPacket.data)
      = (List.range (streamBlocks world aux)).map
        (block 503 (paddedWorld world ++ aux ++ filler)) := by
    rw [← hids, List.map_map]
    apply List.map_congr_left
    intro b hb
    exact hdata b (List.mem_mergeSort.mp hb)
  rw [receivedData, List.flatMap_def, hmap, flatten_blocks]
  apply List.take_of_length_le
  rw [List.append_assoc, List.length_append, length_paddedWorld]
  unfold alignUp at *
  unfold streamBlocks
  omega

/-- What `transfer_world_data` cuts out of the stream. -/
theorem worldAndAuxData_eq {worldInfo : FactorioWorldMetadata}
    {world aux : Bytes} {state : DownloadingWorldState}
    (hinfo : state.worldInfo = worldInfo)
    (hblocks : state.worldBlockCount = blockCount worldInfo.worldSize)
    (hworld : worldInfo.worldSize.toNat = world.length)
    (haux : worldInfo.auxSize.toNat = aux.length)
    (hworldMax : world.length ≤ 2 ^ 32 - 504)
    (hfits : alignUp world.length + aux.length < 2 ^ 32) {filler : Bytes}
    (hdata : receivedData state = paddedWorld world ++ aux ++ filler) :
    worldAndAuxData state = .ok (world, aux) := by
  have hoffset : (auxDataOffset state).toNat = alignUp world.length := by
    rw [auxDataOffset, hblocks, blockCount_mul_toNat (by omega), hworld]
  have hend : (auxDataOffset state + state.worldInfo.auxSize).toNat
      = alignUp world.length + aux.length := by
    rw [UInt32.toNat_add, hoffset, hinfo, haux]
    exact Nat.mod_eq_of_lt hfits
  have hle := le_alignUp world.length
  have hlength : (receivedData state).length
      = alignUp world.length + aux.length + filler.length := by
    rw [hdata, List.length_append, List.length_append, length_paddedWorld]
  have hfirst : sliceBytes (receivedData state) 0
      state.worldInfo.worldSize.toNat = .ok world := by
    rw [sliceBytes, hinfo, hworld, if_pos ⟨Nat.zero_le _, by omega⟩, hdata,
      paddedWorld, List.append_assoc, List.append_assoc, List.take_left]
    rfl
  have hsecond : sliceBytes (receivedData state) (auxDataOffset state).toNat
      (auxDataOffset state + state.worldInfo.auxSize).toNat = .ok aux := by
    rw [sliceBytes, hend, hoffset, if_pos ⟨by omega, by omega⟩, hdata,
      ← length_paddedWorld, ← List.length_append, List.take_left,
      List.drop_left]
  unfold worldAndAuxData
  rw [if_neg (by rw [hlength, hoffset, hinfo, haux]; omega), hfirst, hsecond]

/-- The announced block count is that of the stream. -/
theorem blockCount_add_toNat {worldInfo : FactorioWorldMetadata}
    {world aux : Bytes} (hworld : worldInfo.worldSize.toNat = world.length)
    (haux : worldInfo.auxSize.toNat = aux.length)
    (hworldMax : world.length ≤ 2 ^ 32 - 504)
    (hauxMax : aux.length ≤ 2 ^ 32 - 504) :
    (blockCount worldInfo.worldSize + blockCount worldInfo.auxSize).toNat
      = streamBlocks world aux := by
  rw [UInt32.toNat_add, blockCount_toNat (by omega),
    blockCount_toNat (by omega), hworld, haux, streamBlocks]
  apply Nat.mod_eq_of_lt
  unfold ceilBlocks
  omega

-- ======================================================== the whole download

/-- After the announcement, and as long as the blocks that arrive are
blocks of the server's stream, no run panics, no id is received twice,
and the download is handed over at most once: when every block was
received, and with the server's world and auxiliary data. -/
theorem world_download_reassembly (worldEstimate : UInt32 → UInt32)
    (announcement : Bytes) (t : Instants)
    {worldInfo : FactorioWorldMetadata} {world aux : Bytes}
    (hworld : worldInfo.worldSize.toNat = world.length)
    (haux : worldInfo.auxSize.toNat = aux.length)
    (hworldMax : world.length ≤ 2 ^ 32 - 504)
    (hauxMax : aux.length ≤ 2 ^ 32 - 504)
    (hfits : alignUp world.length + aux.length < 2 ^ 32)
    {deliveries : List Delivery}
    (hblocks : ∀ d ∈ deliveries, ∀ block,
      decodeTransferBlock d.packet = some block →
      block.blockId.toNat < streamBlocks world aux →
      CarriesBlock world aux block.blockId.toNat block.data) :
    ∃ s out,
      Machine.run onPacketFromServer
        ((ServerProxyState.new worldEstimate).transitionToDownloadingWorld
          announcement worldInfo t).1 deliveries = some (s, out)
      ∧ (∀ state, s.phase = .downloadingWorld state →
          (state.receivedBlocks.map TransferBlockPacket.blockId).Nodup)
      ∧ (transfers out).length ≤ 1
      ∧ ∀ state ∈ transfers out,
          (state.receivedBlocks.map fun block => block.blockId.toNat).Perm
            (List.range (streamBlocks world aux))
          ∧ worldAndAuxData state = .ok (world, aux)
          ∧ ∀ blake3 miniz zip, transferWorldData blake3 miniz zip state
            = (deconstructWorld blake3 miniz zip world aux).mapError
              .deconstruct := by
  let Kept := fun block : TransferBlockPacket =>
    CarriesBlock world aux block.blockId.toNat block.data
  have hstart : Downloading worldInfo (streamBlocks world aux) Kept
      ((ServerProxyState.new worldEstimate).transitionToDownloadingWorld
        announcement worldInfo t).1 [] := by
    have hinv := requestNextBlocks_spec (downloadInv_start Kept
      ((ServerProxyState.new worldEstimate).newWorldInfo worldInfo)
      t.setBlock (blockCount_add_toNat hworld haux hworldMax hauxMax))
    exact .running rfl rfl hinv rfl
  have hmeet := Machine.stepsMeet_of onPacketFromServer
    (C := fun _ d => ∀ block, decodeTransferBlock d.packet = some block →
      block.blockId.toNat < streamBlocks world aux → Kept block)
    (fun d hd _ => hblocks d hd)
    ((ServerProxyState.new worldEstimate).transitionToDownloadingWorld
      announcement worldInfo t).1
  obtain ⟨s, out, hrun, hend⟩ := Machine.run_induction
    (fun s _ emitted =>
      Downloading worldInfo (streamBlocks world aux) Kept s emitted)
    (fun s _ emitted d h hpacket => downloading_step h hpacket) hmeet hstart
  refine ⟨s, out, hrun, ?_⟩
  cases hend with
  | @running state hphase hstream hinv hnone =>
      refine ⟨?_, by simp [hnone], by simp [hnone]⟩
      intro state' hphase'
      rw [hphase] at hphase'
      cases hphase'
      exact hinv.nodup
  | @finished state hphase hone hinv hmissing =>
      have hcomplete := hinv.complete hmissing
        (by unfold streamBlocks ceilBlocks; omega)
      obtain ⟨filler, hdata⟩ := receivedData_eq hcomplete hinv.kept
      have hcut := worldAndAuxData_eq hinv.info hinv.worldBlocks hworld haux
        hworldMax hfits hdata
      refine ⟨?_, by simp [hone], ?_⟩
      · intro state' hphase'
        rw [hphase] at hphase'
        cases hphase'
      · intro state' hstate'
        rw [hone, List.mem_singleton] at hstate'
        subst hstate'
        refine ⟨hcomplete, hcut, ?_⟩
        intro blake3 miniz zip
        unfold transferWorldData
        rw [hcut]

theorem decodeTransferBlock_encodeFullPacket (packet : TransferBlockPacket) :
    decodeTransferBlock (encodeFullPacket packet) = some packet := by
  unfold decodeTransferBlock
  rw [FactorioPacketHeader.decode_encodeFullPacket packet (Or.inr rfl)]
  show (TransferBlockPacket.decode
    (FactorioPacket.encode packet)).toOption = some packet
  rw [TransferBlockPacket.decode_encode]
  rfl

/-- A world of one byte. -/
def tinyWorldInfo : FactorioWorldMetadata := ⟨1, 0, 0, 0, 0⟩

/-- Its only block. -/
def tinyBlock : TransferBlockPacket := ⟨0, paddedWorld [9]⟩

/-- The clock at rest. -/
def atRest : Instants := ⟨0, 0, 0, 0⟩

/-- A block nobody asked for, a packet of another kind, and the only
block. -/
def tinyDeliveries : List Delivery :=
  [ ⟨encodeFullPacket (TransferBlockPacket.mk 7 [1, 2]), atRest⟩
  , ⟨[2, 1], atRest⟩
  , ⟨encodeFullPacket tinyBlock, atRest⟩ ]

theorem tinyDeliveries_carry : ∀ d ∈ tinyDeliveries, ∀ block,
    decodeTransferBlock d.packet = some block →
    block.blockId.toNat < streamBlocks [9] [] →
    CarriesBlock [9] [] block.blockId.toNat block.data := by
  intro d hd b hdecode hlt
  simp only [tinyDeliveries, List.mem_cons, List.not_mem_nil, or_false] at hd
  rcases hd with rfl | rfl | rfl
  · rw [decodeTransferBlock_encodeFullPacket] at hdecode
    cases hdecode
    exact absurd hlt (by decide)
  · cases hdecode
  · rw [decodeTransferBlock_encodeFullPacket] at hdecode
    cases hdecode
    exact ⟨[], by decide, by
      simp [block, tinyBlock, length_paddedWorld, alignUp, ceilBlocks]⟩

theorem world_download_reassembly_tiny :
    ∃ s out,
      Machine.run onPacketFromServer
        ((ServerProxyState.new id).transitionToDownloadingWorld [7]
          tinyWorldInfo atRest).1 tinyDeliveries = some (s, out)
      ∧ (∀ state, s.phase = .downloadingWorld state →
          (state.receivedBlocks.map TransferBlockPacket.blockId).Nodup)
      ∧ (transfers out).length ≤ 1
      ∧ ∀ state ∈ transfers out,
          (state.receivedBlocks.map fun block => block.blockId.toNat).Perm
            (List.range (streamBlocks [9] []))
          ∧ worldAndAuxData state = .ok ([9], [])
          ∧ ∀ blake3 miniz zip, transferWorldData blake3 miniz zip state
            = (deconstructWorld blake3 miniz zip [9] []).mapError
              .deconstruct :=
  world_download_reassembly id [7] atRest rfl rfl (by decide) (by decide)
    (by decide) tinyDeliveries_carry

end FactoryCacher
