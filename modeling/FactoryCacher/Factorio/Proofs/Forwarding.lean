/-
Which packets of the game server reach the game client once the
rewritten world size is announced.

From the announcement on the client expects blocks of the reconstructed
world, so a block of the original world must not reach it. While the
download runs the proxy swallows every packet that is a block. In phase
`done` it does not look at packets any more: a block that arrives then,
such as the second answer to a block requested twice, is forwarded. The
search-and-replace of the announcement adds a second, remote way: it may
touch the header of a packet and turn it into a block.

`Quiet` is the exact condition on a step, from the state before it and
the packet: what would be forwarded is a block only if the packet is one
already and the download is running. `leaks_iff` shows it for one step,
and `no_leak_iff` for every run.
-/
import FactoryCacher.Factorio.Proofs.WorldDownload

namespace FactoryCacher

open ServerProxyState

/-- A block is pushed to the client. -/
def Leaks (event : ServerEvent) : Prop :=
  ∃ packet, event = .push packet .toClient ∧ isTransferBlock packet = true

/-- A packet that, as forwarded in state `s`, is a block only if it is
one as it arrived and the download is running. -/
def Quiet (s : ServerProxyState) (d : Delivery) : Prop :=
  isTransferBlock (s.rewritten d.packet) = true →
    isTransferBlock d.packet = true
      ∧ ∃ state, s.phase = .downloadingWorld state

/-- A state after the announcement. -/
def Announced (s : ServerProxyState) : Prop :=
  ∃ worldInfo total emitted,
    Downloading worldInfo total (fun _ => True) s emitted

theorem not_leaks_request (id : UInt32) : ¬ Leaks (requestEvent id) := by
  rintro ⟨packet, hevent, -⟩
  cases hevent

theorem leaks_push (packet : Bytes) :
    Leaks (.push packet .toClient) ↔ isTransferBlock packet = true := by
  constructor
  · rintro ⟨packet', hevent, hblock⟩
    cases hevent
    exact hblock
  · intro hblock
    exact ⟨packet, rfl, hblock⟩

theorem forall_mem_singleton_push (packet : Bytes) :
    (∀ event ∈ [ServerEvent.push packet .toClient], ¬ Leaks event)
      ↔ ¬ isTransferBlock packet = true := by
  rw [List.forall_mem_singleton, leaks_push]

/-- After a block, whatever happens is between the proxy and the
server. -/
theorem continueDownload_quiet {s s' : ServerProxyState}
    {state : DownloadingWorldState} {out : List ServerEvent}
    (hstep : s.continueDownload state = some (s', out)) :
    ∀ event ∈ out, ¬ Leaks event := by
  rcases continueDownload_cases hstep with hdone | hmore
  · obtain ⟨-, -, rfl⟩ := hdone
    intro event hevent hleak
    cases List.mem_singleton.mp hevent
    obtain ⟨packet, htransfer, -⟩ := hleak
    cases htransfer
  · obtain ⟨-, -, -, rfl⟩ := hmore
    obtain ⟨ids, hids⟩ := requestNextBlocks_requests state
    rw [hids]
    intro event hevent
    obtain ⟨id, -, rfl⟩ := List.mem_map.mp hevent
    exact not_leaks_request id

/-- One step after the announcement: it leads to another such state, and
pushes no block to the client exactly when it is quiet. -/
theorem leaks_iff (s : ServerProxyState) (d : Delivery) (h : Announced s) :
    ∃ s' out, s.onPacketFromServer d = some (s', out) ∧ Announced s'
      ∧ (Quiet s d ↔ ∀ event ∈ out, ¬ Leaks event) := by
  obtain ⟨worldInfo, total, emitted, hdownloading⟩ := h
  obtain ⟨s', out, hstep, hnext⟩ := downloading_step (d := d) hdownloading
    fun _ _ _ => trivial
  refine ⟨s', out, hstep, ⟨worldInfo, total, _, hnext⟩, ?_⟩
  cases hdownloading with
  | @running state hphase hstream hinv hnone =>
      rw [onPacketFromServer_downloading hphase] at hstep
      by_cases hblock : isTransferBlock d.packet = true
      case pos =>
        have hquiet : Quiet s d := fun _ => ⟨hblock, state, hphase⟩
        rw [if_pos hblock] at hstep
        refine iff_of_true hquiet ?_
        cases hdecode : decodeTransferBlock d.packet with
        | none =>
            rw [hdecode] at hstep
            cases hstep
            simp
        | some block =>
            rw [hdecode] at hstep
            exact continueDownload_quiet hstep
      case neg =>
        rw [if_neg hblock] at hstep
        obtain ⟨ids, hids⟩ := reRequest_requests state d.instants
        obtain ⟨-, -, hout⟩ := forwardDownloading_spec hstep
        rw [hout, hids, List.forall_mem_append, forall_mem_singleton_push]
        constructor
        · intro hquiet
          refine ⟨?_, fun hleak => hblock (hquiet hleak).1⟩
          intro event hevent
          obtain ⟨id, -, rfl⟩ := List.mem_map.mp hevent
          exact not_leaks_request id
        · rintro ⟨-, hnot⟩ hleak
          exact absurd hleak hnot
  | @finished state hphase hone hinv hmissing =>
      rw [onPacketFromServer_done hphase] at hstep
      obtain ⟨-, -, hout⟩ := forwarded_spec hstep
      rw [hout, forall_mem_singleton_push]
      constructor
      · intro hquiet hleak
        obtain ⟨-, state', hphase'⟩ := hquiet hleak
        rw [hphase] at hphase'
        cases hphase'
      · intro hnot hleak
        exact absurd hleak hnot

/-- A state the proxy can be in: before the announcement, or after. -/
inductive Reached (s : ServerProxyState) : Prop
  | waiting (hphase : s.phase = .waitingForWorld)
      (hstream : s.compStream = true)
  | announced (h : Announced s)

theorem reached_step (s : ServerProxyState) (d : Delivery)
    (s' : ServerProxyState) (out : List ServerEvent) (h : Reached s)
    (hstep : s.onPacketFromServer d = some (s', out)) : Reached s' := by
  cases h with
  | announced h =>
      obtain ⟨s'', out', hstep', hnext, -⟩ := leaks_iff s d h
      rw [hstep] at hstep'
      cases hstep'
      exact .announced hnext
  | waiting hphase hstream =>
      cases hworld : announcedWorld d.packet with
      | none =>
          rw [onPacketFromServer_waiting hphase hworld] at hstep
          obtain ⟨hphase', hstream', -⟩ := forwarded_spec hstep
          exact .waiting (hphase'.trans hphase) (hstream'.trans hstream)
      | some worldInfo =>
          rw [onPacketFromServer_announcement hphase hworld] at hstep
          cases hstep
          have hstart : DownloadInv worldInfo
              (totalBlockCount worldInfo).toNat (fun _ => True)
              (startDownload worldInfo (s.newWorldInfo worldInfo)
                d.instants.setBlock) := downloadInv_start _ _ _ rfl
          exact .announced ⟨worldInfo, _, [],
            .running rfl hstream (requestNextBlocks_spec hstart) rfl⟩

/-- Every run from the start stays in such states. -/
theorem reached_run {worldEstimate : UInt32 → UInt32}
    {deliveries : List Delivery} {s : ServerProxyState}
    {out : List ServerEvent}
    (hrun : Machine.run onPacketFromServer
      (ServerProxyState.new worldEstimate) deliveries = some (s, out)) :
    Reached s :=
  Machine.run_invariant reached_step
    (.waiting (s := ServerProxyState.new worldEstimate) rfl rfl) hrun

/-- Once the world size is announced, the rest of a run pushes no block
to the client exactly when all its steps are quiet. -/
theorem no_leak_iff {worldEstimate : UInt32 → UInt32}
    {before : List Delivery} {s : ServerProxyState}
    {emitted : List ServerEvent}
    (hrun : Machine.run onPacketFromServer
      (ServerProxyState.new worldEstimate) before = some (s, emitted))
    (hannounced : s.phase ≠ .waitingForWorld) (after : List Delivery) :
    ∃ s' out, Machine.run onPacketFromServer s after = some (s', out)
      ∧ (Machine.StepsMeet onPacketFromServer Quiet s after
        ↔ ∀ event ∈ out, ¬ Leaks event) := by
  cases reached_run hrun with
  | waiting hphase hstream => exact absurd hphase hannounced
  | announced h => exact Machine.stepsMeet_iff leaks_iff h after

/-- A map-ready heartbeat for a world of one block. -/
def tinyAnnouncement : Delivery :=
  ⟨[7, 0x10, 0, 0, 0, 0, 1, 5] ++ tinyWorldInfo.encode, atRest⟩

/-- The one block of that world. -/
def tinyAnswer : Delivery :=
  ⟨encodeFullPacket (TransferBlockPacket.mk 0 [9]), atRest⟩

/-- The block itself, while the download runs, is a quiet step. -/
theorem no_leak_iff_tiny :
    ∃ s emitted,
      Machine.run onPacketFromServer (ServerProxyState.new id)
        [tinyAnnouncement] = some (s, emitted)
      ∧ s.phase ≠ .waitingForWorld
      ∧ Machine.StepsMeet onPacketFromServer Quiet s [tinyAnswer]
      ∧ ∃ s' out, Machine.run onPacketFromServer s [tinyAnswer]
          = some (s', out)
        ∧ (Machine.StepsMeet onPacketFromServer Quiet s [tinyAnswer]
          ↔ ∀ event ∈ out, ¬ Leaks event) := by
  have hrun : Machine.run onPacketFromServer (ServerProxyState.new id)
      [tinyAnnouncement] = some (_, _) := rfl
  refine ⟨_, _, hrun, ?_, ?_, no_leak_iff hrun ?_ _⟩
  · intro h
    cases h
  · exact ⟨fun _ => ⟨rfl, _, rfl⟩, fun _ _ _ => trivial⟩
  · intro h
    cases h

/-- The block ends the download; its duplicate reaches the client. -/
theorem late_block_reaches_client :
    ∃ s emitted s' out,
      Machine.run onPacketFromServer (ServerProxyState.new id)
        [tinyAnnouncement, tinyAnswer] = some (s, emitted)
      ∧ s.phase ≠ .waitingForWorld
      ∧ Machine.run onPacketFromServer s [tinyAnswer] = some (s', out)
      ∧ ∃ event ∈ out, Leaks event := by
  refine ⟨_, _, _, _, rfl, ?_, rfl, _, List.mem_singleton_self _, _, rfl, rfl⟩
  intro h
  cases h

end FactoryCacher
