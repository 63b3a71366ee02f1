/-
The delivery of a rebuilt packet: what the game is told is complete.

# The receiver

`Forwarding` is the invariant of the forwarding loop: the frames written
so far and the fragment held back are what was received, and only the
frame written when the channel closes is final. So the frames are always
a binary frame and continuations, and a final one among them means that
everything sent was written.

# The sender

`reconstruct_meets` is what a packet that was rebuilt without an error
has sent, over any provider that gives what is asked for (`Truthful`): a
header, a frame with the chunks its list stands for, and a trailer,
where "stands for" is over what the provider gives. A session of the
chunk fetcher gives only chunks with the right hash.

# The gap between the two

The loop cannot tell a sender that ended from one that failed. The
header goes out before the first chunk is fetched, so every failing
fetch leaves fragments behind, the last of which is written as final
(`failed_fetch_delivered`). A sender that fails before its first fragment
leaves nothing to write.
-/
import FactoryCacher.Common.Proofs.ChunkIntegrity
import FactoryCacher.Nebula.ClientProxy
import FactoryCacher.Nebula.Proofs.PacketRebuild

namespace FactoryCacher

-- ======================================== providers next to other states

section Sender

variable {σ ω ρ : Type} {provider : ChunkProvider (ExceptT Fault (StateM σ))}
  {I : ReadLog → σ → Prop} {err : Fault → Prop}

/-- A provider next to a state: the log may speak about that too. -/
theorem Reads.beside (h : Reads (Faults.logic Fault σ) provider I err)
    (J : List Bytes → ω → Prop) :
    Reads (Faults.logic Fault (σ × ω)) (provider.beside ω)
      (fun log t => J log.consumed t.2 ∧ I log t.1) err where
  prefetch log keys := Faults.meets_beside fun o =>
    Logic.frame _ (P := J log.consumed o) (h.prefetch log keys)
  getChunk log key hasked := Faults.meets_beside fun o =>
    Logic.frame _ (P := J log.consumed o) (h.getChunk log key hasked)
  tryGet := h.tryGet
  outOfFuel := h.outOfFuel

/-- The same, under a buffer. -/
theorem Reads.besideBuffered
    (h : Reads (Faults.logic Fault σ) provider I err)
    (J : List Bytes → ρ → ω → Prop) :
    Reads ((Faults.logic Fault (σ × ω)).buffered ρ)
      ((provider.beside ω).liftState ρ)
      (fun log t => J log.consumed t.1 t.2.2 ∧ I log t.2.1) err where
  prefetch log keys := Logic.buffered_lift _ fun buf =>
    (h.beside fun consumed => J consumed buf).prefetch log keys
  getChunk log key hasked := Logic.buffered_lift _ fun buf =>
    (h.beside fun consumed => J consumed buf).getChunk log key hasked
  tryGet := h.tryGet
  outOfFuel := h.outOfFuel

end Sender

-- =========================================================== whole packets

namespace NebulaPacket

/-- The header `reconstruct` sends. -/
def announced : NebulaPacket → NebulaPacketHeader
  | .globalGameData packet => .globalGameData
      { dataType := packet.dataType
        dataLength := UInt32.ofNat
          (framedSize packet.dataUncompressedLength).toNat }
  | .factoryData packet => .factoryData
      { planetId := packet.planetId
        dataLength := UInt32.ofNat
          (framedSize packet.dataUncompressedLength).toNat }
  | .dysonSphereData packet => .dysonSphereData
      { starIndex := packet.starIndex
        dataLength := UInt32.ofNat
          (framedSize packet.dataUncompressedLength).toNat }

def dataChunkList : NebulaPacket → ChunkList
  | .globalGameData packet => packet.dataChunkList
  | .factoryData packet => packet.dataChunkList
  | .dysonSphereData packet => packet.dataChunkList

/-- The fragments after the frame, over a store. -/
def Trails (store : ChunkKey → Bytes → Prop) :
    NebulaPacket → List Bytes → Prop
  | .globalGameData _, trailer => trailer = []
  | .factoryData packet, trailer => ∃ terrain,
      Denotes store parseList packet.terrainDataChunkList.isLeaf
        packet.terrainDataChunkList.chunks terrain
      ∧ trailer = putU32Le packet.terrainDataLength :: terrain
  | .dysonSphereData packet, trailer =>
      trailer = [putU32Le packet.eventType]

/-- All fragments of a packet, with chunks from a store: the header, a
frame of the data, and the trailer. -/
def Rebuilt (store : ChunkKey → Bytes → Prop) (xx : XxHash32)
    (packet : NebulaPacket) (fragments : List Bytes) : Prop :=
  ∃ data trailer, Denotes store parseList packet.dataChunkList.isLeaf
      packet.dataChunkList.chunks data
    ∧ packet.Trails store trailer
    ∧ fragments = packet.announced.text :: (encodeAll xx data ++ trailer)

end NebulaPacket

namespace Nebula

open WebSocket

-- ============================================================ the receiver

theorem received_append (events more : List ForwardEvent) :
    received (events ++ more) = received events ++ received more := by
  induction events with
  | nil => rfl
  | cons event events ih =>
      cases event <;> simp [received, ih]

/-- The forwarding loop after `events`, with `frames` written. -/
structure Forwarding (s : Forwarder) (events : List ForwardEvent)
    (frames : List Frame) : Prop where
  fragmented : Fragmented .binary frames
  running : s.status = .running →
    frames.map Frame.payload ++ s.lastBytes.toList = received events
    ∧ (∀ f ∈ frames, f.fin = false) ∧ s.firstFrame = frames.isEmpty
  final : ∀ f ∈ frames, f.fin = true →
    (∃ written, .closed written ∈ events)
    ∧ frames.map Frame.payload = received events

theorem forwarding_new : Forwarding .new [] [] where
  fragmented := trivial
  running _ := ⟨rfl, fun _ h => absurd h List.not_mem_nil, rfl⟩
  final _ h := absurd h List.not_mem_nil

/-- The frame the loop writes next goes behind those it has written. -/
theorem Forwarding.write {s : Forwarder} {events : List ForwardEvent}
    {frames : List Frame} (h : Forwarding s events frames)
    (hrunning : s.status = .running) (fin : Bool) (payload : Bytes) :
    Fragmented .binary (frames ++ [⟨fin, s.opCode, payload⟩]) := by
  obtain ⟨-, hopen, hfirst⟩ := h.running hrunning
  apply h.fragmented.snoc hopen
  show (if s.firstFrame then OpCode.binary else .continuation) = _
  rw [hfirst]

/-- A loop that stops without writing. -/
theorem Forwarding.stop {s s' : Forwarder} {events : List ForwardEvent}
    {frames : List Frame} (h : Forwarding s events frames)
    (hrunning : s.status = .running) (hstop : s'.status ≠ .running)
    (event : ForwardEvent) : Forwarding s' (events ++ [event]) (frames ++ [])
    := by
  rw [List.append_nil]
  refine ⟨h.fragmented, fun hrun => absurd hrun hstop, ?_⟩
  intro f hf hfin
  rw [(h.running hrunning).2.1 f hf] at hfin
  cases hfin

/-- One event. -/
theorem forwarding_step (s : Forwarder) (events : List ForwardEvent)
    (frames : List Frame) (event : ForwardEvent) (s' : Forwarder)
    (out : List Frame) (h : Forwarding s events frames)
    (hstep : s.step event = some (s', out)) :
    Forwarding s' (events ++ [event]) (frames ++ out) := by
  obtain ⟨firstFrame, lastBytes, status⟩ := s
  cases status with
  | done => cases hstep
  | failed => cases hstep
  | running =>
      obtain ⟨hreceived, hopen, hfirst⟩ := h.running rfl
      dsimp only at hreceived hfirst
      cases event with
      | recv data written =>
          cases lastBytes with
          | none =>
              cases hstep
              refine ⟨?_, fun _ => ⟨?_, ?_, ?_⟩, ?_⟩
              · rw [List.append_nil]
                exact h.fragmented
              · rw [received_append, ← hreceived]
                simp [received]
              · rwa [List.append_nil]
              · rwa [List.append_nil]
              · intro f hf hfin
                rw [List.append_nil] at hf
                rw [hopen f hf] at hfin
                cases hfin
          | some last =>
              cases written with
              | false =>
                  cases hstep
                  exact h.stop rfl (by simp) _
              | true =>
                  cases hstep
                  have hmore : ∀ f ∈ frames ++ [Frame.mk false
                      (Forwarder.opCode ⟨firstFrame, some last, .running⟩)
                      last], f.fin = false := by
                    intro f hf
                    rcases List.mem_append.mp hf with hf | hf
                    · exact hopen f hf
                    · rw [List.mem_singleton.mp hf]
                  refine ⟨h.write rfl false last,
                    fun _ => ⟨?_, hmore, ?_⟩, ?_⟩
                  · rw [received_append, ← hreceived]
                    simp [received]
                  · simp
                  · intro f hf hfin
                    rw [hmore f hf] at hfin
                    cases hfin
      | closed written =>
          cases lastBytes with
          | none =>
              cases hstep
              exact h.stop rfl (by simp) _
          | some last =>
              cases written with
              | false =>
                  cases hstep
                  exact h.stop rfl (by simp) _
              | true =>
                  cases hstep
                  refine ⟨h.write rfl true last, nofun, ?_⟩
                  intro f hf hfin
                  refine ⟨⟨true, by simp⟩, ?_⟩
                  rw [received_append, ← hreceived]
                  simp [received]

/-- All events. -/
theorem forwarding_run {events : List ForwardEvent} {s : Forwarder}
    {frames : List Frame}
    (h : Machine.run Forwarder.step .new events = some (s, frames)) :
    Forwarding s events frames :=
  Machine.run_history forwarding_step forwarding_new h

-- ============================================================== the sender

/-- A provider that gives what `store` has under a key, or fails. -/
def Truthful {σ : Type} (Inv : σ → Prop) (store : ChunkKey → Bytes → Prop)
    (provider : ChunkProvider (ExceptT Fault (StateM σ))) : Prop :=
  Reads (Faults.logic Fault σ) provider
    (fun log s => Inv s ∧ ∀ k b, log.given k b → store k b) fun _ => True

variable {xx : XxHash32} {σ : Type} {Inv : σ → Prop}
  {store : ChunkKey → Bytes → Prop}
  {provider : ChunkProvider (ExceptT Fault (StateM σ))}

/-- A fragment that is sent. -/
theorem sendFragment_meets {pre : σ × Channel → Prop}
    {ok : Unit → σ × Channel → Prop} {fragment : Bytes}
    (h : ∀ s channel, pre (s, channel) →
      ok () (s, { channel with sent := channel.sent ++ [fragment] })) :
    (Faults.logic Fault (σ × Channel)).Meets pre (sendFragment fragment) ok
      fun _ => True := by
  apply Faults.meets_of_ok (fun _ => trivial)
  rintro ⟨s, channel⟩ a s' hpre hrun
  unfold sendFragment at hrun
  obtain ⟨state, s₁, hget, hrest⟩ := Faults.run_bind_eq_ok hrun
  cases hget
  dsimp only at hrest
  split at hrest
  · cases hrest
  · cases hrest
    exact h s channel hpre

/-- A fragment behind those already sent. -/
theorem sendFragment_snoc (front : List Bytes) (fragment : Bytes) :
    (Faults.logic Fault (σ × Channel)).Meets
      (fun t => Inv t.1 ∧ t.2.sent = front) (sendFragment fragment)
      (fun _ t => Inv t.1 ∧ t.2.sent = front ++ [fragment])
      fun _ => True := by
  apply sendFragment_meets
  rintro s channel ⟨hinv, hsent⟩
  refine ⟨hinv, ?_⟩
  show channel.sent ++ _ = _
  rw [show channel.sent = front from hsent]

/-- Fragments behind those of earlier chunks. -/
theorem addAll_append (e : Lz4DeterministicFrameEncoder xx)
    (data more : List Bytes) :
    addAll e (data ++ more) = ((addAll (addAll e data).1 more).1,
      (addAll e data).2 ++ (addAll (addAll e data).1 more).2) := by
  induction data generalizing e with
  | nil => rfl
  | cons chunk data ih => simp [addAll, ih]

/-- A consumer that sends what it is given. -/
theorem consumes_sendFragment (front : List Bytes) :
    Consumes (Faults.logic Fault (σ × Channel)) sendFragment
      (fun log t => t.2.sent = front ++ log.consumed
        ∧ Inv t.1 ∧ ∀ k b, log.given k b → store k b) fun _ => True := by
  intro log chunk
  apply sendFragment_meets
  rintro s channel ⟨hsent, hinv, hgiven⟩
  refine ⟨?_, hinv, hgiven⟩
  show channel.sent ++ [chunk] = front ++ (log.consumed ++ [chunk])
  rw [show channel.sent = _ from hsent, List.append_assoc]

/-- A consumer that frames what it is given. -/
theorem consumes_frameChunk (front : List Bytes) :
    Consumes ((Faults.logic Fault (σ × Channel)).buffered
        (Lz4DeterministicFrameEncoder xx)) (frameChunk xx sendFragment)
      (fun log t => (t.1 = (addAll (.new xx) log.consumed).1
          ∧ t.2.2.sent = front ++ (addAll (.new xx) log.consumed).2)
        ∧ Inv t.2.1 ∧ ∀ k b, log.given k b → store k b) fun _ => True := by
  intro log chunk e
  have hmore := addAll_append (.new xx) log.consumed [chunk]
  simp only [addAll, List.append_nil] at hmore
  show Logic.Meets _ _ (frameChunk xx sendFragment chunk e) _ _
  rcases hadd : e.addData chunk with ⟨e', _ | fragment⟩
  · simp only [frameChunk, hadd]
    apply Logic.pure
    rintro t ⟨⟨he, hsent⟩, hgiven⟩
    refine ⟨?_, hgiven⟩
    show e' = (addAll _ (log.consumed ++ [chunk])).1
      ∧ _ = front ++ (addAll _ (log.consumed ++ [chunk])).2
    rw [hmore, ← he, hadd, hsent]
    simp
  · simp only [frameChunk, hadd]
    refine Logic.bind _ (sendFragment_meets ?_) fun _ => Logic.pure _
      fun _ ht => ht
    rintro s channel ⟨⟨he, hsent⟩, hgiven⟩
    dsimp only at he hsent
    refine ⟨?_, hgiven⟩
    show e' = (addAll _ (log.consumed ++ [chunk])).1
      ∧ channel.sent ++ [fragment]
        = front ++ (addAll _ (log.consumed ++ [chunk])).2
    rw [hmore, ← he, hadd, hsent]
    simp

/-- `reconstruct_data` into the channel. -/
theorem sendData_meets (htruth : Truthful Inv store provider) (fuel : Nat)
    (list : ChunkList) (front : List Bytes) :
    (Faults.logic Fault (σ × Channel)).Meets
      (fun t => Inv t.1 ∧ t.2.sent = front)
      (reconstructData (provider.beside Channel) sendFragment fuel list)
      (fun _ t => ∃ data,
        Denotes store parseList list.isLeaf list.chunks data
        ∧ Inv t.1 ∧ t.2.sent = front ++ data) fun _ => True := by
  have hreads := Reads.beside htruth
    fun consumed (channel : Channel) => channel.sent = front ++ consumed
  refine Logic.mono _ ?_ ?_ (hreads.data (consumes_sendFragment front) fuel
    list .start)
  · rintro t ⟨hinv, hsent⟩
    refine ⟨?_, hinv, fun _ _ => False.elim⟩
    rw [hsent]
    exact (List.append_nil _).symm
  · rintro _ t ⟨log', data, hext, hmeans, hsent, hinv, hgiven⟩
    refine ⟨data, hmeans.mono hgiven, hinv, ?_⟩
    rw [hsent, hext.consumed]
    rfl

/-- `reconstruct_lz4_data` into the channel. -/
theorem sendLz4Data_meets (htruth : Truthful Inv store provider)
    (fuel : Nat) (list : ChunkList) (front : List Bytes) :
    (Faults.logic Fault (σ × Channel)).Meets
      (fun t => Inv t.1 ∧ t.2.sent = front)
      (reconstructLz4Data xx (provider.beside Channel) sendFragment fuel
        list)
      (fun _ t => ∃ data,
        Denotes store parseList list.isLeaf list.chunks data
        ∧ Inv t.1 ∧ t.2.sent = front ++ encodeAll xx data)
      fun _ => True := by
  have hmetadata := (Reads.beside htruth
    fun _ (channel : Channel) => channel.sent = front).metadata fuel [list]
    .start
  have hdata := (Reads.besideBuffered htruth
    fun consumed e (channel : Channel) =>
      e = (addAll (.new xx) consumed).1
      ∧ channel.sent = front ++ (addAll (.new xx) consumed).2).data
    (consumes_frameChunk front) fuel list .start (.new xx)
  refine Logic.mono _ ?_ (fun _ _ ht => ht) (Logic.bind _ hmetadata
    fun _ => Logic.mono _ ?_ (fun _ _ ht => ht) (Logic.bind _ hdata
      fun r => sendFragment_meets ?_))
  · rintro t ⟨hinv, hsent⟩
    exact ⟨hsent, hinv, fun _ _ => False.elim⟩
  · rintro t ⟨log', -, hsent, hinv, -⟩
    exact ⟨⟨rfl, hsent.trans (List.append_nil _).symm⟩, hinv,
      fun _ _ => False.elim⟩
  · rintro s channel ⟨log', data, hext, hmeans, ⟨he, hsent⟩, hinv, hgiven⟩
    refine ⟨data, hmeans.mono hgiven, hinv, ?_⟩
    rw [hext.consumed] at he hsent
    dsimp only at he hsent
    rw [hsent, he, encodeAll, List.append_assoc]
    rfl

/-- The size field, where it fits. -/
theorem tryFramedSize_meets {σ : Type} {pre : σ × Channel → Prop}
    (len : UInt64) :
    (Faults.logic Fault (σ × Channel)).Meets pre (tryFramedSize len)
      (fun size t => size = UInt32.ofNat (framedSize len).toNat ∧ pre t)
      fun _ => True := by
  unfold tryFramedSize
  split
  case isTrue => exact Logic.pure _ fun t ht => ⟨rfl, ht⟩
  case isFalse => exact Logic.throw _ trivial

/-- `reconstruct`: what it has sent when it succeeds. -/
theorem reconstruct_meets (htruth : Truthful Inv store provider)
    (fuel : Nat) (packet : NebulaPacket) :
    (Faults.logic Fault (σ × Channel)).Meets
      (fun t => Inv t.1 ∧ t.2.sent = [])
      (packet.reconstruct xx (provider.beside Channel) sendFragment fuel)
      (fun _ t => packet.Rebuilt store xx t.2.sent) fun _ => True := by
  cases packet with
  | globalGameData packet =>
      refine Logic.bind _ (tryFramedSize_meets _) fun size =>
        Logic.assume _ fun hsize => ?_
      subst hsize
      refine Logic.bind _ (sendFragment_snoc []
        (NebulaPacket.globalGameData packet).announced.text) fun _ => ?_
      refine Logic.mono _ (fun _ ht => ht) ?_ (sendLz4Data_meets htruth
        fuel packet.dataChunkList _)
      rintro _ t ⟨data, hmeans, -, hsent⟩
      exact ⟨data, [], hmeans, rfl, by simpa using hsent⟩
  | factoryData packet =>
      refine Logic.bind _ (tryFramedSize_meets _) fun size =>
        Logic.assume _ fun hsize => ?_
      subst hsize
      refine Logic.bind _ (sendFragment_snoc []
        (NebulaPacket.factoryData packet).announced.text) fun _ => ?_
      refine Logic.bind _ (sendLz4Data_meets htruth fuel
        packet.dataChunkList _) fun _ => ?_
      -- what the frame is made of is fixed before the terrain is read
      refine Logic.cases _ fun data => Logic.assume _ fun hmeans => ?_
      refine Logic.bind _ (sendFragment_snoc _ _) fun _ =>
        Logic.mono _ (fun _ ht => ht) ?_ (sendData_meets htruth fuel
          packet.terrainDataChunkList _)
      rintro _ t ⟨terrain, hterrain, -, hsent⟩
      refine ⟨data, putU32Le packet.terrainDataLength :: terrain, hmeans,
        ⟨terrain, hterrain, rfl⟩, ?_⟩
      rw [hsent]
      simp
  | dysonSphereData packet =>
      refine Logic.bind _ (tryFramedSize_meets _) fun size =>
        Logic.assume _ fun hsize => ?_
      subst hsize
      refine Logic.bind _ (sendFragment_snoc []
        (NebulaPacket.dysonSphereData packet).announced.text) fun _ => ?_
      refine Logic.bind _ (sendLz4Data_meets htruth fuel
        packet.dataChunkList _) fun _ => sendFragment_meets ?_
      rintro s channel ⟨data, hmeans, -, hsent⟩
      refine ⟨data, [putU32Le packet.eventType], hmeans, rfl, ?_⟩
      dsimp only at hsent ⊢
      rw [hsent]
      simp

/-- `reconstruct_packet`: what it has sent when it succeeds. -/
theorem reconstructPacket_spec (htruth : Truthful Inv store provider)
    {fuel : Nat} {description : Except Fault DedupedPacketDescription}
    {s : σ} {goneAfter : Option Nat} {t : σ × Channel} (hinv : Inv s)
    (hrun : (reconstructPacket xx provider fuel description).run
      (s, .new goneAfter) = (.ok (), t)) :
    ∃ packetDesc, description = .ok packetDesc
      ∧ packetDesc.packet.Rebuilt store xx t.2.sent := by
  unfold reconstructPacket at hrun
  obtain ⟨packetDesc, t₁, hdescription, hreconstruct⟩ :=
    Faults.run_bind_eq_ok hrun
  cases hdescription
  exact ⟨packetDesc, rfl, Faults.ok_of_meets (reconstruct_meets htruth fuel
    packetDesc.packet) ⟨hinv, rfl⟩ hreconstruct⟩

/-- A session of the fetcher gives chunks with the right hash. -/
theorem truthful_fetchProvider (blake3 : Bytes → ChunkKey) (i : Nat) :
    Truthful (fun run : FetchRun => Integrity blake3 run.state)
      (fun key chunk => blake3 chunk = key) (fetchProvider blake3 i) where
  prefetch log keys := by
    apply Faults.meets_of_ok (fun _ => trivial)
    rintro run _ run' ⟨hinv, hgiven⟩ hrun
    exact ⟨((fetchProvider_recording blake3 i).prefetch _ _ _ _ hinv
      hrun).1, hgiven⟩
  getChunk log key _ := by
    apply Faults.meets_of_ok (fun _ => trivial)
    rintro run chunk run' ⟨hinv, hgiven⟩ hrun
    obtain ⟨hinv', -, hhas⟩ :=
      (fetchProvider_recording blake3 i).getChunk _ _ _ _ hinv hrun
    refine ⟨hinv', ?_⟩
    rintro k b (hk | ⟨rfl, rfl⟩)
    · exact hgiven k b hk
    · exact hinv'.locals i k b hhas
  tryGet _ := trivial
  outOfFuel := trivial

-- ============================================================ the statement

/-- In every run, whatever fails and wherever: the frames written for a
packet are a binary frame and continuations, and nothing follows a final
one. And where `reconstruct_packet` fails, if it fails for another reason
than that nobody receives, before its first fragment, a final frame means
that the payloads are the whole packet, rebuilt from chunks with the
right hashes. -/
theorem final_frame_completes_packet {blake3 : Bytes → ChunkKey}
    {i fuel : Nat} {description : Except Fault DedupedPacketDescription}
    {state : FetcherState} (hstate : Reachable blake3 state)
    {schedule : List FetchAction} {goneAfter : Option Nat}
    {outcome : Except Fault Unit} {t : FetchRun × Channel}
    (hsender : (reconstructPacket xx (fetchProvider blake3 i) fuel
      description).run (⟨state, schedule⟩, .new goneAfter) = (outcome, t))
    {events : List ForwardEvent}
    (hdelivers : Delivers outcome t.2.sent events)
    {s : Forwarder} {frames : List Frame}
    (hreceiver : Machine.run Forwarder.step .new events = some (s, frames)) :
    Fragmented .binary frames
    ∧ ((∀ e, outcome = .error e → e = .send ∨ t.2.sent = []) →
      (∃ f ∈ frames, f.fin = true) →
      ∃ packetDesc fragments, description = .ok packetDesc
        ∧ packetDesc.packet.Rebuilt (fun key chunk => blake3 chunk = key) xx
          fragments
        ∧ (frames.map Frame.payload).flatten = fragments.flatten) := by
  have hforwarding := forwarding_run hreceiver
  refine ⟨hforwarding.fragmented, ?_⟩
  rintro hearly ⟨f, hf, hfin⟩
  -- the final frame says that everything sent was written
  obtain ⟨⟨written, hclosed⟩, hpayloads⟩ := hforwarding.final f hf hfin
  obtain ⟨hall, hsend⟩ := hdelivers.closed written hclosed
  cases outcome with
  | error e =>
      rcases hearly e rfl with rfl | hnothing
      · exact absurd rfl hsend
      · rw [hall, hnothing, List.map_eq_nil_iff] at hpayloads
        rw [hpayloads] at hf
        exact absurd hf List.not_mem_nil
  | ok =>
      obtain ⟨packetDesc, hdescription, hrebuilt⟩ := reconstructPacket_spec
        (truthful_fetchProvider blake3 i) hstate.integrity hsender
      exact ⟨packetDesc, t.2.sent, hdescription, hrebuilt, by
        rw [hpayloads, hall]⟩

-- ================================================================ two runs

/-- A packet of one chunk. -/
def oneChunkPacket : NebulaPacket := .globalGameData
  { dataType := 3, dataUncompressedLength := 1
    dataChunkList := oneChunkList }

/-- It is rebuilt, with what the sessions do as the schedule says. -/
def rebuildOneChunk (schedule : List FetchAction) :
    Except Fault Unit × (FetchRun × Channel) :=
  (reconstructPacket keptXxHash32 (fetchProvider blake3Sample 0) 2
    (.ok ⟨oneChunkPacket, 20⟩)).run
    (⟨.ofCache (.new 10), schedule⟩, .new none)

/-- The server's response does not come. -/
def failedRebuild : Except Fault Unit × (FetchRun × Channel) :=
  rebuildOneChunk [.fetch 0, .fail 0 .readResponse]

/-- Then the game gets the header as a complete message. -/
theorem failed_fetch_delivered :
    Reachable blake3Sample (.ofCache (.new 10))
    ∧ failedRebuild.1 = .error .fetch
    ∧ ∃ events frames s, Delivers failedRebuild.1 failedRebuild.2.2.sent
        events
      ∧ Machine.run Forwarder.step .new events = some (s, frames)
      ∧ (∃ f ∈ frames, f.fin = true)
      ∧ ¬ ∃ fragments, oneChunkPacket.Rebuilt
          (fun key chunk => blake3Sample chunk = key) keptXxHash32 fragments
        ∧ (frames.map Frame.payload).flatten = fragments.flatten := by
  have hsent : failedRebuild.2.2.sent = [oneChunkPacket.announced.text] := by
    decide +kernel
  refine ⟨⟨10, none, .new 10, [], [], rfl, rfl⟩, rfl,
    [.recv oneChunkPacket.announced.text true, .closed true],
    [⟨true, .binary, oneChunkPacket.announced.text⟩], _, ?_, rfl,
    ⟨_, List.mem_singleton_self _, rfl⟩, ?_⟩
  · rw [hsent]
    exact ⟨List.prefix_refl _, fun _ _ => ⟨rfl, nofun⟩⟩
  · rintro ⟨fragments, ⟨data, trailer, -, -, rfl⟩, hsame⟩
    have hlen := congrArg List.length hsame
    simp only [List.map_cons, List.map_nil, List.flatten_cons,
      List.flatten_nil, List.append_nil, List.flatten_append,
      encodeAll_eq keptXxHash32_streams, List.length_append,
      length_frameOf] at hlen
    omega

/-- The response comes: header and frame. -/
theorem final_frame_completes_one_chunk :
    (rebuildOneChunk [.fetch 0, .respond 0 [[0]], .close 0]).1 = .ok ()
    ∧ ∃ events frames s, Machine.run Forwarder.step .new events
        = some (s, frames)
      ∧ (∃ f ∈ frames, f.fin = true)
      ∧ Fragmented .binary frames
      ∧ ∃ fragments, oneChunkPacket.Rebuilt
          (fun key chunk => blake3Sample chunk = key) keptXxHash32 fragments
        ∧ (frames.map Frame.payload).flatten = fragments.flatten := by
  have hsent : (rebuildOneChunk
      [.fetch 0, .respond 0 [[0]], .close 0]).2.2.sent
      = [oneChunkPacket.announced.text, frameOf keptXxHash32 [0]] := by
    decide +kernel
  have hok : (rebuildOneChunk
      [.fetch 0, .respond 0 [[0]], .close 0]).1 = .ok () := by
    decide +kernel
  have hrun : rebuildOneChunk [.fetch 0, .respond 0 [[0]], .close 0]
      = (.ok (), (rebuildOneChunk
        [.fetch 0, .respond 0 [[0]], .close 0]).2) := by
    rw [← hok]
  have hfinal : ∃ f ∈ [Frame.mk false .binary oneChunkPacket.announced.text,
      Frame.mk true .continuation (frameOf keptXxHash32 [0])],
      f.fin = true :=
    ⟨_, List.mem_cons_of_mem _ (List.mem_singleton_self _), rfl⟩
  have hdelivers : Delivers (.ok ()) (rebuildOneChunk
      [.fetch 0, .respond 0 [[0]], .close 0]).2.2.sent
      [.recv oneChunkPacket.announced.text true,
       .recv (frameOf keptXxHash32 [0]) true, .closed true] := by
    rw [hsent]
    exact ⟨List.prefix_refl _, fun _ _ => ⟨rfl, nofun⟩⟩
  have hreceiver : Machine.run Forwarder.step .new
      [.recv oneChunkPacket.announced.text true,
       .recv (frameOf keptXxHash32 [0]) true, .closed true]
      = some (⟨false, none, .done⟩,
        [⟨false, .binary, oneChunkPacket.announced.text⟩,
         ⟨true, .continuation, frameOf keptXxHash32 [0]⟩]) := rfl
  obtain ⟨hfragmented, hcomplete⟩ := final_frame_completes_packet
    ⟨10, none, .new 10, [], [], rfl, rfl⟩ hrun hdelivers hreceiver
  refine ⟨hok, _, _, _, hreceiver, hfinal, ?_⟩
  obtain ⟨packetDesc, fragments, hdesc, hrebuilt, hsame⟩ :=
    hcomplete nofun hfinal
  cases hdesc
  exact ⟨hfragmented, fragments, hrebuilt, hsame⟩

end Nebula

end FactoryCacher
