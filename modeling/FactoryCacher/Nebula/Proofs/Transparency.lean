/-
WebSocket transparency: through both proxies the game client reads the
messages the game server sent.

# The two loops in one

`relayStep` is a frame from the game server going through the server's
copy loop and what comes out of it through the client's. A run of it
turns a sequence of frames into a sequence of frames.

# The invariant

Both sequences are read by `readMessages`. Where the server's loop is
determines how far the two readers are apart (`Between`): between
messages both have nothing open; inside a message that is passed on both
have the same fragments open; inside one that is gathered the game
server's reader has it open and the client's has nothing. A frame either
does nothing visible to a reader, or completes a message, or is a
control frame (`Effect`), on both sides the same (`relay_step`): a
gathered message is complete where its replacement is sent as a whole.
The induction over the frames then only composes effects.
-/
import FactoryCacher.Common.Proofs.Resync
import FactoryCacher.Nebula.ServerProxy
import FactoryCacher.Nebula.Proofs.PacketDelivery

namespace FactoryCacher

namespace Nebula

open WebSocket

-- ============================================================ forwarding all

/-- The forwarding loop from where it holds a fragment. -/
theorem run_forwarder (first : Bool) (last : Bytes)
    (fragments : List Bytes) :
    ∃ s, Machine.run Forwarder.step ⟨first, some last, .running⟩
        (fragments.map (ForwardEvent.recv · true) ++ [.closed true])
      = some (s, messageFrames
          (if first then .binary else .continuation) (last :: fragments)) := by
  induction fragments generalizing first last with
  | nil => exact ⟨_, rfl⟩
  | cons fragment fragments ih =>
      obtain ⟨s, hrest⟩ := ih false fragment
      refine ⟨s, ?_⟩
      rw [List.map_cons, List.cons_append, Machine.run]
      simp only [Forwarder.step, hrest]
      rfl

/-- Where every write succeeds, the fragments are one binary message. -/
theorem forwardFragments_eq (fragments : List Bytes) :
    forwardFragments fragments = messageFrames .binary fragments := by
  cases fragments with
  | nil => rfl
  | cons first more =>
      obtain ⟨s, hrun⟩ := run_forwarder true first more
      have hall : Machine.run Forwarder.step .new
          ((first :: more).map (ForwardEvent.recv · true)
            ++ [.closed true])
          = some (s, messageFrames .binary (first :: more)) := by
        rw [List.map_cons, List.cons_append, Machine.run]
        simp only [Forwarder.step, Forwarder.new]
        rw [hrun]
        rfl
      rw [forwardFragments, hall]

/-- Whatever the provider, a packet that is rebuilt has fragments. -/
theorem rebuildPacket_ne_nil {σ : Type} {xx : XxHash32}
    {provider : ChunkProvider (ExceptT Fault (StateM σ))} {fuel : Nat}
    {env : σ} {answer : Except Fault DedupedPacketDescription}
    {fragments : List Bytes}
    (h : rebuildPacket xx provider fuel env answer = (.ok (), fragments)) :
    fragments ≠ [] := by
  have htruth : Truthful (fun _ => True) (fun _ _ => True) provider :=
    { prefetch := fun _ _ => Faults.meets_of_ok (fun _ => trivial)
        fun _ _ _ _ _ => ⟨trivial, fun _ _ _ => trivial⟩
      getChunk := fun _ _ _ => Faults.meets_of_ok (fun _ => trivial)
        fun _ _ _ _ _ => ⟨trivial, fun _ _ _ => trivial⟩
      tryGet := fun _ => trivial
      outOfFuel := trivial }
  obtain ⟨hok, rfl⟩ := Prod.mk.inj h
  have hrun : (reconstructPacket xx provider fuel answer).run
      (env, .new none) = (.ok (), ((reconstructPacket xx provider fuel
        answer).run (env, .new none)).2) := Prod.ext hok rfl
  obtain ⟨packetDesc, -, data, trailer, -, -, hsent⟩ :=
    reconstructPacket_spec htruth trivial hrun
  intro hnil
  rw [hnil] at hsent
  cases hsent

-- ============================================================== the relay

section Relay

variable (blake3 : Bytes → ChunkKey) (lz4 : Bytes → Option Bytes)
  (xx : XxHash32) {σ : Type}
  (provider : ChunkProvider (ExceptT Fault (StateM σ))) (fuel : Nat)

/-- What the server says on the stream of an id while `offer` is what
`dedup_packet` has. -/
def answerOf (offer : Option Offer) (id : UInt64) :
    Except Fault DedupedPacketDescription :=
  match offer with
  | some offer =>
      if offer.dedupId = id then .ok offer.description else .error .stream
  | none => .error .stream

/-- A frame from the game server, the id that is drawn if one is, and
what the client's fetcher starts from if a packet is rebuilt. -/
structure RelayInput (σ : Type) where
  frame : Frame
  streamId : UInt64
  env : σ

/-- A frame through both loops. -/
def relayStep (s : ServerCopy) (input : RelayInput σ) :
    Option (ServerCopy × List Frame) :=
  match s.step blake3 lz4 (input.frame, input.streamId) with
  | none => none
  | some (s, wire) =>
      some (s, wire.flatMap fun w =>
        copyFrame xx provider fuel input.env (answerOf w.offer) w.frame)

/-- The packet a frame completes, if it does and the packet is to be
deduplicated. -/
def completes (s : ServerCopy) (frame : Frame) :
    Option (NebulaPacketHeader × Bytes) :=
  match s with
  | .copying =>
      if frame.opcode.startsMessage && frame.fin then
        dedupCandidate frame.payload
      else none
  | .gathering header packetData =>
      if frame.opcode = .continuation ∧ frame.fin = true then
        some (header, packetData ++ frame.payload)
      else none
  | .failed _ => none

/-- A packet that is completed is deconstructed and rebuilt without an
error. -/
def Handled (s : ServerCopy) (input : RelayInput σ) : Prop :=
  ∀ header packetData, completes s input.frame = some (header, packetData) →
    ∃ packet allChunks fragments,
      header.deconstruct blake3 lz4 packetData WriteMap.empty
        = .ok (packet, allChunks)
      ∧ rebuildPacket xx provider fuel input.env
          (.ok ⟨packet, UInt64.ofNat packetData.length⟩)
        = (.ok (), fragments)

/-- A message that is deduplicated: its first fragment says so. -/
def messageCandidate : List Bytes → Option (NebulaPacketHeader × Bytes)
  | [] => none
  | first :: more => (dedupCandidate first).map fun candidate =>
      (candidate.1, candidate.2 ++ more.flatten)

/-- What the client gets for a message: the same, or, if it was
deduplicated, the output of its `reconstruct`. -/
inductive Delivered : List Bytes → List Bytes → Prop
  | passed {message : List Bytes} (h : messageCandidate message = none) :
      Delivered message message
  | rebuilt {message fragments : List Bytes} {header : NebulaPacketHeader}
      {packetData : Bytes} {packet : NebulaPacket} {allChunks : ChunkMap}
      {env : σ} (h : messageCandidate message = some (header, packetData))
      (hdeconstruct : header.deconstruct blake3 lz4 packetData
        WriteMap.empty = .ok (packet, allChunks))
      (hrebuild : rebuildPacket xx provider fuel env
        (.ok ⟨packet, UInt64.ofNat packetData.length⟩)
          = (.ok (), fragments)) :
      Delivered message fragments

/-- What the two ends have read. -/
structure Relayed (r r' : Received) : Prop where
  messages : List.Forall₂ (Delivered blake3 lz4 xx provider fuel) r.messages
    r'.messages
  controls : r'.controls = r.controls

end Relay

-- ============================================================ the invariant

theorem messageCandidate_snoc {message : List Bytes} (h : message ≠ [])
    (fragment : Bytes) :
    messageCandidate (message ++ [fragment])
      = (messageCandidate message).map fun candidate =>
        (candidate.1, candidate.2 ++ fragment) := by
  obtain ⟨first, more, rfl⟩ := List.exists_cons_of_ne_nil h
  simp [messageCandidate, Function.comp_def]

/-- Where the server's loop is, and what the two readers have open. -/
inductive Between : ServerCopy → Option (List Bytes) →
    Option (List Bytes) → Prop
  | idle : Between .copying none none
  | passing {message : List Bytes} (hne : message ≠ [])
      (h : messageCandidate message = none) :
      Between .copying (some message) (some message)
  | gathering {message : List Bytes} {header : NebulaPacketHeader}
      {packetData : Bytes} (hne : message ≠ [])
      (h : messageCandidate message = some (header, packetData)) :
      Between (.gathering header packetData) (some message) none

section Step

variable {blake3 : Bytes → ChunkKey} {lz4 : Bytes → Option Bytes}
  {xx : XxHash32} {σ : Type}
  {provider : ChunkProvider (ExceptT Fault (StateM σ))} {fuel : Nat}

/-- What one frame does on both sides. -/
structure Advances (blake3 : Bytes → ChunkKey) (lz4 : Bytes → Option Bytes)
    (xx : XxHash32) (provider : ChunkProvider (ExceptT Fault (StateM σ)))
    (fuel : Nat) (current current' : Option (List Bytes)) (frame : Frame)
    (s : ServerCopy) (out : List Frame) : Prop where
  holds : ∃ next next' effect effect', Between s next next'
    ∧ Acts current [frame] effect next ∧ Acts current' out effect' next'
    ∧ ∀ r r', Relayed blake3 lz4 xx provider fuel r r' →
      Relayed blake3 lz4 xx provider fuel (effect.apply r)
        (effect'.apply r')

/-- A frame that is passed on is no indicator. -/
theorem copyFrame_pass {env : σ}
    {answer : UInt64 → Except Fault DedupedPacketDescription} {frame : Frame}
    (h : frame.opcode.startsMessage = true → frame.fin = true →
      ¬ StartDedupIndicator.magicNumber <+: frame.payload) :
    copyFrame xx provider fuel env answer frame = [frame] := by
  rw [copyFrame, indicatorIn_eq_none h]

/-- The indicator is replaced by the packet. -/
theorem copyFrame_indicator {env : σ} {offer : Offer} :
    copyFrame xx provider fuel env (answerOf (some offer))
        ⟨true, .binary, StartDedupIndicator.encode ⟨offer.dedupId⟩⟩
      = messageFrames .binary (rebuildPacket xx provider fuel env
          (.ok offer.description)).2 := by
  have hanswer : answerOf (some offer) offer.dedupId
      = .ok offer.description := if_pos rfl
  simp only [copyFrame, indicatorIn_encode, hanswer, forwardFragments_eq]

/-- A frame that is passed on, from one loop to the other. -/
theorem relayStep_pass {s s' : ServerCopy} {input : RelayInput σ}
    (h : s.step blake3 lz4 (input.frame, input.streamId)
      = some (s'.pass input.frame))
    (hmagic : input.frame.opcode.startsMessage = true →
      input.frame.fin = true →
      ¬ StartDedupIndicator.magicNumber <+: input.frame.payload) :
    relayStep blake3 lz4 xx provider fuel s input
      = some (s', [input.frame]) := by
  simp only [relayStep, h, ServerCopy.pass, List.flatMap_cons,
    List.flatMap_nil, List.append_nil, copyFrame_pass hmagic]

/-- A frame that completes no packet has nothing to be handled. -/
theorem handled_of_none {s : ServerCopy} {input : RelayInput σ}
    (h : completes s input.frame = none) :
    Handled blake3 lz4 xx provider fuel s input := by
  intro header packetData hcompletes
  rw [h] at hcompletes
  cases hcompletes

/-- A packet that is complete, from one loop to the other. -/
theorem relayStep_dedup {s : ServerCopy} {input : RelayInput σ}
    {header : NebulaPacketHeader} {packetData : Bytes}
    {packet : NebulaPacket} {allChunks : ChunkMap} {fragments : List Bytes}
    (h : s.step blake3 lz4 (input.frame, input.streamId)
      = some (ServerCopy.dedupPacket blake3 lz4 header packetData
        input.streamId))
    (hdeconstruct : header.deconstruct blake3 lz4 packetData WriteMap.empty
      = .ok (packet, allChunks))
    (hrebuild : rebuildPacket xx provider fuel input.env
        (.ok ⟨packet, UInt64.ofNat packetData.length⟩)
      = (.ok (), fragments)) :
    relayStep blake3 lz4 xx provider fuel s input
      = some (.copying, messageFrames .binary fragments) := by
  simp only [relayStep, h, ServerCopy.dedupPacket, hdeconstruct,
    List.flatMap_cons, List.flatMap_nil, List.append_nil]
  rw [show input.streamId = (Offer.mk input.streamId ⟨packet,
      UInt64.ofNat packetData.length⟩ allChunks).dedupId from rfl,
    copyFrame_indicator, hrebuild]

theorem Relayed.message {r r' : Received} {message fragments : List Bytes}
    (hdelivered : Delivered blake3 lz4 xx provider fuel message fragments)
    (h : Relayed blake3 lz4 xx provider fuel r r') :
    Relayed blake3 lz4 xx provider fuel (r.addMessage message)
      (r'.addMessage fragments) :=
  ⟨.cons hdelivered h.messages, h.controls⟩

theorem Relayed.control {r r' : Received} (frame : Frame)
    (h : Relayed blake3 lz4 xx provider fuel r r') :
    Relayed blake3 lz4 xx provider fuel (r.addControl frame)
      (r'.addControl frame) :=
  ⟨h.messages, congrArg (frame :: ·) h.controls⟩

/-- The first frame of a message. -/
theorem relay_start {input : RelayInput σ}
    (hstart : input.frame.opcode.startsMessage = true)
    (hmagic : input.frame.fin = true →
      ¬ StartDedupIndicator.magicNumber <+: input.frame.payload)
    (hhandled : Handled blake3 lz4 xx provider fuel .copying input) :
    ∃ s' out, relayStep blake3 lz4 xx provider fuel .copying input
        = some (s', out)
      ∧ Advances blake3 lz4 xx provider fuel none none input.frame s' out := by
  have hmessage : messageCandidate [input.frame.payload]
      = dedupCandidate input.frame.payload := by
    simp [messageCandidate]
  cases hcandidate : dedupCandidate input.frame.payload with
  | none =>
      have hpass : ServerCopy.step blake3 lz4 .copying
          (input.frame, input.streamId)
          = some (ServerCopy.pass .copying input.frame) := by
        simp only [ServerCopy.step, hstart, if_true, hcandidate]
      refine ⟨_, _, relayStep_pass hpass fun _ => hmagic, ?_⟩
      rw [hcandidate] at hmessage
      cases hfin : input.frame.fin with
      | false => exact ⟨_, _, _, _,
          .passing (List.cons_ne_nil _ _) hmessage, acts_start hstart hfin,
          acts_start hstart hfin, fun _ _ h => h⟩
      | true => exact ⟨_, _, _, _, .idle, acts_single hstart hfin,
          acts_single hstart hfin,
          fun _ _ h => h.message (.passed hmessage)⟩
  | some candidate =>
      obtain ⟨header, packetData⟩ := candidate
      rw [hcandidate] at hmessage
      cases hfin : input.frame.fin with
      | false =>
          refine ⟨.gathering header packetData, [], ?_, _, _, _, _,
            .gathering (List.cons_ne_nil _ _) hmessage,
            acts_start hstart hfin, acts_nothing none, fun _ _ h => h⟩
          simp only [relayStep, ServerCopy.step, hstart, if_true, hcandidate,
            hfin, Bool.false_eq_true, if_false, List.flatMap_nil]
      | true =>
          have hcompletes : completes .copying input.frame
              = some (header, packetData) := by
            simp only [completes, hstart, hfin, Bool.and_self, if_true,
              hcandidate]
          obtain ⟨packet, allChunks, fragments, hdeconstruct, hrebuild⟩ :=
            hhandled header packetData hcompletes
          have hdedup : ServerCopy.step blake3 lz4 .copying
              (input.frame, input.streamId)
              = some (ServerCopy.dedupPacket blake3 lz4 header packetData
                input.streamId) := by
            simp only [ServerCopy.step, hstart, hfin, if_true, hcandidate]
          exact ⟨_, _, relayStep_dedup hdedup hdeconstruct hrebuild, _, _, _,
            _, .idle, acts_single hstart hfin,
            acts_messageFrames (rebuildPacket_ne_nil hrebuild),
            fun _ _ h => h.message
              (.rebuilt hmessage hdeconstruct hrebuild)⟩

/-- A later frame of a message. -/
theorem relay_continuation {s : ServerCopy} {message : List Bytes}
    {current' : Option (List Bytes)} {input : RelayInput σ}
    (hcontinuation : input.frame.opcode = .continuation)
    (hbetween : Between s (some message) current')
    (hhandled : Handled blake3 lz4 xx provider fuel s input) :
    ∃ s' out, relayStep blake3 lz4 xx provider fuel s input = some (s', out)
      ∧ Advances blake3 lz4 xx provider fuel (some message) current'
        input.frame s' out := by
  have hne : message ++ [input.frame.payload] ≠ [] := by simp
  have hstart : input.frame.opcode.startsMessage = false := by
    rw [hcontinuation]
    rfl
  cases hbetween with
  | passing hmessage hcandidate =>
      have hsnoc := messageCandidate_snoc hmessage input.frame.payload
      rw [hcandidate] at hsnoc
      have hpass : ServerCopy.step blake3 lz4 .copying
          (input.frame, input.streamId)
          = some (ServerCopy.pass .copying input.frame) := by
        simp only [ServerCopy.step, hstart, Bool.false_eq_true, if_false]
      refine ⟨_, _, relayStep_pass hpass ?_, ?_⟩
      · intro hmessage
        rw [hstart] at hmessage
        cases hmessage
      · cases hfin : input.frame.fin with
        | false => exact ⟨_, _, _, _, .passing hne hsnoc,
            acts_continue hcontinuation hfin message,
            acts_continue hcontinuation hfin message, fun _ _ h => h⟩
        | true => exact ⟨_, _, _, _, .idle,
            acts_finish hcontinuation hfin message,
            acts_finish hcontinuation hfin message,
            fun _ _ h => h.message (.passed hsnoc)⟩
  | @gathering _ header packetData hmessage hcandidate =>
      have hsnoc := messageCandidate_snoc hmessage input.frame.payload
      rw [hcandidate] at hsnoc
      cases hfin : input.frame.fin with
      | false =>
          refine ⟨.gathering header (packetData ++ input.frame.payload), [],
            ?_, _, _, _, _, .gathering hne hsnoc,
            acts_continue hcontinuation hfin message, acts_nothing none,
            fun _ _ h => h⟩
          simp only [relayStep, ServerCopy.step, hcontinuation, hfin,
            Bool.false_eq_true, if_false, List.flatMap_nil]
      | true =>
          have hcompletes : completes (.gathering header packetData)
              input.frame = some (header,
                packetData ++ input.frame.payload) :=
            if_pos ⟨hcontinuation, hfin⟩
          obtain ⟨packet, allChunks, fragments, hdeconstruct, hrebuild⟩ :=
            hhandled _ _ hcompletes
          have hdedup : ServerCopy.step blake3 lz4
              (.gathering header packetData) (input.frame, input.streamId)
              = some (ServerCopy.dedupPacket blake3 lz4 header
                (packetData ++ input.frame.payload) input.streamId) := by
            simp only [ServerCopy.step, hcontinuation, hfin, if_true]
          exact ⟨_, _, relayStep_dedup hdedup hdeconstruct hrebuild, _, _, _,
            _, .idle, acts_finish hcontinuation hfin message,
            acts_messageFrames (rebuildPacket_ne_nil hrebuild),
            fun _ _ h => h.message (.rebuilt hsnoc hdeconstruct hrebuild)⟩

/-- A control frame. -/
theorem relay_control {s : ServerCopy} {current current' :
    Option (List Bytes)} {input : RelayInput σ}
    (hcontrol : input.frame.opcode.isControl = true)
    (hfin : input.frame.fin = true) (hbetween : Between s current current') :
    ∃ s' out, relayStep blake3 lz4 xx provider fuel s input = some (s', out)
      ∧ Advances blake3 lz4 xx provider fuel current current' input.frame s'
        out := by
  have hstart : input.frame.opcode.startsMessage = false := by
    generalize input.frame.opcode = opcode at hcontrol
    cases opcode <;> first | rfl | cases hcontrol
  have hpass : s.step blake3 lz4 (input.frame, input.streamId)
      = some (s.pass input.frame) := by
    cases hbetween with
    | idle =>
        simp only [ServerCopy.step, hstart, Bool.false_eq_true, if_false]
    | passing =>
        simp only [ServerCopy.step, hstart, Bool.false_eq_true, if_false]
    | gathering =>
        simp only [ServerCopy.step]
        generalize input.frame.opcode = opcode at hcontrol
        cases opcode <;> first | rfl | cases hcontrol
  refine ⟨_, _, relayStep_pass hpass ?_, _, _, _, _, hbetween,
    acts_control hcontrol hfin current, acts_control hcontrol hfin current',
    fun _ _ h => h.control input.frame⟩
  intro hmessage
  rw [hstart] at hmessage
  cases hmessage

/-- Any frame of a well-formed sequence. -/
theorem relay_step {s : ServerCopy} {current current' : Option (List Bytes)}
    {input : RelayInput σ} {rest : List Frame} {r : Received}
    (hbetween : Between s current current')
    (hread : readMessages current (input.frame :: rest) = some r)
    (hmagic : ∀ message ∈ r.messages,
      ¬ StartDedupIndicator.magicNumber <+: message.flatten)
    (hhandled : Handled blake3 lz4 xx provider fuel s input) :
    ∃ s' out, relayStep blake3 lz4 xx provider fuel s input = some (s', out)
      ∧ Advances blake3 lz4 xx provider fuel current current' input.frame s'
        out := by
  rcases OpCode.kinds input.frame.opcode with hstart | hcontinuation
    | hcontrol
  · cases hbetween with
    | idle =>
        refine relay_start hstart ?_ hhandled
        intro hfin
        have hacts := acts_single hstart hfin rest
        rw [List.singleton_append, hread] at hacts
        obtain ⟨r₁, -, rfl⟩ := Option.map_eq_some_iff.mp hacts.symm
        simpa using hmagic [input.frame.payload] List.mem_cons_self
    | passing =>
        rw [readMessages_cut hstart] at hread
        cases hread
    | gathering =>
        rw [readMessages_cut hstart] at hread
        cases hread
  · cases current with
    | none =>
        rw [readMessages_stray hcontinuation] at hread
        cases hread
    | some message => exact relay_continuation hcontinuation hbetween hhandled
  · rw [readMessages_control hcontrol] at hread
    split at hread
    case isTrue hfin => exact relay_control hcontrol hfin hbetween
    case isFalse => cases hread

/-- Every frame, from wherever the loop is. -/
theorem relay_run {inputs : List (RelayInput σ)} {s : ServerCopy}
    {current current' : Option (List Bytes)} {r : Received}
    (hbetween : Between s current current')
    (hread : readMessages current (inputs.map RelayInput.frame) = some r)
    (hmagic : ∀ message ∈ r.messages,
      ¬ StartDedupIndicator.magicNumber <+: message.flatten)
    (hhandled : Machine.StepsMeet (relayStep blake3 lz4 xx provider fuel)
      (Handled blake3 lz4 xx provider fuel) s inputs) :
    ∃ s' out r',
      Machine.run (relayStep blake3 lz4 xx provider fuel) s inputs
        = some (s', out)
      ∧ readMessages current' out = some r'
      ∧ Relayed blake3 lz4 xx provider fuel r r' := by
  induction inputs generalizing s current current' r with
  | nil =>
      -- no message is open at the end, on either side
      cases hbetween with
      | idle =>
          cases hread
          exact ⟨_, [], _, rfl, rfl, .nil, rfl⟩
      | passing => cases hread
      | gathering => cases hread
  | cons input inputs ih =>
      obtain ⟨hfirst, hrest⟩ := hhandled
      obtain ⟨s₁, out, hstep, hadvances⟩ :=
        relay_step hbetween hread hmagic hfirst
      obtain ⟨next, next', effect, effect', hbetween₁, hacts, hacts', hkeep⟩ :=
        hadvances.holds
      rw [List.map_cons, ← List.singleton_append, hacts] at hread
      obtain ⟨r₁, hread₁, rfl⟩ := Option.map_eq_some_iff.mp hread
      have hmagic₁ : ∀ message ∈ r₁.messages,
          ¬ StartDedupIndicator.magicNumber <+: message.flatten :=
        fun message hm => hmagic message (effect.mem_messages hm)
      obtain ⟨s', more, r', hrun, hread', hrelayed⟩ :=
        ih hbetween₁ hread₁ hmagic₁ (hrest s₁ out hstep)
      refine ⟨s', out ++ more, effect'.apply r',
        Machine.run_cons hstep hrun, ?_, hkeep _ _ hrelayed⟩
      rw [hacts', hread']
      rfl

end Step

-- ============================================================ the statement

/-- A well-formed sequence of frames from the game server, fragmented in
any way and with control frames anywhere, no message of which starts
with the magic number, and every packet of which that is deduplicated is
deconstructed and rebuilt without an error: the game client reads a
well-formed sequence, with the same control frames in the same order and
message for message what was sent, where a message that was deduplicated
is the output of its `reconstruct`. -/
theorem websocket_transparency {blake3 : Bytes → ChunkKey}
    {lz4 : Bytes → Option Bytes} {xx : XxHash32} {σ : Type}
    {provider : ChunkProvider (ExceptT Fault (StateM σ))} {fuel : Nat}
    {inputs : List (RelayInput σ)} {r : Received}
    (hread : readMessages none (inputs.map RelayInput.frame) = some r)
    (hmagic : ∀ message ∈ r.messages,
      ¬ StartDedupIndicator.magicNumber <+: message.flatten)
    (hhandled : Machine.StepsMeet (relayStep blake3 lz4 xx provider fuel)
      (Handled blake3 lz4 xx provider fuel) .copying inputs) :
    ∃ s out r',
      Machine.run (relayStep blake3 lz4 xx provider fuel) .copying inputs
        = some (s, out)
      ∧ readMessages none out = some r'
      ∧ List.Forall₂ (Delivered blake3 lz4 xx provider fuel) r.messages
        r'.messages
      ∧ r'.controls = r.controls := by
  obtain ⟨s, out, r', hrun, hread', hrelayed⟩ :=
    relay_run .idle hread hmagic hhandled
  exact ⟨s, out, r', hrun, hread', hrelayed.messages, hrelayed.controls⟩

-- ============================================================ a large packet

/-- Chunks of one kind, too few and of the wrong hash to complete a
list. -/
theorem foldlM_addChunk_open {blake3 : Bytes → ChunkKey} {chunk : Bytes}
    {n : Nat} (hopen : ∀ k ≤ n, isSplitPoint (blake3 chunk) k = false)
    (start : ChunkMap) :
    ∃ chunks, (List.replicate n chunk).foldlM (addChunk blake3)
        ([ChunkList.newEmpty true], start)
      = some ([leafList (List.replicate n (blake3 chunk))], chunks) := by
  induction n with
  | zero => exact ⟨start, rfl⟩
  | succ n ih =>
      obtain ⟨chunks, hrun⟩ := ih fun k hk => hopen k (by omega)
      have hlen : ((leafList (List.replicate n (blake3 chunk))).pushChunk
          (blake3 chunk)).chunks.length = n + 1 := by
        simp [leafList, ChunkList.pushChunk]
      refine ⟨chunks.insert (blake3 chunk) chunk, ?_⟩
      rw [List.replicate_succ', List.foldlM_append, hrun]
      simp only [Option.bind_eq_bind, Option.bind_some, List.foldlM_cons,
        List.foldlM_nil, addChunk]
      rw [splitLevels_of_not_split (by simp [hlen, hopen])]
      simp [leafList, ChunkList.pushChunk, List.replicate_succ']

/-- Their root is the list. -/
theorem rootOf_replicate {blake3 : Bytes → ChunkKey} {data chunk : Bytes}
    {n : Nat} (hdata : chunksOf data = List.replicate n chunk)
    (hopen : ∀ k ≤ n, isSplitPoint (blake3 chunk) k = false) :
    rootOf blake3 data = leafList (List.replicate n (blake3 chunk)) := by
  obtain ⟨chunks, hrun⟩ := foldlM_addChunk_open hopen WriteMap.empty
  rw [rootOf, chunkData, hdata, hrun]
  rfl

/-- A chunk, wherever it starts. -/
def zeroChunk : Bytes := List.replicate minChunkSize 0 ++ [6, 136]

/-- Its blake3 hash. -/
def zeroKey : ChunkKey where
  bytes := [33, 124, 28, 253, 11, 229, 54, 129, 85, 202, 94, 48, 38, 56, 98,
    67, 107, 85, 80, 76, 60, 227, 13, 19, 95, 79, 7, 44, 180, 221, 154, 137]
  len := rfl

/-- A hash function that is blake3's on this chunk. -/
def blake3Zero (blob : Bytes) : ChunkKey :=
  if blob = zeroChunk then zeroKey else blake3Sample blob

/-- The data of a packet that is deduplicated. -/
def largeData : Bytes := (List.replicate 256 zeroChunk).flatten

def largePacket : PacketContent := .globalGameData 3 largeData

def largeFrame : Bytes := frameOf keptXxHash32 largeData

def largeHeader : NebulaPacketHeader :=
  largePacket.header (UInt32.ofNat largeFrame.length)

theorem chunksOf_largeData :
    chunksOf largeData = List.replicate 256 zeroChunk := by
  have h : chunksOf (largeData ++ [])
      = List.replicate 256 zeroChunk ++ chunksOf [] :=
    chunksOf_replicate (chunksOf_closed 0 (by decide) (by decide)) 256 []
  rw [List.append_nil] at h
  rw [h, show chunksOf [] = [] from Chunker.collect_of_none rfl,
    List.append_nil]

theorem length_largeFrame : largeFrame.length = 131611 := by
  have hdata : largeData.length = 131584 := by
    simp only [largeData, List.length_flatten, List.map_replicate,
      List.sum_replicate_nat, zeroChunk, List.length_append,
      List.length_replicate]
    rfl
  rw [largeFrame, length_frameOf, hdata]
  rfl

theorem dedupCandidate_largeHeader :
    dedupCandidate largeHeader.text = some (largeHeader, []) := by
  have hdecode := largeHeader.decode_text []
  rw [List.append_nil] at hdecode
  have hsize : largeHeader.approxSize > minimumDedupSize := by
    change (UInt32.ofNat largeFrame.length).toNat > minimumDedupSize
    rw [length_largeFrame]
    decide
  simp only [dedupCandidate, hdecode, if_pos hsize]

/-- What the client has of it. -/
def largeChunks : ChunkMap := WriteMap.empty.insert zeroKey zeroChunk

theorem denotes_largeData :
    Denotes largeChunks.Written parseList
      (rootOf blake3Zero largeData).isLeaf
      (rootOf blake3Zero largeData).chunks (chunksOf largeData) := by
  have hkey : blake3Zero zeroChunk = zeroKey := if_pos rfl
  have hopen : ∀ k ≤ 256, isSplitPoint (blake3Zero zeroChunk) k = false := by
    intro k hk
    rw [hkey, isSplitPoint]
    split
    case isTrue => rfl
    case isFalse =>
      rw [if_neg (by unfold maxChunksInList; omega)]
      rfl
  rw [rootOf_replicate chunksOf_largeData hopen, chunksOf_largeData, hkey]
  change Denotes _ _ true (List.replicate 256 zeroKey) _
  generalize 256 = n
  induction n with
  | zero => exact .nil true
  | succ n ih =>
      exact .leafCons ((WriteMap.written_insert ..).2 (Or.inl ⟨rfl, rfl⟩)) ih

/-- Sending to a receiver that stays. -/
theorem run_forM_sendFragment {σ : Type} (fragments sent : List Bytes)
    (s : σ) :
    (forM fragments (sendFragment (σ := σ))).run (s, ⟨sent, none⟩)
      = (.ok (), (s, ⟨sent ++ fragments, none⟩)) := by
  induction fragments generalizing sent with
  | nil =>
      rw [List.append_nil]
      rfl
  | cons fragment fragments ih =>
      have hsend : (sendFragment fragment : SendM σ Unit).run
          (s, ⟨sent, none⟩) = (.ok (), (s, ⟨sent ++ [fragment], none⟩)) := rfl
      rw [List.forM_cons, Faults.run_bind_ok hsend, ih, List.append_assoc,
        List.singleton_append]

theorem answers_beside {σ : Type} {store : ChunkKey → Bytes → Prop}
    {provider : ChunkProvider (ExceptT Fault (StateM σ))}
    (h : Answers store provider) (ω : Type) :
    Answers store (provider.beside ω) where
  prefetch keys := by
    change Faults.beside ω (provider.prefetch keys) = _
    rw [h.prefetch]
    rfl
  getChunk k b hw := by
    change Faults.beside ω (provider.getChunk k) = _
    rw [h.getChunk k b hw]
    rfl

/-- The client rebuilds it. -/
theorem rebuildPacket_largePacket (size : UInt64) : ∃ fuel,
    rebuildPacket keptXxHash32 (mapProvider largeChunks) fuel ()
        (.ok ⟨largePacket.describe blake3Zero, size⟩)
      = (.ok (), largePacket.fragments keptXxHash32) := by
  have hfits : largeFrame.length < 2 ^ 32 := by
    rw [length_largeFrame]
    decide
  obtain ⟨fuel, hsend⟩ := reconstruct_eq largePacket hfits
    (List.forall_mem_singleton.mpr denotes_largeData)
  have hget : ∀ k b, largeChunks.Written k b →
      largeChunks.get k = some b := by
    intro k b h
    rcases (WriteMap.written_insert ..).1 h with ⟨rfl, rfl⟩ | h
    · rfl
    · exact absurd h (WriteMap.written_empty k b)
  have hanswers : Answers largeChunks.Written
      ((mapProvider largeChunks : ChunkProvider
        (ExceptT Fault (StateM Unit))).beside Channel) :=
    answers_beside (answers_map hget) Channel
  refine ⟨fuel, ?_⟩
  have hrun : (reconstructPacket keptXxHash32 (mapProvider largeChunks) fuel
      (.ok ⟨largePacket.describe blake3Zero, size⟩)).run ((), .new none)
      = (.ok (), ((), ⟨largePacket.fragments keptXxHash32, none⟩)) := by
    have hdesc : ((ExceptT.mk (pure (.ok ⟨largePacket.describe blake3Zero,
        size⟩)) : SendM Unit DedupedPacketDescription)).run
          ((), Channel.new none)
        = (.ok ⟨largePacket.describe blake3Zero, size⟩,
          ((), Channel.new none)) := rfl
    rw [reconstructPacket, Faults.run_bind_ok hdesc,
      hsend sendFragment fuel hanswers (Nat.le_refl _)]
    exact run_forM_sendFragment _ [] ()
  rw [rebuildPacket, hrun]

/-- The server takes it apart. -/
theorem deconstruct_largePacket : ∃ chunks,
    largeHeader.deconstruct blake3Zero storedLz4 largeFrame WriteMap.empty
      = .ok (largePacket.describe blake3Zero, chunks) := by
  have hfits : largeFrame.length < 2 ^ 32 := by
    rw [length_largeFrame]
    decide
  have h : ∃ chunks, largeHeader.deconstruct blake3Zero storedLz4
      (largeFrame ++ []) WriteMap.empty
        = .ok (largePacket.describe blake3Zero, chunks) :=
    deconstruct_frame largePacket hfits
      ((storedLz4_decodes keptXxHash32).frameOf largeData) WriteMap.empty
  rwa [List.append_nil] at h

theorem notMagic_largePacket :
    ∀ message ∈ [[largeHeader.text, largeFrame], [[65]]],
      ¬ StartDedupIndicator.magicNumber <+: message.flatten := by
  refine List.forall_mem_cons.2 ⟨?_, by decide⟩
  rintro ⟨rest, hrest⟩
  -- the packet's id is not how the magic number starts
  have hid : (StartDedupIndicator.magicNumber ++ rest).take 8
      = putU64Le gameDataPacketId := by
    rw [hrest]
    exact List.take_left' (length_putU64Le _)
  rw [List.take_append_of_le_length (by decide)] at hid
  exact absurd hid (by decide +kernel)

/-- A message in two fragments with a ping between them, and a text
message. -/
def pingInMessage (first rest : Bytes) : List (RelayInput Unit) :=
  [⟨⟨false, .binary, first⟩, 1, ()⟩, ⟨⟨true, .ping, [9]⟩, 1, ()⟩,
    ⟨⟨true, .continuation, rest⟩, 1, ()⟩, ⟨⟨true, .text, [65]⟩, 1, ()⟩]

/-- A packet with its header in the first fragment. -/
theorem stepsMeet_pingInMessage {blake3 : Bytes → ChunkKey}
    {lz4 : Bytes → Option Bytes} {xx : XxHash32}
    {provider : ChunkProvider (ExceptT Fault (StateM Unit))} {fuel : Nat}
    {first rest : Bytes} {header : NebulaPacketHeader}
    {packet : NebulaPacket} {allChunks : ChunkMap} {fragments : List Bytes}
    (hcandidate : dedupCandidate first = some (header, []))
    (hdeconstruct : header.deconstruct blake3 lz4 rest WriteMap.empty
      = .ok (packet, allChunks))
    (hrebuild : rebuildPacket xx provider fuel ()
        (.ok ⟨packet, UInt64.ofNat rest.length⟩) = (.ok (), fragments)) :
    Machine.StepsMeet (relayStep blake3 lz4 xx provider fuel)
      (Handled blake3 lz4 xx provider fuel) .copying
      (pingInMessage first rest) := by
  have hgather : relayStep blake3 lz4 xx provider fuel .copying
      ⟨⟨false, .binary, first⟩, 1, ()⟩ = some (.gathering header [], []) := by
    simp only [relayStep, ServerCopy.step, hcandidate]
    rfl
  refine Machine.stepsMeet_cons hgather (handled_of_none rfl) ?_
  refine Machine.stepsMeet_cons rfl (handled_of_none rfl) ?_
  refine Machine.stepsMeet_cons (relayStep_dedup rfl hdeconstruct hrebuild)
    ?_ (Machine.stepsMeet_cons rfl (handled_of_none rfl) trivial)
  intro _ _ hcompletes
  cases hcompletes
  exact ⟨_, _, _, hdeconstruct, hrebuild⟩

/-- The client reads two messages and the ping. -/
theorem websocket_transparency_largePacket :
    ∃ fuel s out r',
      Machine.run (relayStep blake3Zero storedLz4 keptXxHash32
          (mapProvider largeChunks) fuel) .copying
          (pingInMessage largeHeader.text largeFrame)
        = some (s, out)
      ∧ readMessages none out = some r'
      ∧ List.Forall₂ (Delivered blake3Zero storedLz4 keptXxHash32
          (mapProvider (m := ExceptT Fault (StateM Unit)) largeChunks) fuel)
        [[largeHeader.text, largeFrame], [[65]]] r'.messages
      ∧ r'.controls = [⟨true, .ping, [9]⟩] := by
  obtain ⟨chunks, hdeconstruct⟩ := deconstruct_largePacket
  obtain ⟨fuel, hrebuild⟩ :=
    rebuildPacket_largePacket (UInt64.ofNat largeFrame.length)
  exact ⟨fuel, websocket_transparency (r := ⟨_, _⟩) rfl notMagic_largePacket
    (stepsMeet_pingInMessage dedupCandidate_largeHeader hdeconstruct
      hrebuild)⟩

end Nebula

end FactoryCacher
