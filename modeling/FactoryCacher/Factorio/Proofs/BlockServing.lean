/-
Block serving on the client: which requests are answered, when, and with
what.

The invariant (`Serving`) compares the state with the inputs so far: the
world data is the pieces received, a requested id is pending just when
its block is not complete in them, and every other requested id has been
answered. It is kept by requests (answered at once or kept) and by
pieces (`fulfillPending_spec`: the loop answers exactly the pending ids
the new piece completes). What was answered stays right because a
complete block does not change when the data grows
(`block_append_of_le`).
-/
import FactoryCacher.Lib.Blocks
import FactoryCacher.Factorio.ClientProxy

namespace FactoryCacher

open ClientProxyState

-- ================================================= the inputs, as a whole

/-- The world data received, all pieces in order. -/
def receivedWorld (inputs : List ClientInput) : Bytes :=
  inputs.flatMap fun input =>
    match input with
    | .worldData (some newData) _ => newData
    | _ => []

/-- The ids requested. -/
def requestedIds (inputs : List ClientInput) : List UInt32 :=
  inputs.filterMap fun input =>
    match input with
    | .packet packetData _ _ =>
        (decodeBlockRequest packetData).map
          TransferBlockRequestPacket.blockId
    | .worldData _ _ => none

@[simp] theorem receivedWorld_append (a b : List ClientInput) :
    receivedWorld (a ++ b) = receivedWorld a ++ receivedWorld b :=
  List.flatMap_append ..

@[simp] theorem requestedIds_append (a b : List ClientInput) :
    requestedIds (a ++ b) = requestedIds a ++ requestedIds b :=
  List.filterMap_append ..

/-- The step does not drop the local copy of the world. -/
def KeepsWorld (s : ClientProxyState) (input : ClientInput) : Prop :=
  ∀ packetData elapsedAt now,
    input = .packet packetData elapsedAt now →
    decodeBlockRequest packetData = none → s.timedOut elapsedAt = false

/-- The `k`-th block of `world` is complete. -/
def Complete (world : Bytes) (k : UInt32) : Prop :=
  503 * (k.toNat + 1) ≤ world.length

/-- The response to a request for block `k` of `world`. -/
def answer (world : Bytes) (k : UInt32) : PushedPacket :=
  (encodeFullPacket (TransferBlockPacket.mk k (block 503 world k.toNat)),
    .toClient)

theorem answer_append {world : Bytes} {k : UInt32} (h : Complete world k)
    (more : Bytes) : answer (world ++ more) k = answer world k := by
  unfold answer
  rw [block_append_of_le h]

theorem Complete.append {world : Bytes} {k : UInt32} (h : Complete world k)
    (more : Bytes) : Complete (world ++ more) k := by
  unfold Complete at *
  rw [List.length_append]
  omega

/-- A request is fulfilled just when its block is complete. -/
theorem tryFulfillBlockRequest_eq (s : ClientProxyState) (k : UInt32) :
    s.tryFulfillBlockRequest k
      = if 503 * (k.toNat + 1) ≤ s.worldData.length then
          some (TransferBlockPacket.mk k (block 503 s.worldData k.toNat))
        else none := by
  have hoffset : k.toNat * 503 + 503 = 503 * (k.toNat + 1) := by omega
  unfold tryFulfillBlockRequest block
  dsimp only
  rw [transferBlockSize_toNat, hoffset, Nat.mul_comm k.toNat]

-- ============================================================ the invariant

/-- The state when `world` was received, `ids` were requested and
`emitted` was pushed. -/
structure Serving (s : ClientProxyState) (world : Bytes)
    (ids : List UInt32) (emitted : List PushedPacket) : Prop where
  data : s.worldData = world
  swap : s.pendingRequestsSwap = OrdSet.empty
  pending : ∀ k, k ∈ s.pendingRequests ↔ k ∈ ids ∧ ¬ Complete world k
  answered : ∀ k ∈ ids, Complete world k → answer world k ∈ emitted
  toClient : ∀ packet, (packet, PacketDirection.toClient) ∈ emitted →
    ∃ k, Complete world k
      ∧ (packet, PacketDirection.toClient) = answer world k
  toServer : ∀ packet, (packet, PacketDirection.toServer) ∈ emitted →
    decodeBlockRequest packet = none

/-- The loop over the pending requests answers the complete ones and
keeps the others. -/
theorem fulfillPending_spec (s : ClientProxyState) (ids : List UInt32)
    (swap : OrdSet UInt32) :
    (∀ k, k ∈ (s.fulfillPending ids swap).1
        ↔ k ∈ swap ∨ (k ∈ ids ∧ ¬ Complete s.worldData k))
      ∧ ∀ pushed, pushed ∈ (s.fulfillPending ids swap).2
        ↔ ∃ k ∈ ids, Complete s.worldData k
          ∧ pushed = answer s.worldData k := by
  induction ids generalizing swap with
  | nil => simp [fulfillPending]
  | cons id rest ih =>
      rw [fulfillPending, tryFulfillBlockRequest_eq]
      by_cases hcomplete : 503 * (id.toNat + 1) ≤ s.worldData.length
      case pos =>
        have hc : Complete s.worldData id := hcomplete
        rw [if_pos hcomplete]
        obtain ⟨hkeep, hpush⟩ := ih swap
        dsimp only
        refine ⟨fun k => ?_, fun pushed => ?_⟩
        · rw [hkeep k, List.mem_cons]
          constructor
          · rintro (hin | ⟨hin, hnot⟩)
            · exact Or.inl hin
            · exact Or.inr ⟨Or.inr hin, hnot⟩
          · rintro (hin | ⟨rfl | hin, hnot⟩)
            · exact Or.inl hin
            · exact absurd hc hnot
            · exact Or.inr ⟨hin, hnot⟩
        · rw [List.mem_cons, hpush pushed]
          constructor
          · rintro (rfl | ⟨k, hk, hk'⟩)
            · exact ⟨id, List.mem_cons_self .., hc, rfl⟩
            · exact ⟨k, List.mem_cons_of_mem _ hk, hk'⟩
          · rintro ⟨k, hk, hk', rfl⟩
            rcases List.mem_cons.mp hk with rfl | hk
            · exact Or.inl rfl
            · exact Or.inr ⟨k, hk, hk', rfl⟩
      case neg =>
        have hc : ¬ Complete s.worldData id := hcomplete
        rw [if_neg hcomplete]
        obtain ⟨hkeep, hpush⟩ := ih (swap.insert id)
        dsimp only
        refine ⟨fun k => ?_, fun pushed => ?_⟩
        · rw [hkeep k, OrdSet.mem_insert, List.mem_cons]
          constructor
          · rintro ((rfl | hin) | ⟨hin, hnot⟩)
            · exact Or.inr ⟨Or.inl rfl, hc⟩
            · exact Or.inl hin
            · exact Or.inr ⟨Or.inr hin, hnot⟩
          · rintro (hin | ⟨rfl | hin, hnot⟩)
            · exact Or.inl (Or.inr hin)
            · exact Or.inl (Or.inl rfl)
            · exact Or.inr ⟨hin, hnot⟩
        · rw [hpush pushed]
          constructor
          · rintro ⟨k, hk, hk', rfl⟩
            exact ⟨k, List.mem_cons_of_mem _ hk, hk', rfl⟩
          · rintro ⟨k, hk, hk', rfl⟩
            rcases List.mem_cons.mp hk with rfl | hk
            · exact absurd hk' hc
            · exact ⟨k, hk, hk', rfl⟩

section Steps

variable {s : ClientProxyState} {world : Bytes} {ids : List UInt32}
  {emitted : List PushedPacket}

theorem serving_new (now : Nat) : Serving (.new now) [] [] [] where
  data := rfl
  swap := rfl
  pending := by simp [ClientProxyState.new]
  answered := by simp
  toClient := by simp
  toServer := by simp

/-- A request for a complete block is answered at once. -/
theorem Serving.answerRequest (h : Serving s world ids emitted)
    {id : UInt32} (hcomplete : Complete world id) (now : Nat) :
    Serving { s with lastBlockRequest := now } world (ids ++ [id])
      (emitted ++ [answer world id]) := by
  constructor
  case data => exact h.data
  case swap => exact h.swap
  case pending =>
    intro k
    show k ∈ s.pendingRequests ↔ _
    rw [h.pending k, List.mem_append, List.mem_singleton]
    constructor
    · rintro ⟨hin, hnot⟩
      exact ⟨Or.inl hin, hnot⟩
    · rintro ⟨hin | rfl, hnot⟩
      · exact ⟨hin, hnot⟩
      · exact absurd hcomplete hnot
  case answered =>
    intro k hk hc
    rw [List.mem_append, List.mem_singleton] at hk
    rcases hk with hk | rfl
    · exact List.mem_append_left _ (h.answered k hk hc)
    · exact List.mem_append_right _ (List.mem_singleton_self _)
  case toClient =>
    intro packet hpacket
    rcases List.mem_append.mp hpacket with hpacket | hpacket
    · exact h.toClient packet hpacket
    · exact ⟨id, hcomplete, List.mem_singleton.mp hpacket⟩
  case toServer =>
    intro packet hpacket
    rcases List.mem_append.mp hpacket with hpacket | hpacket
    · exact h.toServer packet hpacket
    · cases List.mem_singleton.mp hpacket

/-- A request for any other block is kept. -/
theorem Serving.keepRequest (h : Serving s world ids emitted) {id : UInt32}
    (hnot : ¬ Complete world id) (now : Nat) :
    Serving { s with pendingRequests := s.pendingRequests.insert id
                     lastBlockRequest := now }
      world (ids ++ [id]) emitted := by
  constructor
  case data => exact h.data
  case swap => exact h.swap
  case pending =>
    intro k
    show k ∈ s.pendingRequests.insert id ↔ _
    rw [OrdSet.mem_insert, h.pending k, List.mem_append,
      List.mem_singleton]
    constructor
    · rintro (rfl | ⟨hin, hk⟩)
      · exact ⟨Or.inr rfl, hnot⟩
      · exact ⟨Or.inl hin, hk⟩
    · rintro ⟨hin | rfl, hk⟩
      · exact Or.inr ⟨hin, hk⟩
      · exact Or.inl rfl
  case answered =>
    intro k hk hc
    rw [List.mem_append, List.mem_singleton] at hk
    rcases hk with hk | rfl
    · exact h.answered k hk hc
    · exact absurd hc hnot
  case toClient => exact h.toClient
  case toServer => exact h.toServer

/-- Any other packet goes to the server. -/
theorem Serving.forward (h : Serving s world ids emitted)
    {packetData : Bytes} (hother : decodeBlockRequest packetData = none) :
    Serving s world ids (emitted ++ [(packetData, .toServer)]) := by
  constructor
  case data => exact h.data
  case swap => exact h.swap
  case pending => exact h.pending
  case answered =>
    intro k hk hc
    exact List.mem_append_left _ (h.answered k hk hc)
  case toClient =>
    intro packet hpacket
    rcases List.mem_append.mp hpacket with hpacket | hpacket
    · exact h.toClient packet hpacket
    · cases List.mem_singleton.mp hpacket
  case toServer =>
    intro packet hpacket
    rcases List.mem_append.mp hpacket with hpacket | hpacket
    · exact h.toServer packet hpacket
    · cases List.mem_singleton.mp hpacket
      exact hother

/-- A piece of world data answers the requests it completes. -/
theorem Serving.piece (h : Serving s world ids emitted) (newData : Bytes)
    (now : Nat) :
    Serving (s.onNewWorldData (some newData) now).1 (world ++ newData) ids
      (emitted ++ (s.onNewWorldData (some newData) now).2) := by
  have hworld : (s.extend newData).worldData = world ++ newData := by
    rw [← h.data]
    rfl
  obtain ⟨hkeep, hpush⟩ := fulfillPending_spec (s.extend newData)
    s.pendingRequests.toList s.pendingRequestsSwap
  rw [hworld] at hkeep hpush
  constructor
  case data => exact hworld
  case swap => rfl
  case pending =>
    intro k
    show k ∈ ((s.extend newData).fulfillPending s.pendingRequests.toList
      s.pendingRequestsSwap).1 ↔ _
    rw [hkeep k, h.swap, ← OrdSet.mem_def, h.pending k]
    constructor
    · rintro (hin | ⟨⟨hin, -⟩, hnot⟩)
      · exact absurd hin (OrdSet.not_mem_empty k)
      · exact ⟨hin, hnot⟩
    · rintro ⟨hin, hnot⟩
      exact Or.inr ⟨⟨hin, fun hc => hnot (hc.append newData)⟩, hnot⟩
  case answered =>
    intro k hk hc
    by_cases hbefore : Complete world k
    case pos =>
      rw [answer_append hbefore]
      exact List.mem_append_left _ (h.answered k hk hbefore)
    case neg =>
      refine List.mem_append_right _ ((hpush _).mpr ⟨k, ?_, hc, rfl⟩)
      exact (h.pending k).mpr ⟨hk, hbefore⟩
  case toClient =>
    intro packet hpacket
    rcases List.mem_append.mp hpacket with hpacket | hpacket
    · obtain ⟨k, hc, hanswer⟩ := h.toClient packet hpacket
      exact ⟨k, hc.append newData, by rw [hanswer, answer_append hc]⟩
    · obtain ⟨k, -, hc, hanswer⟩ := (hpush _).mp hpacket
      exact ⟨k, hc, hanswer⟩
  case toServer =>
    intro packet hpacket
    rcases List.mem_append.mp hpacket with hpacket | hpacket
    · exact h.toServer packet hpacket
    · obtain ⟨k, -, hc, hanswer⟩ := (hpush _).mp hpacket
      cases hanswer

/-- The end of the world data changes nothing here. -/
theorem Serving.noMoreData (h : Serving s world ids emitted) (now : Nat) :
    Serving { s with worldDataDone := true, lastBlockRequest := now }
      world ids emitted :=
  ⟨h.data, h.swap, h.pending, h.answered, h.toClient, h.toServer⟩

end Steps

/-- What one more input adds to the world data and to the requests. -/
theorem receivedWorld_snoc (past : List ClientInput) (input : ClientInput) :
    receivedWorld (past ++ [input]) = receivedWorld past
      ++ match input with
        | .worldData (some newData) _ => newData
        | _ => [] := by
  rw [receivedWorld_append]
  exact congrArg _ (List.append_nil _)

theorem requestedIds_snoc (past : List ClientInput) (packetData : Bytes)
    (elapsedAt now : Nat) :
    requestedIds (past ++ [.packet packetData elapsedAt now])
      = requestedIds past ++ ((decodeBlockRequest packetData).map
          TransferBlockRequestPacket.blockId).toList := by
  rw [requestedIds_append]
  cases h : decodeBlockRequest packetData with
  | none => simp [requestedIds, h]
  | some request => simp [requestedIds, h]

/-- One packet from the client. -/
theorem serving_packet {s : ClientProxyState} {world : Bytes}
    {ids : List UInt32} {emitted : List PushedPacket}
    (h : Serving s world ids emitted) (packetData : Bytes)
    (elapsedAt now : Nat)
    (hkeeps : decodeBlockRequest packetData = none →
      s.timedOut elapsedAt = false) :
    Serving (s.onPacketFromClient packetData elapsedAt now).1 world
      (ids ++ ((decodeBlockRequest packetData).map
        TransferBlockRequestPacket.blockId).toList)
      (emitted ++ (s.onPacketFromClient packetData elapsedAt now).2) := by
  unfold onPacketFromClient
  cases hrequest : decodeBlockRequest packetData with
  | none =>
      dsimp only
      rw [hkeeps hrequest]
      show Serving s world (ids ++ []) _
      rw [List.append_nil]
      exact h.forward hrequest
  | some request =>
      have hfulfill := tryFulfillBlockRequest_eq s request.blockId
      rw [h.data] at hfulfill
      dsimp only
      by_cases hcomplete : 503 * (request.blockId.toNat + 1) ≤ world.length
      case pos =>
        rw [if_pos hcomplete] at hfulfill
        rw [hfulfill]
        exact h.answerRequest hcomplete now
      case neg =>
        rw [if_neg hcomplete] at hfulfill
        rw [hfulfill]
        dsimp only
        rw [List.append_nil]
        exact h.keepRequest hcomplete now

/-- One input, from the state after `past`. -/
theorem serving_step (s : ClientProxyState) (past : List ClientInput)
    (emitted : List PushedPacket) (input : ClientInput)
    (h : Serving s (receivedWorld past) (requestedIds past) emitted)
    (hkeeps : KeepsWorld s input) :
    ∃ s' out, s.step input = some (s', out)
      ∧ Serving s' (receivedWorld (past ++ [input]))
        (requestedIds (past ++ [input])) (emitted ++ out) := by
  cases input with
  | packet packetData elapsedAt now =>
      refine ⟨_, _, rfl, ?_⟩
      rw [receivedWorld_snoc, requestedIds_snoc, List.append_nil]
      exact serving_packet h packetData elapsedAt now
        (hkeeps packetData elapsedAt now rfl)
  | worldData newData now =>
      have hids : requestedIds (past ++ [.worldData newData now])
          = requestedIds past := by
        rw [requestedIds_append]
        exact List.append_nil _
      refine ⟨_, _, rfl, ?_⟩
      rw [receivedWorld_snoc, hids]
      cases newData with
      | none =>
          rw [List.append_nil]
          show Serving _ _ _ (emitted ++ [])
          rw [List.append_nil]
          exact h.noMoreData now
      | some newData => exact h.piece newData now

-- ============================================================ whole runs

/-- In every run that has not dropped the world data: what is pushed to
the client is blocks of the whole world, no request goes to the server,
and the requests pending are exactly those whose block is not complete,
every other one having been answered. -/
theorem block_serving (start : Nat) {inputs : List ClientInput}
    (hkeeps : Machine.StepsMeet step KeepsWorld (.new start) inputs) :
    ∃ s out, Machine.run step (.new start) inputs = some (s, out)
      ∧ (∀ packet, (packet, PacketDirection.toClient) ∈ out →
          ∃ k : UInt32, 503 * (k.toNat + 1) ≤ (receivedWorld inputs).length
            ∧ packet = encodeFullPacket (TransferBlockPacket.mk k
              (((receivedWorld inputs).drop (503 * k.toNat)).take 503)))
      ∧ (∀ packet, (packet, PacketDirection.toServer) ∈ out →
          decodeBlockRequest packet = none)
      ∧ (∀ k, k ∈ s.pendingRequests ↔ k ∈ requestedIds inputs
          ∧ (receivedWorld inputs).length < 503 * (k.toNat + 1))
      ∧ (∀ k ∈ requestedIds inputs, k ∉ s.pendingRequests →
          (encodeFullPacket (TransferBlockPacket.mk k
            (((receivedWorld inputs).drop (503 * k.toNat)).take 503)),
            PacketDirection.toClient) ∈ out)
      ∧ s.pendingRequestsSwap = OrdSet.empty := by
  obtain ⟨s, out, hrun, hend⟩ := Machine.run_induction
    (fun s past emitted =>
      Serving s (receivedWorld past) (requestedIds past) emitted)
    serving_step hkeeps (serving_new start)
  refine ⟨s, out, hrun, ?_, hend.toServer, ?_, ?_, hend.swap⟩
  · intro packet hpacket
    obtain ⟨k, hc, hanswer⟩ := hend.toClient packet hpacket
    exact ⟨k, hc, congrArg Prod.fst hanswer⟩
  · intro k
    rw [hend.pending k, Complete, not_le]
  · intro k hk hnot
    refine hend.answered k hk ?_
    by_contra hc
    exact hnot ((hend.pending k).mpr ⟨hk, hc⟩)

/-- A request for block 0 before there is any data, an unrelated packet,
a piece that does not complete the block, the rest of it, the end. -/
def sampleSession : List ClientInput :=
  [ .packet (encodeFullPacket (TransferBlockRequestPacket.mk 0)) 0 0
  , .packet [2, 1] 0 0
  , .worldData (some [1, 2, 3]) 1
  , .worldData (some (List.replicate 500 4)) 2
  , .worldData none 3 ]

theorem block_serving_sample :
    Machine.StepsMeet step KeepsWorld (.new 0) sampleSession
    ∧ ∃ s out, Machine.run step (.new 0) sampleSession = some (s, out)
      ∧ (∀ packet, (packet, PacketDirection.toClient) ∈ out →
          ∃ k : UInt32,
            503 * (k.toNat + 1) ≤ (receivedWorld sampleSession).length
            ∧ packet = encodeFullPacket (TransferBlockPacket.mk k
              (((receivedWorld sampleSession).drop
                (503 * k.toNat)).take 503)))
      ∧ (∀ packet, (packet, PacketDirection.toServer) ∈ out →
          decodeBlockRequest packet = none)
      ∧ (∀ k, k ∈ s.pendingRequests ↔ k ∈ requestedIds sampleSession
          ∧ (receivedWorld sampleSession).length < 503 * (k.toNat + 1))
      ∧ (∀ k ∈ requestedIds sampleSession, k ∉ s.pendingRequests →
          (encodeFullPacket (TransferBlockPacket.mk k
            (((receivedWorld sampleSession).drop
              (503 * k.toNat)).take 503)),
            PacketDirection.toClient) ∈ out)
      ∧ s.pendingRequestsSwap = OrdSet.empty := by
  -- the clock readings of the two packets are early ones
  have hkeeps : Machine.StepsMeet step KeepsWorld (.new 0) sampleSession := by
    apply Machine.stepsMeet_of
    intro input hinput s packetData elapsedAt now hpacket hother
    subst hpacket
    simp only [sampleSession, List.mem_cons, ClientInput.packet.injEq,
      List.not_mem_nil, reduceCtorEq, or_false] at hinput
    rcases hinput with ⟨-, rfl, -⟩ | ⟨-, rfl, -⟩
    · simp [timedOut]
    · simp [timedOut]
  exact ⟨hkeeps, block_serving 0 hkeeps⟩

end FactoryCacher
