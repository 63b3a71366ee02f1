/-
A session and its server, over a stream in pieces.

# The link between them

At every moment a link is in one of three phases (`LinkPhase`): nothing
is on the streams, or one request is, or the reply to it is. A phase
says the exact bytes, however they are cut; where the session is in its
fetch; and that both ends have counted the same bytes, but for those on
their way. It is the invariant that makes a session and its server
understand each other: `read_message` either has its whole message or
waits, and what it reads decodes to what was meant.

# One turn

`linkTurn` says once what an action on a link does: nothing, and then it
is not the one the link waits for; or one phase's work, of which
afterwards there is less; or the session has its response. The first
half of it is for safety, the second for progress
(Common/Proofs/TalkProgress.lean).

# Honest servers

`TalkSetup.Honest` is what is assumed: of zstd and MessagePack that they
read what they wrote and add little to it, and of the far ends that
their chunks have the right hashes and the size of chunks. A run is
orderly when no session is cancelled, no stream fails and nobody asks a
server for a chunk it does not have. Then nothing goes wrong between
sessions and servers, whatever the order of steps and of bytes
(`orderly_conversation`).
-/
import Mathlib.Data.Prod.Lex
import FactoryCacher.Lib.MsgPack
import FactoryCacher.Common.Conversation
import FactoryCacher.Common.Proofs.ReplySizes
import FactoryCacher.Common.Proofs.SessionMoves

namespace FactoryCacher

-- ========================================================== partial messages

/-- What is written is the length and the data. -/
theorem writeMessage_eq_some {msgData written : Bytes}
    (h : writeMessage msgData = some written) :
    msgData.length ≤ messageSizeLimit
    ∧ written = putU32Le (UInt32.ofNat msgData.length) ++ msgData := by
  unfold writeMessage at h
  by_cases hlen : msgData.length > messageSizeLimit
  · rw [if_pos hlen] at h
    cases h
  · rw [if_neg hlen] at h
    exact ⟨not_lt.1 hlen, (Option.some.inj h).symm⟩

/-- A message in front of something else. -/
theorem readMessage_append {msgData written : Bytes}
    (h : writeMessage msgData = some written) (rest : Bytes) :
    readMessage (written ++ rest) = .ok (msgData, rest) := by
  obtain ⟨hlen, -⟩ := writeMessage_eq_some h
  obtain ⟨written', hwrite, hread⟩ := readMessage_written hlen
  rw [h] at hwrite
  cases hwrite
  exact hread rest

/-- A whole message. -/
theorem readMessage_whole {msgData written : Bytes}
    (h : writeMessage msgData = some written) :
    readMessage written = .ok (msgData, []) := by
  have hwhole := readMessage_append h []
  rwa [List.append_nil] at hwhole

/-- The front of a message is waited on. -/
theorem readMessage_part {msgData written arrived onTheWay : Bytes}
    (h : writeMessage msgData = some written)
    (hcut : arrived ++ onTheWay = written) (hmore : onTheWay ≠ []) :
    readMessage arrived = .error .io := by
  obtain ⟨hlen, hwritten⟩ := writeMessage_eq_some h
  have hcount : (UInt32.ofNat msgData.length).toNat = msgData.length :=
    UInt32.toNat_ofNat_of_lt'
      (by unfold messageSizeLimit at hlen; unfold UInt32.size; omega)
  have htotal : arrived.length + onTheWay.length = 4 + msgData.length := by
    rw [← List.length_append, hcut, hwritten, List.length_append,
      length_putU32Le]
  have hpos : 0 < onTheWay.length := List.length_pos_of_ne_nil hmore
  unfold readMessage
  cases hsize : tryGetU32Le arrived with
  | error e => rfl
  | ok read =>
      obtain ⟨msgSize, rest⟩ := read
      -- the length is there, and it is the message's
      have harrived := tryGetU32Le_eq_ok hsize
      have hsame : msgSize = UInt32.ofNat msgData.length
          ∧ rest ++ onTheWay = msgData := by
        rw [hwritten, harrived, List.append_assoc] at hcut
        have hread := run_tryGetU32Le_append msgSize (rest ++ onTheWay)
        rw [hcut, run_tryGetU32Le_append] at hread
        cases hread
        exact ⟨rfl, rfl⟩
      have hrest : rest.length + onTheWay.length = msgData.length := by
        rw [← List.length_append, hsame.2]
      dsimp only
      rw [hsame.1, hcount, if_neg (not_lt.2 hlen), if_pos (by omega)]

/-- The loop goes turn by turn until its stream ends: a turn that waits
there waits for good. -/
theorem provideChunksAsRequested_turn (zstd : Zstd) (rmp : MessagePack)
    (transport : MessageTransport) (chunks : ChunkMap) (recvStream : Bytes)
    (totalTransferred : Nat) (sent : Bytes) :
    (provideTurn zstd rmp transport chunks recvStream = .waits →
      provideChunksAsRequested zstd rmp transport chunks recvStream
        totalTransferred sent = (sent, .ok totalTransferred))
    ∧ (∀ error, provideTurn zstd rmp transport chunks recvStream
        = .fails error →
      provideChunksAsRequested zstd rmp transport chunks recvStream
        totalTransferred sent = (sent, .error error))
    ∧ ∀ rest written transferred,
      provideTurn zstd rmp transport chunks recvStream
        = .replies rest written transferred →
      provideChunksAsRequested zstd rmp transport chunks recvStream
          totalTransferred sent
        = provideChunksAsRequested zstd rmp transport chunks rest
          (totalTransferred + transferred) (sent ++ written) := by
  -- along the branches of the loop, each of which is one of the turn
  fun_cases provideChunksAsRequested zstd rmp transport chunks recvStream
    totalTransferred sent with
  | case1 hread => simp [provideTurn, hread]
  | case2 hread => simp [provideTurn, hread]
  | case3 requestData rest hread hdecode =>
      simp [provideTurn, hread, hdecode]
  | case4 requestData rest hread request hdecode hreply =>
      simp [provideTurn, hread, hdecode, hreply]
  | case5 requestData rest hread request hdecode response hreply hwrite =>
      simp [provideTurn, hread, hdecode, hreply, hwrite]
  | case6 requestData rest hread request hdecode response hreply written
      hwrite =>
      have hturn : provideTurn zstd rmp transport chunks recvStream
          = .replies rest written (requestData.length
            + (replyData zstd rmp transport response).length) := by
        simp [provideTurn, hread, hdecode, hreply, hwrite]
      rw [hturn]
      refine ⟨nofun, nofun, ?_⟩
      intro rest' written' transferred heq
      cases heq
      rw [Nat.add_assoc]

-- ============================================================ honest servers

/-- What both sides rely on. -/
structure TalkSetup.Honest (setup : TalkSetup) : Prop where
  lossless : setup.zstd.Lossless
  bounded : setup.zstd.Bounded
  adds : setup.rmp.AddsAtMostFive
  requests : ∀ message : RequestChunksMessage,
    message.requestedChunks.length < 2 ^ 32 →
    setup.rmp.readRequestChunks (setup.rmp.writeRequestChunks message)
      = some message
  responses : ∀ message : SendChunksMessage,
    message.chunks.length < 2 ^ 32 →
    (∀ chunk ∈ message.chunks, chunk.length < 2 ^ 32) →
    setup.rmp.readSendChunks (setup.rmp.writeSendChunks message)
      = some message
  hashes : ∀ i key chunk, (setup.chunks i).Written key chunk →
    setup.blake3 chunk = key
  fits : ∀ i, BlobsFit (setup.chunks i)

/-- The far end has the chunk. -/
def TalkSetup.Offers (setup : TalkSetup) (i : Nat) (key : ChunkKey) : Prop :=
  (setup.chunks i).containsKey key = true

section Honest

variable {setup : TalkSetup} {i : Nat} {keys : List ChunkKey}

/-- The reply to keys that are all there. -/
theorem exists_reply (hoffers : ∀ key ∈ keys, setup.Offers i key) :
    ∃ response, replyTo (setup.chunks i) ⟨keys⟩ = some response := by
  suffices hcollect : ∃ found,
      collectChunks (setup.chunks i) keys = some found by
    obtain ⟨found, hfound⟩ := hcollect
    exact ⟨⟨found⟩, by rw [replyTo, hfound]; rfl⟩
  induction keys with
  | nil => exact ⟨[], rfl⟩
  | cons key keys ih =>
      obtain ⟨hkey, hkeys⟩ := List.forall_mem_cons.1 hoffers
      obtain ⟨chunk, hchunk⟩ := Option.isSome_iff_exists.1 hkey
      obtain ⟨found, hfound⟩ := ih hkeys
      exact ⟨chunk :: found, by rw [collectChunks, hchunk, hfound]⟩

/-- A reply has the server's chunk for every key. -/
theorem collectChunks_written {found : List Bytes}
    (h : collectChunks (setup.chunks i) keys = some found) :
    ∀ e ∈ keys.zip found, (setup.chunks i).Written e.1 e.2 := by
  induction keys generalizing found with
  | nil =>
      cases h
      exact nofun
  | cons key keys ih =>
      rw [collectChunks] at h
      split at h
      case h_1 chunk rest hget hrest =>
        cases h
        rw [List.zip_cons_cons, List.forall_mem_cons]
        exact ⟨WriteMap.written_of_get hget, ih hrest⟩
      case h_2 => cases h

/-- The server looks nothing up but its own chunks. -/
theorem reply_chunks {response : SendChunksMessage}
    (h : replyTo (setup.chunks i) ⟨keys⟩ = some response) :
    ∀ e ∈ keys.zip response.chunks, (setup.chunks i).Written e.1 e.2 := by
  unfold replyTo at h
  obtain ⟨found, hfound, rfl⟩ := Option.map_eq_some_iff.1 h
  exact collectChunks_written hfound

/-- What is known of a reply. -/
theorem reply_right (hsetup : setup.Honest) {response : SendChunksMessage}
    (h : replyTo (setup.chunks i) ⟨keys⟩ = some response) :
    keys.length = response.chunks.length
    ∧ (∀ e ∈ keys.zip response.chunks, setup.blake3 e.2 = e.1)
    ∧ ∀ chunk ∈ response.chunks, chunk.length ≤ 16389 := by
  have hwritten := reply_chunks h
  unfold replyTo at h
  obtain ⟨found, hfound, rfl⟩ := Option.map_eq_some_iff.1 h
  obtain ⟨hlen, hall⟩ := collectChunks_spec hfound
  refine ⟨hlen.symm, fun e he => hsetup.hashes i e.1 e.2 (hwritten e he), ?_⟩
  intro chunk hchunk
  obtain ⟨key, hwritten⟩ := hall chunk hchunk
  exact hsetup.fits i key chunk hwritten

/-- 512 keys with their headers stay below the limit on a message. -/
theorem length_writeRequestChunks (hsetup : setup.Honest)
    (hlen : keys.length ≤ 512) :
    (setup.rmp.writeRequestChunks ⟨keys⟩).length ≤ 18954 := by
  have hkeys : (keys.flatMap fun key => setup.rmp.writeBytes
      key.bytes).length ≤ 37 * keys.length := by
    clear hlen
    induction keys with
    | nil => exact Nat.zero_le _
    | cons key keys ih =>
        have hheader := (hsetup.adds key.bytes.length).2
        have hkey := key.len
        rw [List.flatMap_cons, List.length_append, MessagePack.writeBytes,
          List.length_append, List.length_cons]
        omega
  have hstruct := (hsetup.adds 1).1
  have harray := (hsetup.adds keys.length).1
  rw [MessagePack.writeRequestChunks, List.length_append,
    List.length_append]
  dsimp only
  omega

/-- A request for a batch is written, and decodes to its keys. -/
theorem request_written (hsetup : setup.Honest) {batch : BatchChunkRequest}
    (hlen : batch.batchKeys.length ≤ 512) :
    (∃ written, writeMessage (Talk.requestData setup batch) = some written)
    ∧ MessageTransport.decodeMessage setup.zstd setup.rmp.readRequestChunks
        (Talk.requestData setup batch) = some ⟨batch.batchKeys⟩ := by
  constructor
  · have hplain := length_writeRequestChunks hsetup hlen
    have hpacked := hsetup.bounded setup.clientTransport.compressionLevel
      (setup.rmp.writeRequestChunks ⟨batch.batchKeys⟩)
    have hfits : (Talk.requestData setup batch).length
        ≤ messageSizeLimit := by
      unfold Talk.requestData MessageTransport.encodeMessage
        messageSizeLimit
      omega
    obtain ⟨written, hwritten, -⟩ := readMessage_written hfits
    exact ⟨written, hwritten⟩
  · rw [MessageTransport.decodeMessage, Talk.requestData,
      MessageTransport.encodeMessage, hsetup.lossless]
    apply hsetup.requests
    dsimp only
    omega

/-- So is the reply to it. -/
theorem reply_written (hsetup : setup.Honest) (hlen : keys.length ≤ 512)
    {response : SendChunksMessage}
    (h : replyTo (setup.chunks i) ⟨keys⟩ = some response) :
    (∃ written, writeMessage (replyData setup.zstd
        setup.rmp.toMessagePack setup.serverTransport response)
      = some written)
    ∧ MessageTransport.decodeMessage setup.zstd setup.rmp.readSendChunks
        (replyData setup.zstd setup.rmp.toMessagePack setup.serverTransport
          response) = some response := by
  obtain ⟨hcount, -, hsizes⟩ := reply_right hsetup h
  constructor
  · have hfits := (reply_fits hsetup.adds hsetup.bounded
      setup.serverTransport (hsetup.fits i) hlen h).2
    obtain ⟨written, hwritten, -⟩ := readMessage_written hfits
    exact ⟨written, hwritten⟩
  · rw [MessageTransport.decodeMessage, replyData,
      MessageTransport.encodeMessage, hsetup.lossless]
    apply hsetup.responses
    · omega
    · intro chunk hchunk
      have hsize := hsizes chunk hchunk
      omega

end Honest

-- =================================================================== phases

/-- Where a link is, beside the task of its session. -/
inductive LinkPhase (setup : TalkSetup) (i : Nat) (link : Link)
    (task : TaskState) : Prop
  /-- nothing is on the streams -/
  | quiet (hasked : link.asked = false)
      (hrequests : link.requests.contents = [])
      (hresponses : link.responses.contents = [])
      (hprovide : link.provide = .reading link.totalTransferred)
  /-- the request of the batch the session holds is -/
  | asked (batch : BatchChunkRequest) (batchSize : Nat)
      (htask : task = .holding batch batchSize)
      (hasked : link.asked = true) (written : Bytes)
      (hwritten : writeMessage (Talk.requestData setup batch)
        = some written)
      (hrequests : link.requests.contents = written)
      (hresponses : link.responses.contents = [])
      (total : Nat) (hprovide : link.provide = .reading total)
      (htotal : link.totalTransferred
        = total + (Talk.requestData setup batch).length)
  /-- the reply to it is -/
  | answered (batch : BatchChunkRequest) (batchSize : Nat)
      (htask : task = .holding batch batchSize)
      (hasked : link.asked = true) (response : SendChunksMessage)
      (hreply : replyTo (setup.chunks i) ⟨batch.batchKeys⟩ = some response)
      (written : Bytes)
      (hwritten : writeMessage (replyData setup.zstd
        setup.rmp.toMessagePack setup.serverTransport response)
          = some written)
      (hrequests : link.requests.contents = [])
      (hresponses : link.responses.contents = written)
      (hprovide : link.provide = .reading (link.totalTransferred
        + (replyData setup.zstd setup.rmp.toMessagePack
          setup.serverTransport response).length))

/-- A session without a batch has a quiet link, wherever it goes. -/
theorem LinkPhase.of_free {setup : TalkSetup} {i : Nat} {link : Link}
    {task : TaskState} (h : LinkPhase setup i link task)
    (hfree : ∀ batch batchSize, task ≠ .holding batch batchSize)
    (task' : TaskState) : LinkPhase setup i link task' := by
  cases h with
  | quiet hasked hrequests hresponses hprovide =>
      exact .quiet hasked hrequests hresponses hprovide
  | asked batch batchSize htask => exact absurd htask (hfree batch batchSize)
  | answered batch batchSize htask =>
      exact absurd htask (hfree batch batchSize)

-- ==================================================================== work

/-- What is left to do on a link whose session holds a batch: the phases
still to come, and the bytes still to arrive in this one. -/
def Link.work (link : Link) : ℕ ×ₗ ℕ :=
  if link.asked = false then toLex (2, 0)
  else if link.requests.contents ≠ [] then
    toLex (1, link.requests.onTheWay.length)
  else toLex (0, link.responses.onTheWay.length)

/-- What a link can wait for. -/
inductive LinkNeed
  | request
  | requestArrives
  | serve
  | responseArrives
  | receive

/-- What a link waits for. -/
def Link.needs (link : Link) : LinkNeed :=
  if link.asked = false then .request
  else if link.requests.contents ≠ [] then
    if link.requests.onTheWay ≠ [] then .requestArrives else .serve
  else if link.responses.onTheWay ≠ [] then .responseArrives else .receive

/-- The actions that are waited for. -/
def LinkNeed.MetBy (i : Nat) : LinkNeed → TalkAction → Prop
  | .request, action => action = .request i
  | .requestArrives, action => ∃ n, action = .requestArrives i (n + 1)
  | .serve, action => action = .serve i
  | .responseArrives, action => ∃ n, action = .responseArrives i (n + 1)
  | .receive, action => action = .receive i

/-- The link an action is on. -/
def TalkAction.linkOf : TalkAction → Option Nat
  | .session _ => none
  | .request i => some i
  | .requestArrives i _ => some i
  | .serve i => some i
  | .responseArrives i _ => some i
  | .receive i => some i
  | .hangUp _ => none

/-- What an action on a link does. -/
inductive LinkTurn (setup : TalkSetup) (s : Talk) (i : Nat)
    (action : TalkAction) : Talk → Prop
  /-- nothing; and a session with a batch does not wait for it -/
  | stays (hneeds : ∀ batch batchSize,
        s.fetcher.cache.tasks i = .holding batch batchSize →
        ¬ ((s.links i).needs).MetBy i action) :
      LinkTurn setup s i action s
  /-- a part of what there is to do -/
  | moves (link : Link) (batch : BatchChunkRequest) (batchSize : Nat)
      (hheld : s.fetcher.cache.tasks i = .holding batch batchSize)
      (hphase : LinkPhase setup i link (s.fetcher.cache.tasks i))
      (hwork : link.work < (s.links i).work) :
      LinkTurn setup s i action (s.setLink i link)
  /-- the session has the response -/
  | receives (link : Link) (batch : BatchChunkRequest) (batchSize : Nat)
      (response : SendChunksMessage)
      (hheld : s.fetcher.cache.tasks i = .holding batch batchSize)
      (hreply : replyTo (setup.chunks i) ⟨batch.batchKeys⟩ = some response)
      (hphase : ∀ task, LinkPhase setup i link task) :
      LinkTurn setup s i action
        ((s.setLink i link).onFetcher setup (.respond i response.chunks))

section Needs

variable {link : Link}

/-- The measure in each phase: the request is not written, -/
theorem Link.work_of_not_asked (h : link.asked = false) :
    link.work = toLex (2, 0) := if_pos h

/-- it is on its way or being read, -/
theorem Link.work_of_requests (h : link.asked = true)
    (hrequests : link.requests.contents ≠ []) :
    link.work = toLex (1, link.requests.onTheWay.length) := by
  rw [work, if_neg (by simp [h]), if_pos hrequests]

/-- and only the reply is left. -/
theorem Link.work_of_no_requests (h : link.asked = true)
    (hrequests : link.requests.contents = []) :
    link.work = toLex (0, link.responses.onTheWay.length) := by
  rw [work, if_neg (by simp [h]), if_neg (not_not.2 hrequests)]

/-- And what is waited for there: that the request is written, -/
theorem Link.needs_of_not_asked (h : link.asked = false) :
    link.needs = .request := if_pos h

/-- that it arrives and is answered, -/
theorem Link.needs_of_requests (h : link.asked = true)
    (hrequests : link.requests.contents ≠ []) :
    link.needs = if link.requests.onTheWay ≠ [] then .requestArrives
      else .serve := by
  rw [needs, if_neg (by simp [h]), if_pos hrequests]

/-- that the reply arrives and is read. -/
theorem Link.needs_of_no_requests (h : link.asked = true)
    (hrequests : link.requests.contents = []) :
    link.needs = if link.responses.onTheWay ≠ [] then .responseArrives
      else .receive := by
  rw [needs, if_neg (by simp [h]), if_neg (not_not.2 hrequests)]

end Needs

section Turns

variable {setup : TalkSetup} {s : Talk} {i : Nat}

/-- A link set to what it is. -/
theorem Talk.setLink_self (s : Talk) (i : Nat) :
    s.setLink i (s.links i) = s := by
  rw [setLink, Function.update_eq_self]

/-- One link is set, -/
@[simp] theorem Talk.links_setLink_self (s : Talk) (i : Nat)
    (link : Link) : (s.setLink i link).links i = link :=
  Function.update_self ..

/-- and no other. -/
theorem Talk.links_setLink_of_ne (s : Talk) {i j : Nat} (link : Link)
    (h : j ≠ i) : (s.setLink i link).links j = s.links j :=
  Function.update_of_ne h ..

/-- A message is never empty, so a stream with one on it is not. -/
theorem writeMessage_ne_nil {msgData written : Bytes}
    (h : writeMessage msgData = some written) : written ≠ [] := by
  obtain ⟨-, rfl⟩ := writeMessage_eq_some h
  intro hnil
  have hlen := congrArg List.length hnil
  rw [List.length_append, length_putU32Le] at hlen
  simp at hlen

/-- The session writes its request, if it holds a batch and has not done so. -/
theorem turn_request (hsetup : setup.Honest)
    (hphase : LinkPhase setup i (s.links i) (s.fetcher.cache.tasks i))
    (hsize : ∀ batch batchSize,
      s.fetcher.cache.tasks i = .holding batch batchSize →
      batch.batchKeys.length ≤ 512) :
    LinkTurn setup s i (.request i) (s.act setup (.request i)) := by
  show LinkTurn setup s i _ (s.actRequest setup i)
  unfold Talk.actRequest
  cases htask : s.fetcher.cache.tasks i with
  | holding batch batchSize =>
      dsimp only
      cases hphase with
      | quiet hasked hrequests hresponses hprovide =>
          obtain ⟨⟨written, hwritten⟩, -⟩ :=
            request_written hsetup (hsize batch batchSize htask)
          rw [hwritten, if_neg (by simp [hasked])]
          dsimp only
          have hcontents : ((s.links i).requests.write written).contents
              = written := by
            rw [Pipe.contents_write, hrequests, List.nil_append]
          apply LinkTurn.moves _ batch batchSize htask
          · apply LinkPhase.asked batch batchSize htask rfl written hwritten
            · exact hcontents
            · exact hresponses
            · exact hprovide
            · rfl
          · rw [Link.work_of_not_asked hasked, Link.work_of_requests rfl]
            · exact Prod.Lex.toLex_lt_toLex.2 (Or.inl (by simp))
            · show ((s.links i).requests.write written).contents ≠ []
              rw [hcontents]
              exact writeMessage_ne_nil hwritten
      | asked b n htask' hasked written hwritten hrequests =>
          rw [if_pos hasked]
          apply LinkTurn.stays
          intro _ _ _
          rw [Link.needs_of_requests hasked
            (hrequests ▸ writeMessage_ne_nil hwritten)]
          split <;> simp [LinkNeed.MetBy]
      | answered b n htask' hasked response hreply written hwritten
          hrequests =>
          rw [if_pos hasked]
          apply LinkTurn.stays
          intro _ _ _
          rw [Link.needs_of_no_requests hasked hrequests]
          split <;> simp [LinkNeed.MetBy]
  | _ =>
      apply LinkTurn.stays
      intro batch batchSize hheld
      rw [htask] at hheld
      cases hheld

/-- Bytes of the request get there, if there are any. -/
theorem turn_requestArrives (n : Nat)
    (hphase : LinkPhase setup i (s.links i) (s.fetcher.cache.tasks i)) :
    LinkTurn setup s i (.requestArrives i n)
      (s.act setup (.requestArrives i n)) := by
  show LinkTurn setup s i _ (s.setLink i { s.links i with
    requests := (s.links i).requests.arrive n })
  by_cases hidle : n = 0 ∨ (s.links i).requests.onTheWay = []
  · rw [Pipe.arrive_eq_self hidle]
    show LinkTurn setup s i _ (s.setLink i (s.links i))
    rw [Talk.setLink_self]
    apply LinkTurn.stays
    intro batch batchSize _
    rcases hidle with rfl | hidle
    · cases (s.links i).needs <;> simp [LinkNeed.MetBy]
    · -- the link waits for something else
      unfold Link.needs
      split
      · simp [LinkNeed.MetBy]
      · rw [if_neg (not_not.2 hidle)]
        split
        · simp [LinkNeed.MetBy]
        · split <;> simp [LinkNeed.MetBy]
  · obtain ⟨hn, hmore⟩ := not_or.1 hidle
    have hcontents : (s.links i).requests.contents ≠ [] := by
      intro hnil
      exact hmore (List.append_eq_nil_iff.1 hnil).2
    cases hphase with
    | quiet hasked hrequests => exact absurd hrequests hcontents
    | answered _ _ _ _ _ _ _ _ hrequests => exact absurd hrequests hcontents
    | asked batch batchSize htask hasked written hwritten hrequests
        hresponses total hprovide htotal =>
        apply LinkTurn.moves _ batch batchSize htask
        · exact .asked batch batchSize htask hasked written hwritten
            ((Pipe.contents_arrive ..).trans hrequests) hresponses total
            hprovide htotal
        · rw [Link.work_of_requests hasked hcontents,
            Link.work_of_requests]
          · apply Prod.Lex.toLex_lt_toLex.2
            refine Or.inr ⟨rfl, ?_⟩
            have hpos := List.length_pos_of_ne_nil hmore
            show ((s.links i).requests.onTheWay.drop n).length < _
            rw [List.length_drop]
            omega
          · exact hasked
          · rw [Pipe.contents_arrive]
            exact hcontents

/-- The server waits for the rest of a request. -/
theorem provideTurn_part {zstd : Zstd} {rmp : MessagePack}
    {transport : MessageTransport} {chunks : ChunkMap} {arrived : Bytes}
    (h : readMessage arrived = .error .io) :
    provideTurn zstd rmp transport chunks arrived = .waits := by
  rw [provideTurn, h]

/-- A whole request is answered. -/
theorem provideTurn_request (hsetup : setup.Honest)
    {batch : BatchChunkRequest} (hlen : batch.batchKeys.length ≤ 512)
    (hoffers : ∀ key ∈ batch.batchKeys, setup.Offers i key)
    {request : Bytes}
    (hrequest : writeMessage (Talk.requestData setup batch)
      = some request) :
    ∃ response written,
      replyTo (setup.chunks i) ⟨batch.batchKeys⟩ = some response
      ∧ writeMessage (replyData setup.zstd setup.rmp.toMessagePack
          setup.serverTransport response) = some written
      ∧ provideTurn setup.zstd setup.rmp.toMessagePack
          setup.serverTransport (setup.chunks i) request
        = .replies [] written ((Talk.requestData setup batch).length
          + (replyData setup.zstd setup.rmp.toMessagePack
            setup.serverTransport response).length) := by
  obtain ⟨response, hreply⟩ := exists_reply hoffers
  obtain ⟨⟨written, hwritten⟩, -⟩ := reply_written hsetup hlen hreply
  refine ⟨response, written, hreply, hwritten, ?_⟩
  rw [provideTurn, readMessage_whole hrequest]
  dsimp only
  rw [(request_written hsetup hlen).2]
  dsimp only
  rw [hreply]
  dsimp only
  rw [hwritten]

/-- The server answers a request that is there whole. -/
theorem turn_serve (hsetup : setup.Honest)
    (hphase : LinkPhase setup i (s.links i) (s.fetcher.cache.tasks i))
    (hbatch : ∀ batch batchSize,
      s.fetcher.cache.tasks i = .holding batch batchSize →
      batch.batchKeys.length ≤ 512
      ∧ ∀ key ∈ batch.batchKeys, setup.Offers i key) :
    LinkTurn setup s i (.serve i) (s.act setup (.serve i)) := by
  show LinkTurn setup s i _ (s.actServe setup i)
  unfold Talk.actServe
  cases hphase with
  | quiet hasked hrequests hresponses hprovide =>
      rw [hprovide, Pipe.eq_empty hrequests]
      apply LinkTurn.stays
      intro _ _ _
      rw [Link.needs_of_not_asked hasked]
      simp [LinkNeed.MetBy]
  | answered batch batchSize htask hasked response hreply written hwritten
      hrequests hresponses hprovide =>
      rw [hprovide, Pipe.eq_empty hrequests]
      apply LinkTurn.stays
      intro _ _ _
      rw [Link.needs_of_no_requests hasked hrequests]
      split <;> simp [LinkNeed.MetBy]
  | asked batch batchSize htask hasked request hrequest hrequests
      hresponses total hprovide htotal =>
      rw [hprovide]
      dsimp only
      have hne : (s.links i).requests.contents ≠ [] :=
        hrequests ▸ writeMessage_ne_nil hrequest
      by_cases hmore : (s.links i).requests.onTheWay = []
      · -- the whole request is there
        obtain ⟨hlen, hoffers⟩ := hbatch batch batchSize htask
        obtain ⟨response, written, hreply, hwritten, hturn⟩ :=
          provideTurn_request hsetup hlen hoffers hrequest
        rw [Pipe.arrived_eq hmore, hrequests, hturn]
        dsimp only
        have hread : ((s.links i).requests.readTo []).contents = [] := by
          rw [Pipe.readTo, Pipe.contents, hmore]
          rfl
        apply LinkTurn.moves _ batch batchSize htask
        · refine LinkPhase.answered batch batchSize htask ?_ response hreply
            written hwritten ?_ ?_ ?_
          · exact hasked
          · exact hread
          · rw [Pipe.contents_write, hresponses, List.nil_append]
          · dsimp only
            rw [htotal, Nat.add_assoc]
        · rw [Link.work_of_requests hasked hne, Link.work_of_no_requests]
          · exact Prod.Lex.toLex_lt_toLex.2 (Or.inl (by simp))
          · exact hasked
          · exact hread
      · rw [provideTurn_part (readMessage_part hrequest hrequests hmore)]
        apply LinkTurn.stays
        intro _ _ _
        rw [Link.needs_of_requests hasked hne, if_pos hmore]
        simp [LinkNeed.MetBy]

/-- Bytes of the reply get there. -/
theorem turn_responseArrives (n : Nat)
    (hphase : LinkPhase setup i (s.links i) (s.fetcher.cache.tasks i)) :
    LinkTurn setup s i (.responseArrives i n)
      (s.act setup (.responseArrives i n)) := by
  show LinkTurn setup s i _ (s.setLink i { s.links i with
    responses := (s.links i).responses.arrive n })
  by_cases hidle : n = 0 ∨ (s.links i).responses.onTheWay = []
  · rw [Pipe.arrive_eq_self hidle]
    show LinkTurn setup s i _ (s.setLink i (s.links i))
    rw [Talk.setLink_self]
    apply LinkTurn.stays
    intro batch batchSize _
    rcases hidle with rfl | hidle
    · cases (s.links i).needs <;> simp [LinkNeed.MetBy]
    · unfold Link.needs
      split
      · simp [LinkNeed.MetBy]
      · split
        · split <;> simp [LinkNeed.MetBy]
        · rw [if_neg (not_not.2 hidle)]
          simp [LinkNeed.MetBy]
  · obtain ⟨hn, hmore⟩ := not_or.1 hidle
    have hcontents : (s.links i).responses.contents ≠ [] := by
      intro hnil
      exact hmore (List.append_eq_nil_iff.1 hnil).2
    cases hphase with
    | quiet _ _ hresponses => exact absurd hresponses hcontents
    | asked _ _ _ _ _ _ _ hresponses => exact absurd hresponses hcontents
    | answered batch batchSize htask hasked response hreply written hwritten
        hrequests hresponses hprovide =>
        apply LinkTurn.moves _ batch batchSize htask
        · exact .answered batch batchSize htask hasked response hreply
            written hwritten hrequests
            ((Pipe.contents_arrive ..).trans hresponses) hprovide
        · rw [Link.work_of_no_requests hasked hrequests,
            Link.work_of_no_requests]
          · apply Prod.Lex.toLex_lt_toLex.2
            refine Or.inr ⟨rfl, ?_⟩
            have hpos := List.length_pos_of_ne_nil hmore
            show ((s.links i).responses.onTheWay.drop n).length < _
            rw [List.length_drop]
            omega
          · exact hasked
          · exact hrequests

/-- The session takes a reply that is there whole, which is the right one. -/
theorem turn_receive (hsetup : setup.Honest)
    (hphase : LinkPhase setup i (s.links i) (s.fetcher.cache.tasks i))
    (hsize : ∀ batch batchSize,
      s.fetcher.cache.tasks i = .holding batch batchSize →
      batch.batchKeys.length ≤ 512) :
    LinkTurn setup s i (.receive i) (s.act setup (.receive i)) := by
  show LinkTurn setup s i _ (s.actReceive setup i)
  unfold Talk.actReceive
  cases htask : s.fetcher.cache.tasks i with
  | holding batch batchSize =>
      dsimp only
      cases hphase with
      | quiet hasked =>
          rw [if_neg (by simp [hasked])]
          apply LinkTurn.stays
          intro _ _ _
          rw [Link.needs_of_not_asked hasked]
          simp [LinkNeed.MetBy]
      | asked b n htask' hasked written hwritten hrequests hresponses =>
          rw [if_pos hasked, Pipe.eq_empty hresponses]
          apply LinkTurn.stays
          intro _ _ _
          rw [Link.needs_of_requests hasked
            (hrequests ▸ writeMessage_ne_nil hwritten)]
          split <;> simp [LinkNeed.MetBy]
      | answered b n htask' hasked response hreply written hwritten
          hrequests hresponses hprovide =>
          rw [htask] at htask'
          cases htask'
          rw [if_pos hasked]
          by_cases hmore : (s.links i).responses.onTheWay = []
          · rw [Pipe.arrived_eq hmore, hresponses,
              readMessage_whole hwritten]
            dsimp only
            rw [(reply_written hsetup (hsize batch batchSize htask)
              hreply).2]
            dsimp only
            apply LinkTurn.receives _ batch batchSize response htask hreply
            intro task
            refine LinkPhase.quiet rfl ?_ ?_ ?_
            · exact hrequests
            · rw [Pipe.readTo, Pipe.contents, hmore]
              rfl
            · exact hprovide
          · rw [readMessage_part hwritten hresponses hmore]
            apply LinkTurn.stays
            intro _ _ _
            rw [Link.needs_of_no_requests hasked hrequests, if_pos hmore]
            simp [LinkNeed.MetBy]
  | _ =>
      apply LinkTurn.stays
      intro batch batchSize hheld
      rw [htask] at hheld
      cases hheld

end Turns

end FactoryCacher
