/-
Sessions and servers understand each other.

# The invariant

`SessionOk` is about one session: it has not failed, what it asks for its
server has, it fetches in batches of 512, the only panics it can have met
are those over the shared cache, and its link is in a phase. `TalkInv` is
that of every session, with the integrity of what they share. No session
is mentioned in another's part. So an action needs a look at the session
it is of only; to the others it is rest (`SessionMove.rest`).

# Refinement

An action of the talking sessions is at most one of the sessions of
Common/Fetcher.lean (`act_fetcher`), with a response that came over the
stream. So whatever is true of those, for all responses, is true here.
-/
import FactoryCacher.Common.Proofs.TalkLinks

namespace FactoryCacher

-- ============================================================== the sessions

/-- Nobody is cancelled, no stream fails, and a server is asked for what
it has. -/
def TalkAction.Orderly (setup : TalkSetup) : TalkAction → Prop
  | .session (.fail _ _) => False
  | .session (.prefetch i keys) => ∀ key ∈ keys, setup.Offers i key
  | .hangUp _ => False
  | _ => True

/-- A session as it is in an orderly run, with its task and its link. -/
structure SessionOk (setup : TalkSetup) (i : Nat) (session : Session)
    (task : TaskState) (link : Link) : Prop where
  unfailed : session.failed = none
  offered : ∀ key, key ∈ session.pendingChunks ∨ key ∈ task.keys →
    setup.Offers i key
  batches : ∀ batch batchSize, task = .holding batch batchSize →
    batchSize = fetchBatchSize
  panics : ∀ panic, task = .panicked panic →
    panic = .poisoned ∨ panic = .notInCache
  phase : LinkPhase setup i link task

section Moves

variable {setup : TalkSetup} {s s' : FetcherState} {i : Nat} {link : Link}
  {action : FetchAction}

/-- What a session does, short of failing. A response is the right one,
and the link is quiet by then. -/
theorem SessionOk.move
    (h : SessionOk setup i (s.sessions i) (s.cache.tasks i) link)
    (hmove : SessionMove setup.blake3 s i action s')
    (hfail : ∀ failure, action ≠ .fail i failure)
    (hprefetch : ∀ keys, action = .prefetch i keys →
      ∀ key ∈ keys, setup.Offers i key)
    (hrespond : ∀ chunks, action = .respond i chunks →
      (∀ task, LinkPhase setup i link task)
      ∧ ∀ batch batchSize, s.cache.tasks i = .holding batch batchSize →
        batch.batchKeys.length = chunks.length
        ∧ ∀ e ∈ batch.batchKeys.zip chunks, setup.blake3 e.2 = e.1) :
    SessionOk setup i (s'.sessions i) (s'.cache.tasks i) link := by
  -- a task without keys, without a batch and without a panic
  have hplain : ∀ {task : TaskState}, task = .idle ∨ (∃ e, task = .closing e) →
      (s'.sessions i).failed = none →
      (∀ key ∈ (s'.sessions i).pendingChunks, setup.Offers i key) →
      LinkPhase setup i link task →
      SessionOk setup i (s'.sessions i) task link := by
    intro task htask hfailed hkeys hphase
    rcases htask with rfl | ⟨e, rfl⟩
    · exact ⟨hfailed, fun key hkey => hkey.elim (hkeys key) nofun, nofun,
        nofun, hphase⟩
    · exact ⟨hfailed, fun key hkey => hkey.elim (hkeys key) nofun, nofun,
        nofun, hphase⟩
  have hpending : ∀ key ∈ (s.sessions i).pendingChunks,
      setup.Offers i key := fun key hkey => h.offered key (Or.inl hkey)
  cases hmove with
  | rest htask hsession =>
      rw [htask, hsession]
      exact h
  | prefetch keys haction hready htask hfailed hkeys =>
      rw [htask]
      apply hplain (Or.inl rfl) hfailed
      · intro key hkey
        rcases hkeys key hkey with hold | hnew
        · exact hpending key hold
        · exact hprefetch keys haction key hnew
      · exact h.phase.of_free (by simp [hready.2]) _
  | fetch haction hready htask hfailed hkeys =>
      refine ⟨hfailed, fun key hkey => hpending key (hkeys key hkey), ?_, ?_,
        h.phase.of_free (by simp [hready.2]) _⟩
      · intro batch batchSize hheld
        rcases htask with ht | ⟨b, ht⟩ | ⟨requests, ht⟩
        all_goals
          rw [ht] at hheld
          cases hheld
        rfl
      · intro panic hpanic
        rcases htask with ht | ⟨b, ht⟩ | ⟨requests, ht⟩
        all_goals
          rw [ht] at hpanic
          cases hpanic
  | wake requests haction hwaiting htask hfailed hsame =>
      rw [htask]
      apply hplain (Or.inl rfl) (hfailed.trans h.unfailed)
      · rw [hsame]
        exact hpending
      · exact h.phase.of_free (by simp [hwaiting]) _
  | fulfill chunks batch batchSize haction hheld htask hfailed hsame =>
      rw [htask]
      apply hplain (Or.inr ⟨_, rfl⟩) (hfailed.trans h.unfailed)
      · rw [hsame]
        exact hpending
      · exact (hrespond chunks haction).1 _
  | close event haction hclosing htask hclosed hsession =>
      rw [htask]
      apply hplain (Or.inl rfl)
      · rw [hsession]
        exact h.unfailed
      · rw [hsession]
        exact hpending
      · exact h.phase.of_free (by simp [hclosing]) _
  | panic panic hcause htask hfailed hkeys =>
      rw [htask]
      refine ⟨hfailed.trans h.unfailed, ?_, nofun, ?_, ?_⟩
      · intro key hkey
        exact hkey.elim (fun hkey => hpending key (hkeys key hkey)) nofun
      · intro panic' heq
        cases heq
        cases hcause with
        | fetch | wake | fulfill => exact Or.inl rfl
        | evicted => exact Or.inr rfl
        | count hheld hcount =>
            exact absurd ((hrespond _ rfl).2 _ _ hheld).1 hcount
      · cases hcause with
        | fetch hready => exact h.phase.of_free (by simp [hready.2]) _
        | wake hwaiting => exact h.phase.of_free (by simp [hwaiting]) _
        | evicted hwaiting => exact h.phase.of_free (by simp [hwaiting]) _
        | fulfill => exact (hrespond _ rfl).1 _
        | count => exact (hrespond _ rfl).1 _
  | fail hfailed hwhy =>
      rcases hwhy with ⟨failure, rfl⟩ | ⟨chunks, batch, batchSize, haction,
        hheld, e, he, hwrong⟩
      · exact absurd rfl (hfail failure)
      · exact absurd (((hrespond chunks haction).2 _ _ hheld).2 e he) hwrong

end Moves

-- =============================================================== all of them

structure TalkInv (setup : TalkSetup) (s : Talk) : Prop where
  integrity : Integrity setup.blake3 s.fetcher
  session : ∀ i, SessionOk setup i (s.fetcher.sessions i)
    (s.fetcher.cache.tasks i) (s.links i)

section Steps

variable {setup : TalkSetup} {s : Talk} {i : Nat} {action : TalkAction}

/-- What is known of the batch a session holds. -/
theorem TalkInv.batch (h : TalkInv setup s) {batch : BatchChunkRequest}
    {batchSize : Nat}
    (hheld : s.fetcher.cache.tasks i = .holding batch batchSize) :
    batch.batchKeys.length ≤ 512
    ∧ ∀ key ∈ batch.batchKeys, setup.Offers i key := by
  have hsize := (h.session i).batches batch batchSize hheld
  have hbounded := (h.integrity.inv.held i batch batchSize hheld).bounded
  rw [hsize] at hbounded
  refine ⟨hbounded, fun key hkey => (h.session i).offered key (Or.inr ?_)⟩
  rw [hheld]
  exact hkey

/-- An action on a link. -/
theorem linkTurn (hsetup : setup.Honest) (h : TalkInv setup s)
    (haction : action.linkOf = some i) :
    LinkTurn setup s i action (s.act setup action) := by
  have hphase := (h.session i).phase
  cases action with
  | session | hangUp => cases haction
  | request j =>
      cases haction
      exact turn_request hsetup hphase fun _ _ hheld => (h.batch hheld).1
  | requestArrives j n =>
      cases haction
      exact turn_requestArrives n hphase
  | serve j =>
      cases haction
      exact turn_serve hsetup hphase fun _ _ => h.batch
  | responseArrives j n =>
      cases haction
      exact turn_responseArrives n hphase
  | receive j =>
      cases haction
      exact turn_receive hsetup hphase fun _ _ hheld => (h.batch hheld).1

/-- The sessions after one of their own actions. -/
theorem TalkInv.onFetcher (h : TalkInv setup s) {action : FetchAction}
    (hfail : ∀ i failure, action ≠ .fail i failure)
    (hprefetch : ∀ i keys, action = .prefetch i keys →
      ∀ key ∈ keys, setup.Offers i key)
    (hrespond : ∀ i chunks, action ≠ .respond i chunks) :
    TalkInv setup (s.onFetcher setup action) := by
  refine ⟨h.integrity.act action, fun i => ?_⟩
  exact (h.session i).move
    (FetcherState.act_sessionMove h.integrity.inv i action) (hfail i)
    (hprefetch i) fun chunks haction => absurd haction (hrespond i chunks)

/-- A response that came over the stream. -/
theorem TalkInv.receive (hsetup : setup.Honest) (h : TalkInv setup s)
    {link : Link} {batch : BatchChunkRequest} {batchSize : Nat}
    {response : SendChunksMessage}
    (hheld : s.fetcher.cache.tasks i = .holding batch batchSize)
    (hreply : replyTo (setup.chunks i) ⟨batch.batchKeys⟩ = some response)
    (hphase : ∀ task, LinkPhase setup i link task) :
    TalkInv setup ((s.setLink i link).onFetcher setup
      (.respond i response.chunks)) := by
  obtain ⟨hcount, hright, -⟩ := reply_right hsetup hreply
  refine ⟨h.integrity.act (.respond i response.chunks), fun j => ?_⟩
  have hmove : SessionMove setup.blake3 s.fetcher j
      (.respond i response.chunks) _ :=
    FetcherState.act_sessionMove h.integrity.inv j _
  by_cases hj : j = i
  · subst hj
    show SessionOk setup j _ _ ((s.setLink j link).links j)
    rw [Talk.links_setLink_self]
    refine SessionOk.move { h.session j with phase := hphase _ } hmove nofun
      nofun ?_
    intro chunks haction
    cases haction
    refine ⟨hphase, fun b n hb => ?_⟩
    rw [hheld] at hb
    cases hb
    exact ⟨hcount, hright⟩
  · show SessionOk setup j _ _ ((s.setLink i link).links j)
    rw [Talk.links_setLink_of_ne s link hj]
    refine (h.session j).move hmove nofun nofun ?_
    intro chunks haction
    cases haction
    exact absurd rfl hj

/-- An orderly action keeps the invariant. -/
theorem TalkInv.act (hsetup : setup.Honest) (h : TalkInv setup s)
    (horderly : action.Orderly setup) :
    TalkInv setup (s.act setup action) := by
  cases hlink : action.linkOf with
  | none =>
      cases action with
      | hangUp => exact horderly.elim
      | request | requestArrives | serve | responseArrives | receive =>
          cases hlink
      | session action =>
          cases action with
          | respond => exact h
          | fail => exact horderly.elim
          | prefetch i keys =>
              show TalkInv setup (s.onFetcher setup (.prefetch i keys))
              refine h.onFetcher nofun ?_ nofun
              intro j keys' heq
              cases heq
              exact horderly
          | fetch | wake | close | markDirty | snapshot =>
              show TalkInv setup (s.onFetcher setup _)
              apply h.onFetcher
              all_goals nofun
  | some i =>
      have hturn := linkTurn hsetup h hlink
      generalize s.act setup action = s' at hturn
      cases hturn with
      | stays => exact h
      | moves link batch batchSize hheld hphase hwork =>
          refine ⟨h.integrity, fun j => ?_⟩
          by_cases hj : j = i
          · subst hj
            rw [Talk.links_setLink_self]
            exact { h.session j with phase := hphase }
          · rw [Talk.links_setLink_of_ne s link hj]
            exact h.session j
      | receives link batch batchSize response hheld hreply hphase =>
          exact h.receive hsetup hheld hreply hphase

/-- Before anything was asked for. -/
theorem talkInv_ofRaw (setup : TalkSetup) {c : RawChunkCache}
    (hc : c.Sized) (hintact : c.Intact setup.blake3) :
    TalkInv setup (.ofCache (.ofRaw c)) := by
  refine ⟨integrity_ofRaw hc hintact, fun i => ⟨rfl, ?_, nofun, nofun, ?_⟩⟩
  · intro key hkey
    exact hkey.elim (fun h => absurd h List.not_mem_nil)
      (fun h => absurd h List.not_mem_nil)
  · exact .quiet rfl rfl rfl rfl

end Steps

-- ============================================================== the theorem

/-- An action of the talking sessions is at most one of the sessions. -/
theorem Talk.act_fetcher (setup : TalkSetup) (s : Talk)
    (action : TalkAction) :
    (s.act setup action).fetcher = s.fetcher
    ∨ ∃ fetchAction, (s.act setup action).fetcher
        = s.fetcher.act setup.blake3 fetchAction := by
  -- a state with the sessions after an action of theirs
  have hacts : ∀ (s' : Talk) (fetchAction : FetchAction),
      s'.fetcher = s.fetcher →
      (s'.onFetcher setup fetchAction).fetcher = s.fetcher
      ∨ ∃ a, (s'.onFetcher setup fetchAction).fetcher
          = s.fetcher.act setup.blake3 a := by
    intro s' fetchAction hsame
    refine Or.inr ⟨fetchAction, ?_⟩
    show s'.fetcher.act setup.blake3 fetchAction = _
    rw [hsame]
  cases action with
  | requestArrives | responseArrives => exact Or.inl rfl
  | session action =>
      cases action with
      | respond => exact Or.inl rfl
      | _ => exact hacts s _ rfl
  | request i =>
      rw [act, actRequest]
      split
      case h_2 => exact Or.inl rfl
      case h_1 =>
        split
        case isTrue => exact Or.inl rfl
        case isFalse =>
          split
          case h_1 => exact hacts s _ rfl
          case h_2 => exact Or.inl rfl
  | serve i =>
      rw [act, actServe]
      split
      case h_1 => exact Or.inl rfl
      case h_2 => split <;> exact Or.inl rfl
  | hangUp i =>
      rw [act, actHangUp]
      split <;> exact Or.inl rfl
  | receive i =>
      rw [act, actReceive]
      split
      case h_2 => exact Or.inl rfl
      case h_1 =>
        split
        case isFalse => exact Or.inl rfl
        case isTrue =>
          split
          case h_1 => exact Or.inl rfl
          case h_2 => exact hacts s _ rfl
          case h_3 =>
            dsimp only
            split <;> exact hacts _ _ rfl

/-- The sessions of a run have run. -/
theorem Talk.run_fetcher {setup : TalkSetup} {start s : Talk}
    {schedule : List TalkAction} {out : List Empty}
    (hrun : Machine.run (Talk.step setup) start schedule = some (s, out)) :
    ∃ actions, Machine.run (FetcherState.step setup.blake3) start.fetcher
      actions = some (s.fetcher, []) := by
  have hstep : ∀ (s : Talk) (action : TalkAction) (s' : Talk)
      (out : List Empty),
      (∃ actions, Machine.run (FetcherState.step setup.blake3)
        start.fetcher actions = some (s.fetcher, [])) →
      Talk.step setup s action = some (s', out) →
      ∃ actions, Machine.run (FetcherState.step setup.blake3)
        start.fetcher actions = some (s'.fetcher, []) := by
    intro s action s' out hbefore hstep
    obtain ⟨actions, hactions⟩ := hbefore
    cases hstep
    rcases Talk.act_fetcher setup s action with hsame | ⟨a, hact⟩
    · rw [hsame]
      exact ⟨actions, hactions⟩
    · rw [hact]
      exact ⟨actions ++ [a], Machine.run_snoc hactions rfl⟩
  exact Machine.run_invariant hstep ⟨[], rfl⟩ hrun

/-- Sessions and servers over streams in pieces. Any run of them is, for
the sessions, a run in which responses come from anywhere. And with
honest servers, in an orderly run, at every moment and for every session:
it has not failed, and has not panicked but over the shared cache; its
server waits for requests and has refused none; on the two streams
together there is nothing, one request or the reply to it, byte for byte;
and both ends have counted what the other sent and nothing else. -/
theorem orderly_conversation (setup : TalkSetup) (maxSize : UInt64)
    (file : Option Bytes) (cache : CacheState)
    (hload : CacheState.loadFromFile setup.blake3 maxSize file = .ok cache)
    (schedule : List TalkAction) :
    ∃ s out, Machine.run (Talk.step setup) (.ofCache cache) schedule
        = some (s, out)
      ∧ (∃ actions, Machine.run (FetcherState.step setup.blake3)
          (.ofCache cache) actions = some (s.fetcher, []))
      ∧ (setup.Honest → (∀ action ∈ schedule, action.Orderly setup) →
        ∀ i, (s.fetcher.sessions i).failed = none
          ∧ (∀ panic, s.fetcher.cache.tasks i = .panicked panic →
              panic = .poisoned ∨ panic = .notInCache)
          ∧ LinkPhase setup i (s.links i) (s.fetcher.cache.tasks i)
          ∧ ∀ key chunk,
              (s.fetcher.sessions i).localCache.get key = some chunk →
              setup.blake3 chunk = key) := by
  obtain ⟨c, rfl, hc, hintact, -⟩ := loadFromFile_spec hload
  have hstep : ∀ (s : Talk) (past : List TalkAction) (emitted : List Empty)
      (action : TalkAction),
      (setup.Honest → (∀ a ∈ past, a.Orderly setup) → TalkInv setup s) →
      True → ∃ s' out, Talk.step setup s action = some (s', out)
        ∧ (setup.Honest → (∀ a ∈ past ++ [action], a.Orderly setup) →
          TalkInv setup s') := by
    intro s past _ action h _
    refine ⟨_, _, rfl, fun hsetup hall => ?_⟩
    rw [List.forall_mem_append, List.forall_mem_singleton] at hall
    exact (h hsetup hall.1).act hsetup hall.2
  obtain ⟨s, out, hrun, hinv⟩ := Machine.run_induction
    (fun s past _ => setup.Honest → (∀ a ∈ past, a.Orderly setup) →
      TalkInv setup s)
    hstep (Machine.stepsMeet_of (Talk.step setup) (fun _ _ _ => trivial) _)
    (fun _ _ => talkInv_ofRaw setup hc hintact)
  refine ⟨s, out, hrun, Talk.run_fetcher hrun, ?_⟩
  intro hsetup horderly i
  have hend := hinv hsetup horderly
  have hsession := hend.session i
  exact ⟨hsession.unfailed, hsession.panics, hsession.phase,
    fun key chunk hget =>
      hend.integrity.locals i key chunk (WriteMap.written_of_get hget)⟩

-- ================================================================ one setup

/-- MessagePack itself. -/
def standardMessagePack : FetchMessagePack :=
  { plainMessagePack with readSendChunks := responseCodec.decode }

/-- Every key fits. -/
theorem keyCodec_fits (key : ChunkKey) : keyCodec.Fits key := by
  show key.bytes.length < 2 ^ 32
  rw [key.len]
  decide

/-- A request is read back. -/
theorem standardMessagePack_requests (message : RequestChunksMessage)
    (hlen : message.requestedChunks.length < 2 ^ 32) :
    standardMessagePack.readRequestChunks
      (standardMessagePack.writeRequestChunks message) = some message := by
  have hwrite : standardMessagePack.writeRequestChunks message
      = requestCodec.write message := List.append_assoc ..
  rw [hwrite]
  exact requestCodec.decode_write ⟨hlen, fun key _ => keyCodec_fits key⟩

/-- And so is a reply. -/
theorem standardMessagePack_responses (message : SendChunksMessage)
    (hlen : message.chunks.length < 2 ^ 32)
    (hchunks : ∀ chunk ∈ message.chunks, chunk.length < 2 ^ 32) :
    standardMessagePack.readSendChunks
      (standardMessagePack.writeSendChunks message) = some message := by
  have hwrite : standardMessagePack.writeSendChunks message
      = responseCodec.write message := List.append_assoc ..
  rw [hwrite]
  exact responseCodec.decode_write ⟨hlen, hchunks⟩

/-- The frame is the contents behind nine bytes. -/
theorem rawZstd_lossless : rawZstd.Lossless := by
  intro level contents
  have hframe : rawZstd.encode level contents
      = [0x28, 0xb5, 0x2f, 0xfd, 0x00, 0x60]
        ++ (toLE 3 (8 * contents.length + 1) ++ contents) :=
    List.append_assoc ..
  have hdrop : (rawZstd.encode level contents).drop 9 = contents := by
    rw [rawZstd]
    exact List.drop_left' (by simp)
  have htake : (rawZstd.encode level contents).take 6
      = [0x28, 0xb5, 0x2f, 0xfd, 0x00, 0x60] := by
    rw [hframe]
    exact List.take_left' rfl
  show (if (rawZstd.encode level contents).take 6
      = [0x28, 0xb5, 0x2f, 0xfd, 0x00, 0x60] then
    some ((rawZstd.encode level contents).drop 9) else none) = _
  rw [if_pos htake, hdrop]

/-- Two sessions after one chunk, each with a server that has it. -/
def oneChunkSetup : TalkSetup where
  blake3 := blake3Sample
  zstd := rawZstd
  rmp := standardMessagePack
  clientTransport := ⟨11⟩
  serverTransport := ⟨11⟩
  chunks _ := WriteMap.empty.insert (blake3Sample [0]) [0]

theorem oneChunkSetup_written {i : Nat} {key : ChunkKey} {chunk : Bytes}
    (h : (oneChunkSetup.chunks i).Written key chunk) :
    key = blake3Sample [0] ∧ chunk = [0] := by
  rcases (WriteMap.written_insert ..).1 h with h | h
  · exact h
  · exact absurd h (WriteMap.written_empty key chunk)

theorem oneChunkSetup_honest : oneChunkSetup.Honest where
  lossless := rawZstd_lossless
  bounded := rawZstd_bounded
  adds := plainMessagePack_adds
  requests := standardMessagePack_requests
  responses := standardMessagePack_responses
  hashes i key chunk h := by
    obtain ⟨rfl, rfl⟩ := oneChunkSetup_written h
    rfl
  fits i key blob h := by
    obtain ⟨rfl, rfl⟩ := oneChunkSetup_written h
    decide

/-- The first session fetches the chunk, its request and the reply cut
where it hurts; the second waits for it. -/
def oneTalk : List TalkAction :=
  [ .session (.prefetch 0 [blake3Sample [0]]),
    .session (.fetch 0),
    .session (.prefetch 1 [blake3Sample [0]]),
    .session (.fetch 1),
    .request 0,
    .requestArrives 0 3,
    .serve 0,
    .requestArrives 0 100,
    .serve 0,
    .responseArrives 0 5,
    .receive 0,
    .responseArrives 0 100,
    .receive 0,
    .session (.close 0),
    .session (.wake 1) ]

theorem orderly_conversation_oneTalk :
    oneChunkSetup.Honest
    ∧ (∀ action ∈ oneTalk, action.Orderly oneChunkSetup)
    ∧ ∃ s out, Machine.run (Talk.step oneChunkSetup) (.ofCache (.new 10))
        oneTalk = some (s, out)
      ∧ LinkPhase oneChunkSetup 0 (s.links 0) (s.fetcher.cache.tasks 0) := by
  have horderly : ∀ action ∈ oneTalk, action.Orderly oneChunkSetup := by
    have hoffers : ∀ i, oneChunkSetup.Offers i (blake3Sample [0]) :=
      fun _ => rfl
    simp [oneTalk, TalkAction.Orderly, hoffers]
  obtain ⟨s, out, hrun, -, hall⟩ := orderly_conversation oneChunkSetup 10
    none (.new 10) rfl oneTalk
  exact ⟨oneChunkSetup_honest, horderly, s, out, hrun,
    (hall oneChunkSetup_honest horderly 0).2.2.1⟩

end FactoryCacher
