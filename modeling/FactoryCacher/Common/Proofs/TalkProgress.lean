/-
Every chunk that was prefetched arrives.

# Who waits for whom

A session with a batch waits for its own link, and a link always has
something it can do (`Link.needs`). A session that waits for others waits
for events, and behind every event there is somebody who fetches for it
or is about to close it (`Awaited`). Nobody who fetches waits for others.
So there are no circles: first the batches end, then the events are
closed, then the waiters wake.

# Stages

Each stage is a leads-to of Lib/LeadsTo.lean:

- a held batch leads to its event being closed: by the work on its link
  (`Link.work`), then by the session's own next step;
- a wait leads to its end: every event of it is closed at some time and
  stays so, so at some time all are;
- a session that is between two calls and still has chunks to ask for
  gets to its next call, which leaves it less to do
  (`FetcherState.work`), and nothing that anybody does meanwhile leaves
  it more, not even what it prefetches.

# The exception

A waiter whose chunk was evicted before it got the lock panics under the
lock, and the cache is of no use to anybody afterwards. That is the only
way out (`TalkLive.cause`): it stands beside the goal in every stage.
-/
import Mathlib.Data.Nat.Pairing
import FactoryCacher.Lib.LeadsTo
import FactoryCacher.Common.Proofs.FetchWork
import FactoryCacher.Common.Proofs.TalkSafety

namespace FactoryCacher

-- ============================================================ poison, panics

namespace FetcherState

variable {blake3 : Bytes → ChunkKey} {s : FetcherState}

/-- Poison comes from a waiter whose chunk was evicted, and stays. -/
theorem poisoned_act (hinv : CacheInv s.cache) (action : FetchAction) :
    (s.act blake3 action).cache.poisoned = s.cache.poisoned
    ∨ (s.act blake3 action).cache.poisoned = true
      ∧ ∃ i, (s.act blake3 action).cache.tasks i
        = .panicked .notInCache := by
  rw [act_cache]
  cases haction : s.cacheAction blake3 action with
  | none => exact Or.inl rfl
  | some cacheAction =>
      apply CacheState.poisoned_act hinv
      cases cacheAction with
      | call task chunksRequested batchSize =>
          -- only a fetch calls the cache, for 512 chunks
          cases action with
          | fetch i =>
              rw [FetcherState.cacheAction] at haction
              split at haction
              case h_1 =>
                cases haction
                show 1 ≤ fetchBatchSize
                decide
              case h_2 => cases haction
          | prefetch | wake | close | markDirty | snapshot => cases haction
          | respond i chunks =>
              rw [FetcherState.cacheAction] at haction
              split at haction
              case h_1 => split at haction <;> cases haction
              case h_2 => cases haction
          | fail i failure =>
              rw [FetcherState.cacheAction] at haction
              split at haction <;> cases haction
      | _ => trivial

theorem poisoned_stays (hinv : CacheInv s.cache) (action : FetchAction)
    (h : s.cache.poisoned = true) :
    (s.act blake3 action).cache.poisoned = true := by
  have hpoison : (s.act blake3 action).cache.poisoned = s.cache.poisoned
      ∨ _ := poisoned_act hinv action
  rcases hpoison with hsame | hnew
  · rw [hsame, h]
  · exact hnew.1

theorem closed_act {event : Nat} (action : FetchAction)
    (h : event ∈ s.cache.closed) :
    event ∈ (s.act blake3 action).cache.closed := by
  rw [act_cache]
  cases s.cacheAction blake3 action with
  | none => exact h
  | some cacheAction => exact CacheState.closed_act h

theorem panicked_act {i : Nat} {panic : CachePanic} (action : FetchAction)
    (h : s.cache.tasks i = .panicked panic) :
    (s.act blake3 action).cache.tasks i = .panicked panic := by
  rw [act_cache]
  cases s.cacheAction blake3 action with
  | none => exact h
  | some cacheAction => exact CacheState.panicked_act h

/-- The next step of a session that closes its event. -/
theorem act_close_ends {i event : Nat}
    (h : s.cache.tasks i = .closing event) :
    (s.act blake3 (.close i)).cache.tasks i = .idle := by
  show (s.cache.act (.close i)).1.tasks i = .idle
  rw [CacheState.act, h]
  exact CacheState.setTask_self ..

/-- The next step of a waiter whose events are all closed. -/
theorem act_wake_ends {i : Nat} {requests : List (ChunkKey × Nat)}
    (h : s.cache.tasks i = .waiting requests)
    (hclosed : ∀ request ∈ requests, request.2 ∈ s.cache.closed) :
    (s.act blake3 (.wake i)).cache.tasks i = .idle
    ∨ ∃ panic, (s.act blake3 (.wake i)).cache.tasks i
      = .panicked panic := by
  show (s.cache.act (.wake i)).1.tasks i = .idle
    ∨ ∃ panic, (s.cache.act (.wake i)).1.tasks i = .panicked panic
  simp only [CacheState.act, h, if_pos hclosed, CacheState.actWake]
  split
  · exact Or.inr ⟨_, CacheState.setTask_self ..⟩
  · dsimp only
    rw [CacheState.afterWait]
    split
    · exact Or.inl (CacheState.setTask_self ..)
    · exact Or.inr ⟨_, CacheState.setTask_self ..⟩

/-- The response a session waits for. -/
theorem act_respond_ends (hinv : CacheInv s.cache) {i : Nat}
    {batch : BatchChunkRequest} {batchSize : Nat} {chunks : List Bytes}
    (h : s.cache.tasks i = .holding batch batchSize)
    (hcount : batch.batchKeys.length = chunks.length)
    (hright : ∀ e ∈ batch.batchKeys.zip chunks, blake3 e.2 = e.1)
    (hpoisoned : s.cache.poisoned = false) :
    (s.act blake3 (.respond i chunks)).cache.tasks i
      = .closing batch.event := by
  have hcheck : (checkResponse blake3 (batch.batchKeys.zip chunks)
      (s.sessions i).localCache).2 = none :=
    checkResponse_eq_none_iff.2 hright
  have haction : s.cacheAction blake3 (.respond i chunks)
      = some (.fulfill i chunks) := by
    simp only [cacheAction, h, hcheck]
  obtain ⟨inner, hact⟩ := CacheState.act_fulfill_of_held hinv h hcount
    hpoisoned
  rw [act_cache, haction]
  show (s.cache.act (.fulfill i chunks)).1.tasks i = _
  rw [hact]
  exact CacheState.setTask_self ..

end FetcherState

/-- Who waits now and did not before waits for keys that are pending. -/
theorem CacheMove.waiting {s s' : CacheState} {action : CacheAction}
    (hmove : CacheMove s action s') {task : Nat}
    {requests : List (ChunkKey × Nat)}
    (h : s'.tasks task = .waiting requests) :
    s.tasks task = .waiting requests
    ∨ ∀ request ∈ requests,
      s'.inner.pendingChunks request.1 = some request.2 := by
  cases hmove with
  | quiet => exact Or.inl h
  | claim | fulfill | close =>
      rcases CacheState.setTask_cases h with ⟨-, hnew⟩ | ⟨-, hold⟩
      · cases hnew
      · exact Or.inl hold
  | wait t requests' inner hidle hrequests hre hpending =>
      rcases CacheState.setTask_cases h with ⟨-, hnew⟩ | ⟨-, hold⟩
      · cases hnew
        right
        intro request hr
        show inner.pendingChunks request.1 = some request.2
        rw [hpending]
        exact hrequests request hr
      · exact Or.inl hold
  | leave t state inner poisoned hleaves hre hpending =>
      rcases CacheState.setTask_cases h with ⟨-, hnew⟩ | ⟨-, hold⟩
      · exact absurd hnew (hleaves.free.2.2 requests)
      · exact Or.inl hold

-- ========================================================= what an action is

/-- What an orderly action is to session `j` and its link. -/
inductive TalkMove (setup : TalkSetup) (s : Talk) (j : Nat)
    (action : TalkAction) (s' : Talk) : Prop
  /-- nothing, and the link does not wait for it -/
  | rest (hlink : s'.links j = s.links j)
      (htask : s'.fetcher.cache.tasks j = s.fetcher.cache.tasks j)
      (hsession : s'.fetcher.sessions j = s.fetcher.sessions j)
      (hneeds : ∀ batch batchSize,
        s.fetcher.cache.tasks j = .holding batch batchSize →
        ¬ ((s.links j).needs).MetBy j action)
      (haction : ∀ a, action = .session a →
        ∃ i chunks, a = .respond i chunks)
  /-- an action of a session -/
  | own (a : FetchAction) (haction : action = .session a)
      (hlink : s'.links j = s.links j)
      (hfail : ∀ failure, a ≠ .fail j failure)
      (hrespond : ∀ chunks, a ≠ .respond j chunks)
      (hfetcher : s'.fetcher = s.fetcher.act setup.blake3 a)
      (hmove : SessionMove setup.blake3 s.fetcher j a s'.fetcher)
  /-- less to do on the link -/
  | works (haction : ∀ a, action ≠ .session a)
      (hfetcher : s'.fetcher = s.fetcher)
      (hwork : (s'.links j).work < (s.links j).work)
  /-- its response -/
  | receives (batch : BatchChunkRequest) (batchSize : Nat)
      (chunks : List Bytes)
      (hheld : s.fetcher.cache.tasks j = .holding batch batchSize)
      (hcount : batch.batchKeys.length = chunks.length)
      (hright : ∀ e ∈ batch.batchKeys.zip chunks,
        setup.blake3 e.2 = e.1)
      (hfetcher : s'.fetcher
        = s.fetcher.act setup.blake3 (.respond j chunks))

section Moves

variable {setup : TalkSetup} {s : Talk} {action : TalkAction}

/-- A need of one link is not met on another, nor by a session. -/
theorem LinkNeed.metBy_linkOf {need : LinkNeed} {j : Nat}
    (h : need.MetBy j action) : action.linkOf = some j := by
  cases need with
  | request | serve | receive => rw [show action = _ from h]; rfl
  | requestArrives | responseArrives =>
      obtain ⟨n, rfl⟩ := h
      rfl

/-- Every orderly action, to every session. -/
theorem talkMove (hsetup : setup.Honest) (h : TalkInv setup s)
    (horderly : action.Orderly setup) (j : Nat) :
    TalkMove setup s j action (s.act setup action) := by
  -- an action that is not on the link of `j`
  have hunmet : action.linkOf ≠ some j → ∀ batch batchSize,
      s.fetcher.cache.tasks j = .holding batch batchSize →
      ¬ ((s.links j).needs).MetBy j action :=
    fun hne _ _ _ hmet => hne (LinkNeed.metBy_linkOf hmet)
  cases hlink : action.linkOf with
  | none =>
      rw [hlink] at hunmet
      cases action with
      | hangUp => exact horderly.elim
      | request | requestArrives | serve | responseArrives | receive =>
          cases hlink
      | session a =>
          have hmove : SessionMove setup.blake3 s.fetcher j a _ :=
            FetcherState.act_sessionMove h.integrity.inv j a
          cases a with
          | fail => exact horderly.elim
          | respond i chunks =>
              apply TalkMove.rest rfl rfl rfl (hunmet nofun)
              intro a ha
              cases ha
              exact ⟨i, chunks, rfl⟩
          | prefetch | fetch | wake | close | markDirty | snapshot =>
              exact .own _ rfl rfl nofun nofun rfl hmove
  | some i =>
      have hsession : ∀ a, action = .session a →
          ∃ i chunks, a = .respond i chunks := by
        intro a ha
        rw [ha] at hlink
        cases hlink
      have hturn := linkTurn hsetup h hlink
      rw [hlink] at hunmet
      generalize s.act setup action = s' at hturn
      by_cases hj : j = i
      · subst hj
        cases hturn with
        | stays hneeds => exact .rest rfl rfl rfl hneeds hsession
        | moves link batch batchSize hheld hphase hwork =>
            apply TalkMove.works
            · intro a ha
              rw [ha] at hlink
              cases hlink
            · rfl
            · rw [Talk.links_setLink_self]
              exact hwork
        | receives link batch batchSize response hheld hreply hphase =>
            obtain ⟨hcount, hright, -⟩ := reply_right hsetup hreply
            exact .receives batch batchSize response.chunks hheld hcount
              hright rfl
      · -- the link of another session
        have hneeds := hunmet fun heq => hj (Option.some.inj heq).symm
        cases hturn with
        | stays => exact .rest rfl rfl rfl hneeds hsession
        | moves link =>
            exact .rest (s.links_setLink_of_ne link hj) rfl rfl hneeds
              hsession
        | receives link batch batchSize response hheld hreply hphase =>
            have hother : FetcherState.sessionOf
                (.respond i response.chunks) ≠ some j :=
              fun heq => hj (Option.some.inj heq).symm
            have hsame := @FetcherState.act_other setup.blake3 s.fetcher j _
              hother
            exact .rest (s.links_setLink_of_ne link hj) hsame.2 hsame.1
              hneeds hsession

end Moves

-- ============================================================ the invariant

/-- Somebody fetches for an event, or is about to close it, or did. -/
def Awaited (s : CacheState) (event : Nat) : Prop :=
  event ∈ s.closed
  ∨ (∃ i, s.tasks i = .closing event)
  ∨ ∃ i batch batchSize, s.tasks i = .holding batch batchSize
    ∧ batch.event = event

/-- Nobody waits in vain, until the cache is poisoned; and it is poisoned
by a waiter whose chunk was evicted. -/
structure TalkLive (setup : TalkSetup) (s : Talk) : Prop where
  inv : TalkInv setup s
  held : s.fetcher.cache.poisoned = false → AllHeld s.fetcher.cache
  awaited : s.fetcher.cache.poisoned = false → ∀ i requests,
    s.fetcher.cache.tasks i = .waiting requests →
    ∀ request ∈ requests, Awaited s.fetcher.cache request.2
  panicked : ∀ i panic, s.fetcher.cache.tasks i = .panicked panic →
    s.fetcher.cache.poisoned = true
  cause : s.fetcher.cache.poisoned = true →
    ∃ i, s.fetcher.cache.tasks i = .panicked .notInCache

section Live

variable {setup : TalkSetup} {s : Talk} {action : TalkAction} {j : Nat}

/-- A pending key is awaited where every pending key is held. -/
theorem awaited_of_pending {s : CacheState} (hinv : CacheInv s)
    (hall : AllHeld s) {key : ChunkKey} {event : Nat}
    (h : s.inner.pendingChunks key = some event) : Awaited s event := by
  obtain ⟨i, batch, batchSize, hheld, hkey⟩ := hall key event h
  have hevent := ((hinv.held i batch batchSize hheld).pending key).2 hkey
  rw [h] at hevent
  exact Or.inr (Or.inr ⟨i, batch, batchSize, hheld,
    (Option.some.inj hevent).symm⟩)

/-- A session that closes its event. -/
theorem TalkMove.closing {s' : Talk} {event : Nat}
    (hmove : TalkMove setup s j action s')
    (h : s.fetcher.cache.tasks j = .closing event) :
    s'.fetcher.cache.tasks j = .closing event
    ∨ s'.fetcher.cache.tasks j = .idle
      ∧ event ∈ s'.fetcher.cache.closed := by
  cases hmove with
  | rest hlink htask => exact Or.inl (htask.trans h)
  | works haction hfetcher =>
      rw [hfetcher]
      exact Or.inl h
  | receives batch batchSize chunks hheld =>
      rw [h] at hheld
      cases hheld
  | own a haction hlink hfail hrespond hfetcher hmove =>
      cases hmove with
      | rest htask => exact Or.inl (htask.trans h)
      | prefetch keys haction hready | fetch haction hready =>
          rw [hready.2] at h
          cases h
      | wake requests haction hwaiting =>
          rw [hwaiting] at h
          cases h
      | fulfill chunks batch batchSize haction =>
          exact absurd haction (hrespond chunks)
      | close e haction hclosing htask hclosed =>
          rw [hclosing] at h
          cases h
          exact Or.inr ⟨htask, hclosed⟩
      | panic p hcause =>
          cases hcause with
          | fetch hready =>
              rw [hready.2] at h
              cases h
          | wake hwaiting | evicted hwaiting =>
              rw [hwaiting] at h
              cases h
          | fulfill hheld | count hheld =>
              rw [hheld] at h
              cases h
      | fail hfailed hwhy =>
          rcases hwhy with ⟨failure, haction⟩ | ⟨chunks, _, _, haction, -⟩
          · exact absurd haction (hfail failure)
          · exact absurd haction (hrespond chunks)

/-- A session with a batch keeps it until it has the response; then the
lock is poisoned or the event about to be closed. -/
theorem TalkMove.holding {s' : Talk} {batch : BatchChunkRequest}
    {batchSize : Nat} (hinv : CacheInv s.fetcher.cache)
    (hmove : TalkMove setup s j action s')
    (h : s.fetcher.cache.tasks j = .holding batch batchSize) :
    (s'.fetcher.cache.tasks j = .holding batch batchSize
      ∧ ((s'.links j).work < (s.links j).work
        ∨ s'.links j = s.links j
          ∧ ¬ ((s.links j).needs).MetBy j action))
    ∨ s'.fetcher.cache.tasks j = .closing batch.event
    ∨ s.fetcher.cache.poisoned = true := by
  cases hmove with
  | rest hlink htask hsession hneeds =>
      exact Or.inl ⟨htask.trans h, Or.inr ⟨hlink, hneeds _ _ h⟩⟩
  | works haction hfetcher hwork =>
      rw [hfetcher]
      exact Or.inl ⟨h, Or.inl hwork⟩
  | receives batch' batchSize' chunks hheld hcount hright hfetcher =>
      rw [h] at hheld
      cases hheld
      right
      cases hpoisoned : s.fetcher.cache.poisoned with
      | true => exact Or.inr rfl
      | false =>
          rw [hfetcher]
          exact Or.inl (FetcherState.act_respond_ends hinv h hcount hright
            hpoisoned)
  | own a haction hlink hfail hrespond hfetcher hmove =>
      have hunmet : ¬ ((s.links j).needs).MetBy j action := by
        intro hmet
        rw [haction] at hmet
        cases LinkNeed.metBy_linkOf hmet
      cases hmove with
      | rest htask =>
          exact Or.inl ⟨htask.trans h, Or.inr ⟨hlink, hunmet⟩⟩
      | prefetch keys haction hready | fetch haction hready =>
          rw [hready.2] at h
          cases h
      | wake requests haction hwaiting =>
          rw [hwaiting] at h
          cases h
      | fulfill chunks b n haction => exact absurd haction (hrespond chunks)
      | close e haction hclosing =>
          rw [hclosing] at h
          cases h
      | panic p hcause =>
          cases hcause with
          | fetch hready =>
              rw [hready.2] at h
              cases h
          | wake hwaiting | evicted hwaiting =>
              rw [hwaiting] at h
              cases h
          | fulfill | count => exact absurd rfl (hrespond _)
      | fail hfailed hwhy =>
          rcases hwhy with ⟨failure, haction⟩ | ⟨chunks, _, _, haction, -⟩
          · exact absurd haction (hfail failure)
          · exact absurd haction (hrespond chunks)

/-- The sessions after an action: as before, or after one of theirs that
completes the fetch it ends. -/
theorem fetcher_act (hsetup : setup.Honest) (h : TalkInv setup s)
    (horderly : action.Orderly setup) :
    (s.act setup action).fetcher = s.fetcher
    ∨ ∃ a, (s.act setup action).fetcher = s.fetcher.act setup.blake3 a
      ∧ (s.fetcher.cache.poisoned = false →
        Completes setup.blake3 s.fetcher a) := by
  cases hlink : action.linkOf with
  | none =>
      cases action with
      | hangUp => exact horderly.elim
      | request | requestArrives | serve | responseArrives | receive =>
          cases hlink
      | session a =>
          have hacts : ∀ a, Completes setup.blake3 s.fetcher a →
              (s.onFetcher setup a).fetcher = s.fetcher
              ∨ ∃ a', (s.onFetcher setup a).fetcher
                  = s.fetcher.act setup.blake3 a'
                ∧ (s.fetcher.cache.poisoned = false →
                  Completes setup.blake3 s.fetcher a') :=
            fun a ha => Or.inr ⟨a, rfl, fun _ => ha⟩
          cases a with
          | fail => exact horderly.elim
          | respond => exact Or.inl rfl
          | prefetch | fetch | wake | close | markDirty | snapshot =>
              exact hacts _ trivial
  | some i =>
      have hturn := linkTurn hsetup h hlink
      generalize s.act setup action = s' at hturn
      cases hturn with
      | stays | moves => exact Or.inl rfl
      | receives link batch batchSize response hheld hreply hphase =>
          obtain ⟨hcount, hright, -⟩ := reply_right hsetup hreply
          refine Or.inr ⟨.respond i response.chunks, rfl, ?_⟩
          intro hpoisoned b n hb
          rw [hheld] at hb
          cases hb
          exact ⟨hright, hcount, hpoisoned⟩

/-- Poison stays. -/
theorem Talk.poisoned_stays (hinv : CacheInv s.fetcher.cache)
    (h : s.fetcher.cache.poisoned = true) :
    (s.act setup action).fetcher.cache.poisoned = true := by
  rcases Talk.act_fetcher setup s action with hsame | ⟨a, hact⟩
  · rw [hsame, h]
  · rw [hact]
    exact FetcherState.poisoned_stays hinv a h

theorem Talk.closed_stays {event : Nat} (h : event ∈ s.fetcher.cache.closed) :
    event ∈ (s.act setup action).fetcher.cache.closed := by
  rcases Talk.act_fetcher setup s action with hsame | ⟨a, hact⟩
  · rw [hsame]
    exact h
  · rw [hact]
    exact FetcherState.closed_act a h

/-- What a session tracks, while it goes on. -/
theorem Talk.tracks_act {i : Nat} {key : ChunkKey}
    (hinv : CacheInv s.fetcher.cache) (h : s.fetcher.Tracks i key)
    (hgoes : ¬ (s.act setup action).fetcher.Stopped i) :
    (s.act setup action).fetcher.Tracks i key := by
  rcases Talk.act_fetcher setup s action with hsame | ⟨a, hact⟩
  · rw [hsame]
    exact h
  · rw [hact] at hgoes ⊢
    exact FetcherState.tracks_act hinv h hgoes

/-- An event that is awaited stays so. -/
theorem Awaited.act (hsetup : setup.Honest) (h : TalkInv setup s)
    (horderly : action.Orderly setup)
    (hpoisoned : s.fetcher.cache.poisoned = false) {event : Nat}
    (hawaited : Awaited s.fetcher.cache event) :
    Awaited (s.act setup action).fetcher.cache event := by
  rcases hawaited with hclosed | ⟨i, hclosing⟩ | ⟨i, batch, n, hheld, rfl⟩
  · exact Or.inl (Talk.closed_stays hclosed)
  · rcases (talkMove hsetup h horderly i).closing hclosing with hstill | hdone
    · exact Or.inr (Or.inl ⟨i, hstill⟩)
    · exact Or.inl hdone.2
  · rcases (talkMove hsetup h horderly i).holding h.integrity.inv hheld with
      ⟨hstill, -⟩ | hclosing | hpoison
    · exact Or.inr (Or.inr ⟨i, batch, n, hstill, rfl⟩)
    · exact Or.inr (Or.inl ⟨i, hclosing⟩)
    · rw [hpoisoned] at hpoison
      cases hpoison

/-- Who panicked did so over a poisoned lock, or has poisoned it. -/
theorem TalkMove.panicked {s' : Talk}
    (hstays : s.fetcher.cache.poisoned = true →
      s'.fetcher.cache.poisoned = true)
    (hmove : TalkMove setup s j action s') (hinv : CacheInv s.fetcher.cache)
    {panic : CachePanic} (h : s'.fetcher.cache.tasks j = .panicked panic) :
    s.fetcher.cache.tasks j = .panicked panic
    ∨ s'.fetcher.cache.poisoned = true := by
  cases hmove with
  | rest hlink htask => exact Or.inl (htask.symm.trans h)
  | works haction hfetcher =>
      rw [hfetcher] at h
      exact Or.inl h
  | receives batch batchSize chunks hheld hcount hright hfetcher =>
      right
      cases hpoisoned : s.fetcher.cache.poisoned with
      | true => exact hstays hpoisoned
      | false =>
          rw [hfetcher, FetcherState.act_respond_ends hinv hheld hcount
            hright hpoisoned] at h
          cases h
  | own a haction hlink hfail hrespond hfetcher hmove =>
      cases hmove with
      | rest htask => exact Or.inl (htask.symm.trans h)
      | prefetch keys haction hready htask
      | wake keys haction hready htask
      | close keys haction hready htask =>
          rw [htask] at h
          cases h
      | fetch haction hready htask =>
          rcases htask with ht | ⟨_, ht⟩ | ⟨_, ht⟩
          all_goals
            rw [ht] at h
            cases h
      | fulfill chunks b n haction => exact absurd haction (hrespond chunks)
      | panic p hcause =>
          right
          cases hcause with
          | fetch hready hpoisoned => exact hstays hpoisoned
          | wake hwaiting hpoisoned => exact hstays hpoisoned
          | evicted hwaiting hpoisoned => exact hpoisoned
          | fulfill | count => exact absurd rfl (hrespond _)
      | fail hfailed hwhy =>
          rcases hwhy with ⟨failure, haction⟩ | ⟨chunks, _, _, haction, -⟩
          · exact absurd haction (hfail failure)
          · exact absurd haction (hrespond chunks)

/-- An orderly action keeps all of it. -/
theorem TalkLive.act (hsetup : setup.Honest) (h : TalkLive setup s)
    (horderly : action.Orderly setup) :
    TalkLive setup (s.act setup action) := by
  have hcache := h.inv.integrity.inv
  have hstays : s.fetcher.cache.poisoned = true →
      (s.act setup action).fetcher.cache.poisoned = true :=
    Talk.poisoned_stays hcache
  -- a lock that is not poisoned now was not before
  have hbefore : (s.act setup action).fetcher.cache.poisoned = false →
      s.fetcher.cache.poisoned = false := by
    intro hnow
    cases hpoisoned : s.fetcher.cache.poisoned with
    | false => rfl
    | true =>
        rw [hstays hpoisoned] at hnow
        cases hnow
  have hinv := h.inv.act hsetup horderly
  have hheld : (s.act setup action).fetcher.cache.poisoned = false →
      AllHeld (s.act setup action).fetcher.cache := by
    intro hnow
    have hall := h.held (hbefore hnow)
    rcases fetcher_act hsetup h.inv horderly with hsame | ⟨a, hact, hends⟩
    · rw [hsame]
      exact hall
    · have hstep : s.fetcher.step setup.blake3 a
          = some (s.fetcher.act setup.blake3 a, []) := rfl
      rw [hact]
      exact ((allHeld_step hcache hstep).2.1 hall).1 (hends (hbefore hnow))
  refine ⟨hinv, hheld, ?_, ?_, ?_⟩
  · intro hnow i requests hwaiting request hr
    -- waiting already, or for something that is pending now
    have hwas : s.fetcher.cache.tasks i = .waiting requests
        ∨ (s.act setup action).fetcher.cache.inner.pendingChunks request.1
          = some request.2 := by
      rcases Talk.act_fetcher setup s action with hsame | ⟨a, hact⟩
      · rw [hsame] at hwaiting
        exact Or.inl hwaiting
      · rw [hact, FetcherState.act_cache] at hwaiting ⊢
        cases ha : s.fetcher.cacheAction setup.blake3 a with
        | none =>
            rw [ha] at hwaiting
            exact Or.inl hwaiting
        | some cacheAction =>
            rw [ha] at hwaiting
            rcases (act_move hcache cacheAction).1.waiting hwaiting with
              hold | hnew
            · exact Or.inl hold
            · exact Or.inr (hnew request hr)
    rcases hwas with hold | hpending
    · have hbefore' := hbefore hnow
      exact (h.awaited hbefore' i requests hold request hr).act hsetup h.inv
        horderly hbefore'
    · exact awaited_of_pending hinv.integrity.inv (hheld hnow) hpending
  · intro i panic hpanic
    rcases (talkMove hsetup h.inv horderly i).panicked hstays hcache hpanic
      with hold | hnow
    · exact hstays (h.panicked i panic hold)
    · exact hnow
  · intro hnow
    have hkept : s.fetcher.cache.poisoned = true →
        ∃ i, (s.act setup action).fetcher.cache.tasks i
          = .panicked .notInCache := by
      intro hwas
      obtain ⟨i, hi⟩ := h.cause hwas
      rcases Talk.act_fetcher setup s action with hsame | ⟨a, hact⟩
      · rw [hsame]
        exact ⟨i, hi⟩
      · rw [hact]
        exact ⟨i, FetcherState.panicked_act a hi⟩
    rcases Talk.act_fetcher setup s action with hsame | ⟨a, hact⟩
    · rw [hsame] at hnow
      exact hkept hnow
    · have hpoison : (s.fetcher.act setup.blake3 a).cache.poisoned
          = s.fetcher.cache.poisoned ∨ _ :=
        FetcherState.poisoned_act hcache a
      rcases hpoison with hsame | hnew
      · rw [hact, hsame] at hnow
        exact hkept hnow
      · rw [hact]
        exact hnew.2

theorem talkLive_ofRaw (setup : TalkSetup) {c : RawChunkCache}
    (hc : c.Sized) (hintact : c.Intact setup.blake3) :
    TalkLive setup (.ofCache (.ofRaw c)) where
  inv := talkInv_ofRaw setup hc hintact
  held _ := nofun
  awaited _ := nofun
  panicked := nofun
  cause := nofun

/-- What orderly actions keep, an orderly run keeps. -/
theorem orderly_run {K : Talk → Prop}
    (hact : ∀ s action, K s → action.Orderly setup → K (s.act setup action))
    {start s : Talk} (hstart : K start) {past : List TalkAction}
    (hpast : ∀ a ∈ past, a.Orderly setup) {out : List Empty}
    (hrun : Machine.run (Talk.step setup) start past = some (s, out)) :
    K s := by
  obtain ⟨s', out', hrun', h⟩ := Machine.run_induction
    (fun s _ _ => K s)
    (fun s _ _ action h ha => ⟨s.act setup action, [], rfl,
      hact s action h ha⟩)
    (Machine.stepsMeet_of (Talk.step setup) (fun a ha _ => hpast a ha) start)
    hstart
  have hsame : Machine.run (Talk.step setup) start past = _ := hrun'
  rw [hrun] at hsame
  cases hsame
  exact h

/-- After an orderly run with a cache that was loaded. -/
theorem talkLive_run (hsetup : setup.Honest) {maxSize : UInt64}
    {file : Option Bytes} {cache : CacheState}
    (hload : CacheState.loadFromFile setup.blake3 maxSize file = .ok cache)
    {past : List TalkAction} (hpast : ∀ a ∈ past, a.Orderly setup)
    {out : List Empty}
    (hrun : Machine.run (Talk.step setup) (.ofCache cache) past
      = some (s, out)) : TalkLive setup s := by
  obtain ⟨c, rfl, hc, hintact, -⟩ := loadFromFile_spec hload
  exact orderly_run (fun _ _ h ha => h.act hsetup ha)
    (talkLive_ofRaw setup hc hintact) hpast hrun

/-- A session that waits for others. -/
theorem TalkMove.waiting {s' : Talk} {requests : List (ChunkKey × Nat)}
    (hlive : TalkLive setup s') (hmove : TalkMove setup s j action s')
    (h : s.fetcher.cache.tasks j = .waiting requests) :
    s'.fetcher.cache.tasks j = .waiting requests
    ∨ s'.fetcher.cache.tasks j = .idle
    ∨ s'.fetcher.cache.poisoned = true := by
  cases hmove with
  | rest hlink htask => exact Or.inl (htask.trans h)
  | works haction hfetcher =>
      rw [hfetcher]
      exact Or.inl h
  | receives batch batchSize chunks hheld =>
      rw [h] at hheld
      cases hheld
  | own a haction hlink hfail hrespond hfetcher hmove =>
      cases hmove with
      | rest htask => exact Or.inl (htask.trans h)
      | prefetch keys haction hready htask
      | wake requests' haction hwaiting htask
      | close event haction hclosing htask => exact Or.inr (Or.inl htask)
      | fetch haction hready =>
          rw [hready.2] at h
          cases h
      | fulfill chunks b n haction => exact absurd haction (hrespond chunks)
      | panic p hcause htask =>
          exact Or.inr (Or.inr (hlive.panicked j p htask))
      | fail hfailed hwhy =>
          exact absurd (hlive.inv.session j).unfailed hfailed

/-- A session between two calls stays there until the next. -/
theorem TalkMove.idle {s' : Talk} (hmove : TalkMove setup s j action s')
    (hlive : TalkLive setup s') (h : s.fetcher.cache.tasks j = .idle)
    (hfetch : action ≠ .session (.fetch j)) :
    s'.fetcher.cache.tasks j = .idle
    ∨ s'.fetcher.cache.poisoned = true := by
  cases hmove with
  | rest hlink htask => exact Or.inl (htask.trans h)
  | works haction hfetcher =>
      rw [hfetcher]
      exact Or.inl h
  | receives batch batchSize chunks hheld =>
      rw [h] at hheld
      cases hheld
  | own a haction hlink hfail hrespond hfetcher hmove =>
      cases hmove with
      | rest htask => exact Or.inl (htask.trans h)
      | prefetch keys haction hready htask
      | wake requests' haction hwaiting htask
      | close event haction hclosing htask => exact Or.inl htask
      | fetch ha =>
          rw [ha] at haction
          exact absurd haction hfetch
      | fulfill chunks b n haction => exact absurd haction (hrespond chunks)
      | panic p hcause htask => exact Or.inr (hlive.panicked j p htask)
      | fail hfailed hwhy =>
          exact absurd (hlive.inv.session j).unfailed hfailed

end Live

-- ============================================================== endless runs

/-- Everybody gets a turn, again and again, and every stream moves. -/
structure FairSchedule (schedule : Nat → TalkAction) : Prop where
  fetches : ∀ i, Recurs schedule (· = .session (.fetch i))
  wakes : ∀ i, Recurs schedule (· = .session (.wake i))
  closes : ∀ i, Recurs schedule (· = .session (.close i))
  links : ∀ i need, Recurs schedule (LinkNeed.MetBy i need)

/-- The keys of the chunks the far end has. -/
def TalkSetup.offered (setup : TalkSetup) (i : Nat) : List ChunkKey :=
  (setup.chunks i).writes.map Prod.fst

/-- A session is between two calls. -/
def Talk.Rests (i : Nat) (s : Talk) : Prop :=
  s.fetcher.cache.tasks i = .idle

/-- The lock is poisoned. -/
def Talk.Poisoned (s : Talk) : Prop := s.fetcher.cache.poisoned = true

section Endless

variable {setup : TalkSetup} {start : Talk} {schedule : Nat → TalkAction}

/-- The states of a run of the sessions and servers. -/
def talkStates (setup : TalkSetup) (start : Talk)
    (schedule : Nat → TalkAction) : Nat → Talk :=
  statesFrom (Talk.act setup) start schedule

theorem live_states (hsetup : setup.Honest) (hstart : TalkLive setup start)
    (horderly : ∀ n, (schedule n).Orderly setup) (n : Nat) :
    TalkLive setup (talkStates setup start schedule n) := by
  induction n with
  | zero => exact hstart
  | succ n ih => exact ih.act hsetup (horderly n)

/-- A session's own step. -/
theorem fetcher_states {n : Nat} {a : FetchAction}
    (h : schedule n = .session a)
    (hrespond : ∀ i chunks, a ≠ .respond i chunks) :
    (talkStates setup start schedule (n + 1)).fetcher
      = (talkStates setup start schedule n).fetcher.act setup.blake3 a := by
  show (Talk.act setup _ (schedule n)).fetcher = _
  rw [h]
  cases a with
  | respond i chunks => exact absurd rfl (hrespond i chunks)
  | _ => rfl

variable (hsetup : setup.Honest) (hstart : TalkLive setup start)
  (horderly : ∀ n, (schedule n).Orderly setup)
  (hfair : FairSchedule schedule)

include hsetup hstart horderly

theorem move_states (n j : Nat) :
    TalkMove setup (talkStates setup start schedule n) j (schedule n)
      (talkStates setup start schedule (n + 1)) :=
  talkMove hsetup (live_states hsetup hstart horderly n).inv (horderly n) j

theorem poisoned_states (n : Nat)
    (h : (talkStates setup start schedule n).Poisoned) :
    (talkStates setup start schedule (n + 1)).Poisoned :=
  Talk.poisoned_stays
    (live_states hsetup hstart horderly n).inv.integrity.inv h

/-- A session goes on, unless the lock is poisoned. -/
theorem stopped_states {i n : Nat}
    (h : (talkStates setup start schedule n).fetcher.Stopped i) :
    (talkStates setup start schedule n).Poisoned := by
  have hlive := live_states hsetup hstart horderly n
  rcases h with hfailed | ⟨panic, hpanic⟩
  · exact absurd (hlive.inv.session i).unfailed hfailed
  · exact hlive.panicked i panic hpanic

/-- What a session tracks. -/
theorem tracks_states {i : Nat} {key : ChunkKey} (n : Nat)
    (h : (talkStates setup start schedule n).fetcher.Tracks i key) :
    (talkStates setup start schedule (n + 1)).fetcher.Tracks i key
    ∨ (talkStates setup start schedule (n + 1)).Poisoned := by
  by_cases hstopped :
      (talkStates setup start schedule (n + 1)).fetcher.Stopped i
  · exact Or.inr (stopped_states hsetup hstart horderly hstopped)
  · have hinv := (live_states hsetup hstart horderly n).inv.integrity.inv
    exact Or.inl (Talk.tracks_act hinv h hstopped)

/-- What a session has it keeps. -/
theorem contains_states {i : Nat} {key : ChunkKey} (n : Nat)
    (h : ((talkStates setup start schedule n).fetcher.sessions
      i).localCache.containsKey key = true) :
    ((talkStates setup start schedule (n + 1)).fetcher.sessions
      i).localCache.containsKey key = true := by
  have hinv := (live_states hsetup hstart horderly n).inv.integrity.inv
  have hact := Talk.act_fetcher setup
    (talkStates setup start schedule n) (schedule n)
  rcases hact with hsame | ⟨a, hact⟩
  · have hsame : (talkStates setup start schedule (n + 1)).fetcher
        = _ := hsame
    rw [hsame]
    exact h
  · have hact : (talkStates setup start schedule (n + 1)).fetcher
        = _ := hact
    obtain ⟨chunk, hwritten⟩ := WriteMap.containsKey_iff.1 h
    rw [hact]
    exact WriteMap.containsKey_iff.2 ⟨chunk,
      (act_grow hinv a).kept i key chunk hwritten⟩

/-- What a session asks for is offered. -/
theorem offered_states (i n : Nat) :
    ∀ key ∈ ((talkStates setup start schedule n).fetcher.sessions
      i).pendingChunks, key ∈ setup.offered i := by
  intro key hkey
  have hlive := live_states hsetup hstart horderly n
  obtain ⟨chunk, hwritten⟩ := WriteMap.containsKey_iff.1
    ((hlive.inv.session i).offered key (Or.inl hkey))
  exact List.mem_map.2 ⟨(key, chunk), hwritten, rfl⟩

/-- What a session has to do does not get more. -/
theorem work_states (i n : Nat) :
    (talkStates setup start schedule (n + 1)).fetcher.work
        (setup.offered i) i
      ≤ (talkStates setup start schedule n).fetcher.work (setup.offered i) i
    ∨ (talkStates setup start schedule (n + 1)).Poisoned := by
  by_cases hstopped :
      (talkStates setup start schedule (n + 1)).fetcher.Stopped i
  · exact Or.inr (stopped_states hsetup hstart horderly hstopped)
  · left
    have hinv := (live_states hsetup hstart horderly n).inv.integrity.inv
    have hoffered := offered_states hsetup hstart horderly i (n + 1)
    rcases Talk.act_fetcher setup (talkStates setup start schedule n)
      (schedule n) with hsame | ⟨a, hact⟩
    · exact le_of_eq (congrArg (FetcherState.work _ · i) hsame)
    · have hact : (talkStates setup start schedule (n + 1)).fetcher
          = _ := hact
      rw [hact] at hstopped hoffered ⊢
      exact FetcherState.work_act_le hinv hstopped hoffered

/-- So a tracked chunk stays tracked, with no more work in front of it. -/
theorem tracked_states {i : Nat} {key : ChunkKey} {bound : Nat ×ₗ Nat}
    (n : Nat)
    (h : (talkStates setup start schedule n).fetcher.Tracks i key
      ∧ (talkStates setup start schedule n).fetcher.work
        (setup.offered i) i ≤ bound) :
    ((talkStates setup start schedule (n + 1)).fetcher.Tracks i key
      ∧ (talkStates setup start schedule (n + 1)).fetcher.work
        (setup.offered i) i ≤ bound)
    ∨ (talkStates setup start schedule (n + 1)).Poisoned := by
  rcases work_states hsetup hstart horderly i n with hle | hpoisoned
  · rcases tracks_states hsetup hstart horderly n h.1 with
      htracks | hpoisoned
    · exact Or.inl ⟨htracks, le_trans hle h.2⟩
    · exact Or.inr hpoisoned
  · exact Or.inr hpoisoned

include hfair

/-- A batch is fetched. -/
theorem batch_ends (j : Nat) (batch : BatchChunkRequest) (batchSize : Nat) :
    LeadsTo (talkStates setup start schedule)
      (fun s => s.fetcher.cache.tasks j = .holding batch batchSize)
      (fun s => s.fetcher.cache.tasks j = .closing batch.event
        ∨ s.Poisoned) := by
  apply leadsTo_of_work (hfair.links j) (fun s => s.links j) Link.work
    Link.needs
  intro n hheld
  have hinv := (live_states hsetup hstart horderly n).inv.integrity.inv
  rcases (move_states hsetup hstart horderly n j).holding hinv hheld with
    hstill | hclosing | hpoisoned
  · exact Or.inr hstill
  · exact Or.inl (Or.inl hclosing)
  · exact Or.inl (Or.inr
      (poisoned_states hsetup hstart horderly n hpoisoned))

/-- Its event is closed, and the session rests. -/
theorem closing_ends (j event : Nat) :
    LeadsTo (talkStates setup start schedule)
      (fun s => s.fetcher.cache.tasks j = .closing event)
      (fun s => s.Rests j ∧ event ∈ s.fetcher.cache.closed) := by
  apply leadsTo_of_fair (hfair.closes j)
  intro n hclosing
  rcases (move_states hsetup hstart horderly n j).closing hclosing with
    hstill | hdone
  · refine Or.inr ⟨hstill, fun hclose => ?_⟩
    -- the session's own step would have closed it
    rw [fetcher_states hclose nofun,
      FetcherState.act_close_ends hclosing] at hstill
    cases hstill
  · exact Or.inl hdone

/-- An event somebody is behind is closed. -/
theorem awaited_closes (event : Nat) :
    LeadsTo (talkStates setup start schedule)
      (fun s => Awaited s.fetcher.cache event)
      (fun s => event ∈ s.fetcher.cache.closed ∨ s.Poisoned) := by
  have hclosing : ∀ j, LeadsTo (talkStates setup start schedule)
      (fun s => s.fetcher.cache.tasks j = .closing event)
      (fun s => event ∈ s.fetcher.cache.closed ∨ s.Poisoned) := by
    intro j
    apply (closing_ends hsetup hstart horderly hfair j event).mono
    exact fun n h => Or.inl h.2
  intro n hawaited
  rcases hawaited with hclosed | ⟨j, hj⟩ | ⟨j, batch, size, hheld, rfl⟩
  · exact ⟨n, le_refl n, Or.inl hclosed⟩
  · exact hclosing j n hj
  · obtain ⟨m, hm, hnext | hpoisoned⟩ := batch_ends hsetup hstart horderly
      hfair j batch size n hheld
    · obtain ⟨k, hk, hdone⟩ := hclosing j m hnext
      exact ⟨k, le_trans hm hk, hdone⟩
    · exact ⟨m, hm, Or.inr hpoisoned⟩

/-- A wait ends. -/
theorem wait_ends (i : Nat) (requests : List (ChunkKey × Nat)) :
    LeadsTo (talkStates setup start schedule)
      (fun s => s.fetcher.cache.tasks i = .waiting requests)
      (fun s => s.Rests i ∨ s.Poisoned) := by
  have hlive := live_states hsetup hstart horderly
  have hkeep : ∀ n, (talkStates setup start schedule n).fetcher.cache.tasks i
        = .waiting requests →
      (talkStates setup start schedule (n + 1)).fetcher.cache.tasks i
        = .waiting requests
      ∨ ((talkStates setup start schedule (n + 1)).Rests i
        ∨ (talkStates setup start schedule (n + 1)).Poisoned) :=
    fun n h => (move_states hsetup hstart horderly n i).waiting
      (hlive (n + 1)) h
  -- at some time every event is closed
  have hall : LeadsTo (talkStates setup start schedule)
      (fun s => s.fetcher.cache.tasks i = .waiting requests)
      (fun s => (s.fetcher.cache.tasks i = .waiting requests
          ∧ ∀ request ∈ requests, request.2 ∈ s.fetcher.cache.closed)
        ∨ (s.Rests i ∨ s.Poisoned)) := by
    apply leadsTo_forall requests hkeep
    · exact fun request n h => Talk.closed_stays h
    · intro request hr n hwaiting
      cases hpoisoned : (talkStates setup start schedule
          n).fetcher.cache.poisoned with
      | true => exact ⟨n, le_refl n, Or.inr (Or.inr hpoisoned)⟩
      | false =>
          have hawaited := (hlive n).awaited hpoisoned i requests hwaiting
            request hr
          obtain ⟨m, hm, hclosed | hpoison⟩ := awaited_closes hsetup hstart
            horderly hfair request.2 n hawaited
          · exact ⟨m, hm, Or.inl hclosed⟩
          · exact ⟨m, hm, Or.inr (Or.inr hpoison)⟩
  -- and then the session's own step ends the wait
  have hwake : LeadsTo (talkStates setup start schedule)
      (fun s => s.fetcher.cache.tasks i = .waiting requests
        ∧ ∀ request ∈ requests, request.2 ∈ s.fetcher.cache.closed)
      (fun s => s.Rests i ∨ s.Poisoned) := by
    apply leadsTo_of_fair (hfair.wakes i)
    intro n h
    obtain ⟨hwaiting, hclosed⟩ := h
    rcases hkeep n hwaiting with hstill | hdone
    · refine Or.inr ⟨⟨hstill, fun request hr =>
        Talk.closed_stays (hclosed request hr)⟩, fun hwakes => ?_⟩
      rw [fetcher_states hwakes nofun] at hstill
      rcases FetcherState.act_wake_ends hwaiting hclosed with
        hidle | ⟨panic, hpanic⟩
      · rw [hidle] at hstill
        cases hstill
      · rw [hpanic] at hstill
        cases hstill
    · exact Or.inl hdone
  exact hall.trans (hwake.or (leadsTo_of_imp fun n h => h))

/-- Every session rests again and again. -/
theorem session_rests (i : Nat) :
    LeadsTo (talkStates setup start schedule) (fun _ => True)
      (fun s => s.Rests i ∨ s.Poisoned) := by
  have hclosing : ∀ event, LeadsTo (talkStates setup start schedule)
      (fun s => s.fetcher.cache.tasks i = .closing event)
      (fun s => s.Rests i ∨ s.Poisoned) := by
    intro event
    apply (closing_ends hsetup hstart horderly hfair i event).mono
    exact fun n h => Or.inl h.1
  intro n _
  cases htask : (talkStates setup start schedule n).fetcher.cache.tasks i with
  | idle => exact ⟨n, le_refl n, Or.inl htask⟩
  | waiting requests =>
      exact wait_ends hsetup hstart horderly hfair i requests n htask
  | closing event => exact hclosing event n htask
  | panicked panic =>
      exact ⟨n, le_refl n, Or.inr
        ((live_states hsetup hstart horderly n).panicked i panic htask)⟩
  | holding batch batchSize =>
      obtain ⟨m, hm, hnext | hpoisoned⟩ := batch_ends hsetup hstart horderly
        hfair i batch batchSize n htask
      · obtain ⟨k, hk, hdone⟩ := hclosing batch.event m hnext
        exact ⟨k, le_trans hm hk, hdone⟩
      · exact ⟨m, hm, Or.inr hpoisoned⟩

/-- A session that rests has less to do at some time, or the one chunk
that is looked at. -/
theorem less_work {i : Nat} {key : ChunkKey} (bound : Nat ×ₗ Nat) :
    LeadsTo (talkStates setup start schedule)
      (fun s => s.Rests i ∧ s.fetcher.Tracks i key
        ∧ s.fetcher.work (setup.offered i) i ≤ bound)
      (fun s => ((s.fetcher.sessions i).localCache.containsKey key = true
          ∨ s.Poisoned)
        ∨ s.fetcher.Tracks i key
          ∧ s.fetcher.work (setup.offered i) i < bound) := by
  apply leadsTo_of_fair (hfair.fetches i)
  intro n h
  obtain ⟨hrests, htracks, hbound⟩ := h
  have hlive := live_states hsetup hstart horderly n
  have hnext := live_states hsetup hstart horderly (n + 1)
  have hready : (talkStates setup start schedule n).fetcher.Ready i :=
    ⟨(hlive.inv.session i).unfailed, hrests⟩
  by_cases hpoisoned : (talkStates setup start schedule (n + 1)).Poisoned
  · exact Or.inl (Or.inl (Or.inr hpoisoned))
  have htracks' := (tracks_states hsetup hstart horderly n
    htracks).resolve_right hpoisoned
  by_cases hfetch : schedule n = .session (.fetch i)
  · left
    rcases htracks.has hready with hlocal | hpending
    · exact Or.inl (Or.inl (contains_states hsetup hstart horderly n hlocal))
    · refine Or.inr ⟨htracks', lt_of_lt_of_le ?_ hbound⟩
      have hgoes : ¬ (talkStates setup start schedule
          (n + 1)).fetcher.Stopped i :=
        mt (stopped_states hsetup hstart horderly) hpoisoned
      rw [fetcher_states hfetch nofun] at hgoes ⊢
      exact FetcherState.work_act_fetch hlive.inv.integrity.inv hready
        (List.ne_nil_of_mem hpending) hgoes
        (offered_states hsetup hstart horderly i n)
  · have hle := (work_states hsetup hstart horderly i n).resolve_right
      hpoisoned
    have hmove := move_states hsetup hstart horderly n i
    have hidle := (hmove.idle hnext hrests hfetch).resolve_right hpoisoned
    exact Or.inr ⟨⟨hidle, htracks', le_trans hle hbound⟩, hfetch⟩

/-- A chunk that is tracked arrives. -/
theorem tracked_arrives {i : Nat} {key : ChunkKey} :
    LeadsTo (talkStates setup start schedule)
      (fun s => s.fetcher.Tracks i key)
      (fun s => (s.fetcher.sessions i).localCache.containsKey key = true
        ∨ s.Poisoned) := by
  -- by what the session has still to do
  suffices hall : ∀ bound, LeadsTo (talkStates setup start schedule)
      (fun s => s.fetcher.Tracks i key
        ∧ s.fetcher.work (setup.offered i) i ≤ bound)
      (fun s => (s.fetcher.sessions i).localCache.containsKey key = true
        ∨ s.Poisoned) from
    fun n h => hall _ n ⟨h, le_refl _⟩
  intro bound
  induction bound using WellFoundedLT.induction with
  | _ bound ih =>
      intro n h
      obtain ⟨m, hm, hrests | hpoisoned⟩ := session_rests hsetup hstart
        horderly hfair i n trivial
      · -- it is tracked until the session rests
        have hwalk := walk (P := fun s : Talk => s.fetcher.Tracks i key
            ∧ s.fetcher.work (setup.offered i) i ≤ bound)
          (fun n => tracked_states hsetup hstart horderly n) hm h
        rcases hwalk with hthere | ⟨k, hk, -, hpoisoned⟩
        · obtain ⟨k, hk, hdone | ⟨htracks, hless⟩⟩ := less_work hsetup
            hstart horderly hfair bound m ⟨hrests, hthere.1, hthere.2⟩
          · exact ⟨k, le_trans hm hk, hdone⟩
          · obtain ⟨l, hl, hdone⟩ := ih _ hless k ⟨htracks, le_refl _⟩
            exact ⟨l, le_trans hm (le_trans hk hl), hdone⟩
        · exact ⟨k, hk, Or.inr hpoisoned⟩
      · exact ⟨m, hm, Or.inr hpoisoned⟩

end Endless

-- =============================================================== the theorem

/-- With honest servers, in every orderly run in which everybody gets
turns and every stream moves: each session is done with its fetch or its
wait again and again, and a chunk that a session prefetched is in its
local cache at some time, with the right bytes, whatever else it
prefetches meanwhile. The one exception is that some waiter found its
chunk evicted. -/
theorem prefetched_chunk_arrives (setup : TalkSetup)
    (hsetup : setup.Honest) (maxSize : UInt64) (file : Option Bytes)
    (cache : CacheState)
    (hload : CacheState.loadFromFile setup.blake3 maxSize file = .ok cache)
    (past : List TalkAction) (hpast : ∀ a ∈ past, a.Orderly setup)
    (s : Talk) (out : List Empty)
    (hrun : Machine.run (Talk.step setup) (.ofCache cache) past
      = some (s, out))
    (schedule : Nat → TalkAction)
    (horderly : ∀ n, (schedule n).Orderly setup)
    (hfair : FairSchedule schedule) :
    (∀ i n, ∃ m, n ≤ m
      ∧ ((talkStates setup s schedule m).fetcher.cache.tasks i = .idle
        ∨ ∃ j, (talkStates setup s schedule m).fetcher.cache.tasks j
          = .panicked .notInCache))
    ∧ ∀ i key, s.fetcher.Tracks i key →
      ∃ n, (∃ chunk, ((talkStates setup s schedule n).fetcher.sessions
            i).localCache.get key = some chunk
          ∧ setup.blake3 chunk = key)
        ∨ ∃ j, (talkStates setup s schedule n).fetcher.cache.tasks j
          = .panicked .notInCache := by
  have hlive := talkLive_run hsetup hload hpast hrun
  have hstates := live_states hsetup hlive horderly
  constructor
  · intro i n
    obtain ⟨m, hm, hrests | hpoisoned⟩ := session_rests hsetup hlive
      horderly hfair i n trivial
    · exact ⟨m, hm, Or.inl hrests⟩
    · exact ⟨m, hm, Or.inr ((hstates m).cause hpoisoned)⟩
  · intro i key htracks
    obtain ⟨m, -, hcontains | hpoisoned⟩ := tracked_arrives hsetup hlive
      horderly hfair 0 htracks
    · obtain ⟨chunk, hchunk⟩ := Option.isSome_iff_exists.1 hcontains
      exact ⟨m, Or.inl ⟨chunk, hchunk, (hstates m).inv.integrity.locals i
        key chunk (WriteMap.written_of_get hchunk)⟩⟩
    · exact ⟨m, Or.inr ((hstates m).cause hpoisoned)⟩

/-- The turns of one session, by number. -/
def turnOf (i : Nat) : Nat → TalkAction
  | 0 => .session (.fetch i)
  | 1 => .session (.wake i)
  | 2 => .session (.close i)
  | 3 => .request i
  | 4 => .requestArrives i 1
  | 5 => .serve i
  | 6 => .responseArrives i 1
  | _ => .receive i

/-- Every session has every turn again and again, and bytes arrive one by
one. -/
def roundRobin (n : Nat) : TalkAction :=
  turnOf n.unpair.1 (n.unpair.2 % 8)

theorem roundRobin_recurs (i k : Nat) (hk : k < 8) :
    Recurs roundRobin (· = turnOf i k) := by
  intro n
  refine ⟨Nat.pair i (8 * n + k), ?_, ?_⟩
  · have hright := Nat.right_le_pair i (8 * n + k)
    omega
  · have hturn : (8 * n + k) % 8 = k := by omega
    rw [roundRobin, Nat.unpair_pair, hturn]

theorem roundRobin_fair : FairSchedule roundRobin where
  fetches i := roundRobin_recurs i 0 (by decide)
  wakes i := roundRobin_recurs i 1 (by decide)
  closes i := roundRobin_recurs i 2 (by decide)
  links i need := by
    cases need with
    | request => exact roundRobin_recurs i 3 (by decide)
    | serve => exact roundRobin_recurs i 5 (by decide)
    | receive => exact roundRobin_recurs i 7 (by decide)
    | requestArrives =>
        intro n
        obtain ⟨m, hm, hturn⟩ := roundRobin_recurs i 4 (by decide) n
        exact ⟨m, hm, 0, hturn⟩
    | responseArrives =>
        intro n
        obtain ⟨m, hm, hturn⟩ := roundRobin_recurs i 6 (by decide) n
        exact ⟨m, hm, 0, hturn⟩

theorem turnOf_orderly (setup : TalkSetup) (i k : Nat) :
    (turnOf i k).Orderly setup := by
  unfold turnOf
  split <;> trivial

/-- Two sessions after one chunk, which one of them fetches and the other
waits for: both get it. -/
theorem prefetched_chunk_arrives_roundRobin :
    ∃ s out, Machine.run (Talk.step oneChunkSetup) (.ofCache (.new 10))
        [ .session (.prefetch 0 [blake3Sample [0]]),
          .session (.prefetch 1 [blake3Sample [0]]) ] = some (s, out)
      ∧ FairSchedule roundRobin
      ∧ ∀ i, i = 0 ∨ i = 1 →
        ∃ n, (∃ chunk,
            ((talkStates oneChunkSetup s roundRobin n).fetcher.sessions
              i).localCache.get (blake3Sample [0]) = some chunk
            ∧ blake3Sample chunk = blake3Sample [0])
          ∨ ∃ j, (talkStates oneChunkSetup s roundRobin n).fetcher.cache.tasks
            j = .panicked .notInCache := by
  refine ⟨_, _, rfl, roundRobin_fair, fun i hi => ?_⟩
  have hoffers : ∀ i, oneChunkSetup.Offers i (blake3Sample [0]) :=
    fun _ => rfl
  refine (prefetched_chunk_arrives oneChunkSetup oneChunkSetup_honest 10 none
    (.new 10) rfl
    [ .session (.prefetch 0 [blake3Sample [0]]),
      .session (.prefetch 1 [blake3Sample [0]]) ]
    (by simp [TalkAction.Orderly, hoffers]) _ _ rfl roundRobin
    (fun n => turnOf_orderly oneChunkSetup _ _) roundRobin_fair).2 i
    (blake3Sample [0]) ?_
  rcases hi with rfl | rfl
  · exact Or.inl (Or.inr (List.mem_singleton.2 rfl))
  · exact Or.inl (Or.inr (List.mem_singleton.2 rfl))

end FactoryCacher
