/-
Chunk integrity: whatever a server or a cache file holds, no wrong chunk
gets into a cache.

# The invariant

There are four ways into the two kinds of cache: a cache file, the check
of a response, `fulfill`, and the copy from the shared into a local
cache. `Integrity` says that everything in them hashes to its key. The
shared cache's entries change by `fulfill` alone (`CacheMove.entries`),
and a session gets to `fulfill` only with a response that passed its
check (`fulfill_checked`); what a local cache gains was in the shared
cache or passed the check (`act_grow`).

# Two runs

A run of `reconstruct_data` that succeeds has read a tree out of the
session's local cache: every chunk it was given is, at the end, among
what the local cache was written (`Recording`), so the data stands for
the list over that cache in the sense of `Denotes`. Two such runs have
two caches, which agree on every key they share, because both are intact
and blake3 has no collision among them. Then the meanings agree too
(`Denotes.unique`).

Injectivity is asked of the chunks in the two local caches only. A hash
of 32 bytes is not injective on all byte strings.
-/
import FactoryCacher.Lib.Faults
import FactoryCacher.Common.Proofs.ReadLog
import FactoryCacher.Common.Proofs.Sessions

namespace FactoryCacher

open RawChunkCache

variable {blake3 : Bytes → ChunkKey} {s : FetcherState}

-- ========================================================== the shared cache

/-- New entries come from a batch that is fulfilled. -/
theorem CacheMove.entries {s s' : CacheState} {action : CacheAction}
    (hmove : CacheMove s action s') {e : ChunkKey × Bytes}
    (he : e ∈ s'.inner.rawCache.chunks.entries) :
    e ∈ s.inner.rawCache.chunks.entries
    ∨ ∃ task batch batchSize chunks, action = .fulfill task chunks
      ∧ s.tasks task = .holding batch batchSize
      ∧ e ∈ batch.batchKeys.zip chunks := by
  cases hmove with
  | quiet inner hre hpending => exact Or.inl (hre.mem_entries.1 he)
  | claim task batch batchSize inner hidle hbatch hre hpending =>
      exact Or.inl (hre.mem_entries.1 he)
  | wait task requests inner hidle hrequests hre hpending =>
      exact Or.inl (hre.mem_entries.1 he)
  | fulfill task batch batchSize chunks inner haction hheld hlen hinner =>
      rcases List.mem_append.1 (hinner.subset.mem he) with he | he
      · exact Or.inl he
      · exact Or.inr ⟨task, batch, batchSize, chunks, haction, hheld, he⟩
  | close => exact Or.inl he
  | leave task state inner poisoned hleaves hre hpending =>
      exact Or.inl (hre.mem_entries.1 he)

/-- A session fulfils its batch with checked chunks. -/
theorem fulfill_checked {action : FetchAction} {i : Nat}
    {chunks : List Bytes}
    (haction : s.cacheAction blake3 action = some (.fulfill i chunks))
    {batch : BatchChunkRequest} {batchSize : Nat}
    (hheld : s.cache.tasks i = .holding batch batchSize) :
    ∀ e ∈ batch.batchKeys.zip chunks, blake3 e.2 = e.1 := by
  cases action with
  | prefetch | wake | close | markDirty | snapshot => cases haction
  | fetch j =>
      rw [FetcherState.cacheAction] at haction
      split at haction <;> cases haction
  | fail j failure =>
      rw [FetcherState.cacheAction] at haction
      split at haction <;> cases haction
  | respond j response =>
      rw [FetcherState.cacheAction] at haction
      cases htask : s.cache.tasks j with
      | holding held size =>
          rw [htask] at haction
          dsimp only at haction
          cases hcheck : (checkResponse blake3 (held.batchKeys.zip response)
              (s.sessions j).localCache).2 with
          | some key =>
              rw [hcheck] at haction
              cases haction
          | none =>
              rw [hcheck] at haction
              cases haction
              rw [hheld] at htask
              cases htask
              exact checkResponse_eq_none_iff.1 hcheck
      | _ =>
          rw [htask] at haction
          cases haction

/-- The shared cache stays intact. -/
theorem intact_act (hinv : CacheInv s.cache)
    (h : s.cache.inner.rawCache.Intact blake3) (action : FetchAction) :
    (s.act blake3 action).cache.inner.rawCache.Intact blake3 := by
  rw [FetcherState.act_cache]
  cases haction : s.cacheAction blake3 action with
  | none => exact h
  | some cacheAction =>
      intro e he
      rcases (act_move hinv cacheAction).1.entries he with
        he | ⟨task, batch, batchSize, chunks, rfl, hheld, he⟩
      · exact h e he
      · exact fulfill_checked haction hheld e he

-- ========================================================== the local caches

/-- What happened to the local caches: nothing was lost, and what is new
was in the shared cache or hashes to its key. -/
structure LocalsGrow (blake3 : Bytes → ChunkKey) (s s' : FetcherState) :
    Prop where
  kept : ∀ i key chunk, (s.sessions i).localCache.Written key chunk →
    (s'.sessions i).localCache.Written key chunk
  gained : ∀ i key chunk, (s'.sessions i).localCache.Written key chunk →
    (s.sessions i).localCache.Written key chunk
    ∨ (key, chunk) ∈ s.cache.inner.rawCache.chunks.entries
    ∨ blake3 chunk = key

theorem LocalsGrow.refl (blake3 : Bytes → ChunkKey) (s : FetcherState) :
    LocalsGrow blake3 s s :=
  ⟨fun _ _ _ => id, fun _ _ _ => Or.inl⟩

/-- One session's local cache grows. -/
theorem LocalsGrow.of_session {s' : FetcherState} {i : Nat}
    {session : Session}
    (hsessions : s'.sessions = Function.update s.sessions i session)
    (hkept : ∀ key chunk, (s.sessions i).localCache.Written key chunk →
      session.localCache.Written key chunk)
    (hgained : ∀ key chunk, session.localCache.Written key chunk →
      (s.sessions i).localCache.Written key chunk
      ∨ (key, chunk) ∈ s.cache.inner.rawCache.chunks.entries
      ∨ blake3 chunk = key) :
    LocalsGrow blake3 s s' := by
  constructor
  · intro j key chunk h
    rw [hsessions]
    by_cases hj : j = i
    · subst hj
      rw [Function.update_self]
      exact hkept key chunk h
    · rw [Function.update_of_ne hj]
      exact h
  · intro j key chunk h
    rw [hsessions] at h
    by_cases hj : j = i
    · subst hj
      rw [Function.update_self] at h
      exact hgained key chunk h
    · rw [Function.update_of_ne hj] at h
      exact Or.inl h

/-- A session whose local cache is as it was. -/
theorem LocalsGrow.of_same {s' : FetcherState} {i : Nat} {session : Session}
    (hsessions : s'.sessions = Function.update s.sessions i session)
    (hlocal : session.localCache = (s.sessions i).localCache) :
    LocalsGrow blake3 s s' := by
  refine LocalsGrow.of_session hsessions ?_ ?_
  · intro key chunk h
    rwa [hlocal]
  · intro key chunk h
    exact Or.inl (hlocal ▸ h)

/-- A session that is given the chunks the shared cache found. -/
theorem LocalsGrow.of_deliver {s' : FetcherState} {i : Nat}
    {session : Session} {action : CacheAction} (hinv : CacheInv s.cache)
    (hsessions : s'.sessions = Function.update s.sessions i session)
    (hlocal : session.localCache
      = deliver (s.cache.act action).2 (s.sessions i).localCache) :
    LocalsGrow blake3 s s' := by
  refine LocalsGrow.of_session hsessions ?_ ?_
  · intro key chunk h
    rw [hlocal, written_deliver]
    exact Or.inl h
  · intro key chunk h
    rw [hlocal, written_deliver] at h
    rcases h with h | ⟨task, h⟩
    · exact Or.inl h
    · exact Or.inr (Or.inl ((act_move hinv action).2 _ h))

theorem act_grow (hinv : CacheInv s.cache) (action : FetchAction) :
    LocalsGrow blake3 s (s.act blake3 action) := by
  have hrefl := LocalsGrow.refl blake3 s
  cases action with
  | prefetch i chunks =>
      rw [FetcherState.act, FetcherState.actPrefetch]
      split
      · exact LocalsGrow.of_same rfl rfl
      · exact hrefl
  | fetch i =>
      rw [FetcherState.act, FetcherState.actFetch]
      split
      · exact LocalsGrow.of_deliver hinv rfl rfl
      · exact hrefl
  | wake i => exact LocalsGrow.of_deliver hinv rfl rfl
  | close i => exact LocalsGrow.of_same rfl rfl
  | markDirty | snapshot => exact ⟨hrefl.kept, hrefl.gained⟩
  | fail i failure =>
      rw [FetcherState.act, FetcherState.actFail]
      split
      · exact hrefl
      · exact hrefl
      all_goals exact LocalsGrow.of_same rfl rfl
  | respond i chunks =>
      rw [FetcherState.act, FetcherState.actRespond]
      split
      · next batch batchSize htask =>
        have hkept : ∀ key chunk,
            (s.sessions i).localCache.Written key chunk →
            (checkResponse blake3 (batch.batchKeys.zip chunks)
              (s.sessions i).localCache).1.Written key chunk :=
          fun _ _ => written_checkResponse_of_written
        have hgained : ∀ key chunk,
            (checkResponse blake3 (batch.batchKeys.zip chunks)
              (s.sessions i).localCache).1.Written key chunk →
            (s.sessions i).localCache.Written key chunk
            ∨ (key, chunk) ∈ s.cache.inner.rawCache.chunks.entries
            ∨ blake3 chunk = key := by
          intro key chunk h
          exact (written_checkResponse h).imp_right Or.inr
        generalize checkResponse blake3 (batch.batchKeys.zip chunks)
          (s.sessions i).localCache = checked at hkept hgained
        obtain ⟨localCache, _ | key⟩ := checked
        · exact LocalsGrow.of_session rfl hkept hgained
        · exact LocalsGrow.of_session rfl hkept hgained
      · exact hrefl

-- ============================================================= the invariant

/-- Everything in the caches hashes to its key. -/
structure Integrity (blake3 : Bytes → ChunkKey) (s : FetcherState) : Prop
    where
  inv : CacheInv s.cache
  intact : s.cache.inner.rawCache.Intact blake3
  locals : ∀ i key chunk, (s.sessions i).localCache.Written key chunk →
    blake3 chunk = key

theorem Integrity.act (h : Integrity blake3 s) (action : FetchAction) :
    Integrity blake3 (s.act blake3 action) := by
  refine ⟨FetcherState.inv_act h.inv action,
    intact_act h.inv h.intact action, ?_⟩
  intro i key chunk hw
  rcases (act_grow h.inv action).gained i key chunk hw with hw | he | hkey
  · exact h.locals i key chunk hw
  · exact h.intact _ he
  · exact hkey

theorem integrity_ofRaw {c : RawChunkCache} (hc : c.Sized)
    (hintact : c.Intact blake3) :
    Integrity blake3 (.ofCache (.ofRaw c)) :=
  ⟨cacheInv_ofRaw hc, hintact, fun _ key chunk h =>
    absurd h (WriteMap.written_empty key chunk)⟩

/-- The sessions a cache file and any actions lead to. -/
def Reachable (blake3 : Bytes → ChunkKey) (s : FetcherState) : Prop :=
  ∃ maxSize file cache actions out,
    CacheState.loadFromFile blake3 maxSize file = .ok cache
    ∧ Machine.run (FetcherState.step blake3) (.ofCache cache) actions
      = some (s, out)

/-- Every state that is reached has it. -/
theorem Reachable.integrity (h : Reachable blake3 s) :
    Integrity blake3 s := by
  obtain ⟨maxSize, file, cache, actions, out, hload, hrun⟩ := h
  obtain ⟨c, rfl, hc, hintact, -⟩ := loadFromFile_spec hload
  refine Machine.run_invariant ?_ (integrity_ofRaw hc hintact) hrun
  intro s action s' out h hstep
  cases hstep
  exact h.act action

-- ================================================================= reading

section Reading

variable {σ : Type}

/-- Reading into a buffer, in a run with state `σ`. -/
abbrev ReadM (σ : Type) := StateT Bytes (ExceptT Fault (StateM σ))

/-- A provider whose state records what it gave: while `Inv` holds, what
the state has it keeps, and a chunk that was given it has. -/
structure Recording (Inv : σ → Prop) (Has : σ → ChunkKey → Bytes → Prop)
    (provider : ChunkProvider (ExceptT Fault (StateM σ))) : Prop where
  prefetch : ∀ keys s r s', Inv s →
    (provider.prefetch keys).run s = (r, s') →
    Inv s' ∧ ∀ key chunk, Has s key chunk → Has s' key chunk
  getChunk : ∀ key s chunk s', Inv s →
    (provider.getChunk key).run s = (.ok chunk, s') →
    Inv s' ∧ (∀ key chunk, Has s key chunk → Has s' key chunk)
      ∧ Has s' key chunk

/-- The buffer grew by what the keys stand for over what the state now
has. -/
structure HasRead (Inv : σ → Prop) (Has : σ → ChunkKey → Bytes → Prop)
    (isLeaf : Bool) (keys : List ChunkKey) (buf : Bytes) (s : σ)
    (buf' : Bytes) (s' : σ) : Prop where
  inv : Inv s'
  kept : ∀ key chunk, Has s key chunk → Has s' key chunk
  means : ∃ data, Denotes (Has s') parseList isLeaf keys data
    ∧ buf' = buf ++ data.flatten

variable {Inv : σ → Prop} {Has : σ → ChunkKey → Bytes → Prop}
  {provider : ChunkProvider (ExceptT Fault (StateM σ))}

/-- The consumer of `collectData`. -/
def keepBytes (chunk : Bytes) : ReadM σ Unit :=
  modify fun buf => buf ++ chunk

/-- The log of a reader that started with `buf` in the state `s`. -/
def Recorded (Inv : σ → Prop) (Has : σ → ChunkKey → Bytes → Prop)
    (buf : Bytes) (s : σ) (log : ReadLog) (t : Bytes × σ) : Prop :=
  Inv t.2 ∧ (∀ key chunk, Has s key chunk → Has t.2 key chunk)
  ∧ (∀ key chunk, log.given key chunk → Has t.2 key chunk)
  ∧ t.1 = buf ++ log.consumed.flatten

/-- What the calls of such a provider do to the log. -/
theorem Recording.reads (hrec : Recording Inv Has provider) (buf : Bytes)
    (s : σ) : Reads ((Faults.logic Fault σ).buffered Bytes)
      (provider.liftState Bytes) (Recorded Inv Has buf s) (fun _ => True) where
  prefetch log keys := by
    apply Logic.buffered_lift
    intro buf₁
    apply Faults.meets_of_ok (fun _ => trivial)
    rintro s₁ _ s₂ ⟨hinv, hkept, hgiven, hbuf⟩ hrun
    obtain ⟨hinv₂, hmore⟩ := hrec.prefetch _ _ _ _ hinv hrun
    exact ⟨hinv₂, fun k c hk => hmore k c (hkept k c hk),
      fun k c hk => hmore k c (hgiven k c hk), hbuf⟩
  getChunk log key _ := by
    apply Logic.buffered_lift
    intro buf₁
    apply Faults.meets_of_ok (fun _ => trivial)
    rintro s₁ chunk s₂ ⟨hinv, hkept, hgiven, hbuf⟩ hrun
    obtain ⟨hinv₂, hmore, hhas⟩ := hrec.getChunk _ _ _ _ hinv hrun
    refine ⟨hinv₂, fun k c hk => hmore k c (hkept k c hk), ?_, hbuf⟩
    rintro k c (hk | ⟨rfl, rfl⟩)
    · exact hmore k c (hgiven k c hk)
    · exact hhas
  tryGet _ := trivial
  outOfFuel := trivial

theorem consumes_keepBytes (buf : Bytes) (s : σ) :
    Consumes ((Faults.logic Fault σ).buffered Bytes) keepBytes
      (Recorded Inv Has buf s) (fun _ => True) := by
  rintro log chunk buf₁ s₁ ⟨hinv, hkept, hgiven, hbuf⟩
  refine ⟨hinv, hkept, hgiven, ?_⟩
  show buf₁ ++ chunk = buf ++ (log.consumed ++ [chunk]).flatten
  rw [show buf₁ = _ from hbuf, List.flatten_append, List.flatten_singleton,
    List.append_assoc]

/-- `reconstruct_data`. -/
theorem Recording.data (hrec : Recording Inv Has provider) (fuel : Nat)
    (list : ChunkList) (buf : Bytes) (s : σ) (buf' : Bytes) (s' : σ)
    (hinv : Inv s)
    (h : (reconstructData (provider.liftState Bytes) keepBytes fuel list
      buf).run s = (.ok ((), buf'), s')) :
    HasRead Inv Has list.isLeaf list.chunks buf s buf' s' := by
  have hlog := (hrec.reads buf s).data (consumes_keepBytes buf s) fuel list
    .start
  have hstart : Recorded Inv Has buf s .start (buf, s) :=
    ⟨hinv, fun _ _ => id, fun _ _ => False.elim, (List.append_nil _).symm⟩
  obtain ⟨log', data, hext, hmeans, hinv', hkept, hgiven, hbuf⟩ :=
    Faults.ok_of_meets (hlog buf) hstart h
  refine ⟨hinv', hkept, data, hmeans.mono hgiven, ?_⟩
  rw [hext.consumed] at hbuf
  exact hbuf

/-- What a run of `reconstruct_data` that succeeds has collected. -/
theorem Recording.collect (hrec : Recording Inv Has provider) {fuel : Nat}
    {list : ChunkList} {data : Bytes} {s s' : σ} (hinv : Inv s)
    (h : (collectData provider fuel list).run s = (.ok data, s')) :
    Inv s' ∧ ∃ blobs,
      Denotes (Has s') parseList list.isLeaf list.chunks blobs
      ∧ data = blobs.flatten := by
  obtain ⟨⟨_, buf⟩, s₁, hread, hreturn⟩ := Faults.run_bind_eq_ok h
  cases hreturn
  have hdone := hrec.data fuel list [] s data s' hinv hread
  exact ⟨hdone.inv, hdone.means⟩

end Reading

-- ================================================================ two runs

/-- What `get_chunk` returns is in the local cache. -/
theorem poll_ok {i : Nat} {key : ChunkKey} {chunk : Bytes}
    (h : s.poll i key = some (.ok chunk)) :
    (s.sessions i).localCache.get key = some chunk := by
  unfold FetcherState.poll at h
  split at h
  · cases h
  · cases h
  · cases hget : (s.sessions i).localCache.get key with
    | some found =>
        rw [hget] at h
        cases h
        rfl
    | none =>
        rw [hget] at h
        dsimp only at h
        split at h <;> cases h
  · cases h

/-- Waiting for a chunk keeps everything intact and loses nothing, and
the chunk is in the local cache at the end. -/
theorem getChunkLoop_ok {i : Nat} {key : ChunkKey}
    {schedule : List FetchAction} {chunk : Bytes} {run : FetchRun}
    (hinv : Integrity blake3 s)
    (h : getChunkLoop blake3 i key schedule s = (.ok chunk, run)) :
    Integrity blake3 run.state
    ∧ (∀ k c, (s.sessions i).localCache.Written k c →
        (run.state.sessions i).localCache.Written k c)
    ∧ (run.state.sessions i).localCache.Written key chunk := by
  induction schedule generalizing s with
  | nil =>
      rw [getChunkLoop, waitFor] at h
      cases hpoll : s.poll i key with
      | none =>
          rw [hpoll] at h
          cases h
      | some result =>
          rw [hpoll] at h
          cases h
          exact ⟨hinv, fun _ _ => id, WriteMap.written_of_get (poll_ok hpoll)⟩
  | cons action schedule ih =>
      rw [getChunkLoop, waitFor] at h
      cases hpoll : s.poll i key with
      | none =>
          rw [hpoll] at h
          obtain ⟨hinv', hkept, hhas⟩ := ih (hinv.act action) h
          refine ⟨hinv', fun k c hk => hkept k c ?_, hhas⟩
          exact (act_grow hinv.inv action).kept i k c hk
      | some result =>
          rw [hpoll] at h
          cases h
          exact ⟨hinv, fun _ _ => id, WriteMap.written_of_get (poll_ok hpoll)⟩

/-- A session's provider records what it gave in the local cache. -/
theorem fetchProvider_recording (blake3 : Bytes → ChunkKey) (i : Nat) :
    Recording (fun run : FetchRun => Integrity blake3 run.state)
      (fun run key chunk =>
        (run.state.sessions i).localCache.Written key chunk)
      (fetchProvider blake3 i) where
  prefetch keys run r run' hinv h := by
    cases h
    have hgrow : LocalsGrow blake3 run.state
        (run.state.act blake3 (.prefetch i keys)) := act_grow hinv.inv _
    exact ⟨Integrity.act hinv (.prefetch i keys), hgrow.kept i⟩
  getChunk key run chunk run' hinv h := getChunkLoop_ok hinv h

/-- The chunks of a session's local cache. -/
def localChunks (run : FetchRun) (i : Nat) : Set Bytes :=
  {chunk | ∃ key, (run.state.sessions i).localCache.Written key chunk}

/-- Whatever a cache file and the server's responses hold: every chunk in
the shared cache and in every local cache hashes to its key. And two runs
of `reconstruct_data` on one list that both succeed yield the same bytes,
if blake3 has no collision among the chunks of the two local caches. -/
theorem chunk_integrity (blake3 : Bytes → ChunkKey) :
    (∀ s, Reachable blake3 s →
      (∀ e ∈ s.cache.inner.rawCache.chunks.entries, blake3 e.2 = e.1)
      ∧ ∀ i key chunk, (s.sessions i).localCache.get key = some chunk →
          blake3 chunk = key)
    ∧ ∀ (list : ChunkList) (s₁ s₂ : FetcherState)
        (schedule₁ schedule₂ : List FetchAction) (i₁ i₂ fuel₁ fuel₂ : Nat)
        (data₁ data₂ : Bytes) (end₁ end₂ : FetchRun),
      Reachable blake3 s₁ → Reachable blake3 s₂ →
      (collectData (fetchProvider blake3 i₁) fuel₁ list).run
        ⟨s₁, schedule₁⟩ = (.ok data₁, end₁) →
      (collectData (fetchProvider blake3 i₂) fuel₂ list).run
        ⟨s₂, schedule₂⟩ = (.ok data₂, end₂) →
      Set.InjOn blake3 (localChunks end₁ i₁ ∪ localChunks end₂ i₂) →
      data₁ = data₂ := by
  constructor
  · intro s hs
    refine ⟨hs.integrity.intact, fun i key chunk h => ?_⟩
    exact hs.integrity.locals i key chunk (WriteMap.written_of_get h)
  · intro list s₁ s₂ schedule₁ schedule₂ i₁ i₂ fuel₁ fuel₂ data₁ data₂
      end₁ end₂ hs₁ hs₂ hrun₁ hrun₂ hinj
    obtain ⟨hend₁, blobs₁, hmeans₁, rfl⟩ :=
      (fetchProvider_recording blake3 i₁).collect hs₁.integrity hrun₁
    obtain ⟨hend₂, blobs₂, hmeans₂, rfl⟩ :=
      (fetchProvider_recording blake3 i₂).collect hs₂.integrity hrun₂
    -- one key, one hash, one chunk
    have hagree : ∀ key chunk₁ chunk₂,
        (end₁.state.sessions i₁).localCache.Written key chunk₁ →
        (end₂.state.sessions i₂).localCache.Written key chunk₂ →
        chunk₁ = chunk₂ := by
      intro key chunk₁ chunk₂ h₁ h₂
      apply hinj (Or.inl ⟨key, h₁⟩) (Or.inr ⟨key, h₂⟩)
      rw [hend₁.locals i₁ key chunk₁ h₁, hend₂.locals i₂ key chunk₂ h₂]
    rw [hmeans₁.unique hagree hmeans₂]

/-- A list of one chunk. -/
def oneChunkList : ChunkList :=
  { isLeaf := true, chunks := [blake3Sample [0]] }

/-- A cache file with that chunk, after another one under its key. -/
def forgedFile : Bytes :=
  [2, 0, 0, 0] ++ (blake3Sample [0]).bytes ++ [1, 0, 0, 0, 7]
    ++ (blake3Sample [0]).bytes ++ [1, 0, 0, 0, 0]

/-- What is loaded from it: the wrong chunk is left out. -/
def loadedCache : CacheState :=
  .ofRaw { chunks := LinkedMap.empty.putBack (blake3Sample [0]) [0]
           totalSize := 1
           maxSize := 10 }

/-- The list read with a server that sends the chunk. -/
def readFromServer : Except Fault Bytes × FetchRun :=
  (collectData (fetchProvider blake3Sample 0) 1 oneChunkList).run
    ⟨.ofCache (.new 10), [.fetch 0, .respond 0 [[0]], .close 0]⟩

/-- The list read with the chunk from the cache file. -/
def readFromFile : Except Fault Bytes × FetchRun :=
  (collectData (fetchProvider blake3Sample 0) 1 oneChunkList).run
    ⟨.ofCache loadedCache, [.fetch 0]⟩

theorem chunk_integrity_oneChunkList :
    CacheState.loadFromFile blake3Sample 10 (some forgedFile)
      = .ok loadedCache
    ∧ ∃ data₁ data₂, readFromServer.1 = .ok data₁
      ∧ readFromFile.1 = .ok data₂ ∧ data₁ = data₂ := by
  have hload : CacheState.loadFromFile blake3Sample 10 (some forgedFile)
      = .ok loadedCache := rfl
  refine ⟨hload, _, _, rfl, rfl, ?_⟩
  refine (chunk_integrity blake3Sample).2 oneChunkList
    (.ofCache (.new 10)) (.ofCache loadedCache)
    [.fetch 0, .respond 0 [[0]], .close 0] [.fetch 0] 0 0 1 1 _ _
    readFromServer.2 readFromFile.2 ⟨10, none, .new 10, [], [], rfl, rfl⟩
    ⟨10, some forgedFile, loadedCache, [], [], hload, rfl⟩ rfl rfl ?_
  have hserver : (readFromServer.2.state.sessions 0).localCache
      = ⟨[(blake3Sample [0], [0])]⟩ := rfl
  have hfile : (readFromFile.2.state.sessions 0).localCache
      = ⟨[(blake3Sample [0], [0])]⟩ := rfl
  simp only [localChunks, hserver, hfile, WriteMap.Written]
  simp [Set.InjOn]

end FactoryCacher
