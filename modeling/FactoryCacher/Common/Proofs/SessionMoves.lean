/-
What an action does to one session.

`SessionMove` lists it once, with what the action was and what has to
hold for it; the proofs about sessions that talk to servers go by its
cases. To a session an action of another one is rest: of the cache it
sees nothing but its own task.

Of the cache as a whole three things are added here, which no action
takes back: an event that was closed, a task that panicked, and the
poison on the lock. With batches of 512 only one panic poisons the
lock, that of a waiter whose chunk was evicted (`poisoned_act`).
-/
import FactoryCacher.Common.Proofs.ExclusiveFetch
import FactoryCacher.Common.Proofs.FetchProgress
import FactoryCacher.Common.Proofs.FetchRelease

namespace FactoryCacher

-- ============================================================= on the cache

namespace CacheState

variable {s : CacheState} {action : CacheAction}

/-- A closed event stays closed. -/
theorem closed_act {event : Nat} (h : event ∈ s.closed) :
    event ∈ (s.act action).1.closed := by
  cases action with
  | markDirty | snapshot =>
      rw [act, setNeedsSaving]
      split <;> exact h
  | call task chunksRequested batchSize =>
      rw [act]
      split
      case h_1 =>
        rw [actCall]
        split
        case isTrue => exact h
        case isFalse =>
          dsimp only
          rw [afterCall]
          split <;> exact h
      case h_2 => exact h
  | wake task =>
      rw [act]
      split
      case h_1 =>
        split
        case isTrue =>
          rw [actWake]
          split
          case isTrue => exact h
          case isFalse =>
            dsimp only
            rw [afterWait]
            split <;> exact h
        case isFalse => exact h
      case h_2 => exact h
  | fulfill task chunks =>
      rw [act]
      split
      case h_1 =>
        rw [actFulfill]
        split
        case isTrue => exact h
        case isFalse =>
          split
          case isTrue => exact h
          case isFalse => split <;> exact h
      case h_2 => exact h
  | close task =>
      rw [act]
      split
      case h_1 => exact List.mem_cons_of_mem _ h
      case h_2 => exact h
  | drop task =>
      rw [act]
      split <;> exact h

/-- Who panicked stays so. -/
theorem panicked_act {task : Nat} {panic : CachePanic}
    (h : s.tasks task = .panicked panic) :
    (s.act action).1.tasks task = .panicked panic := by
  by_cases htask : action.task = some task
  · cases action with
    | markDirty | snapshot => cases htask
    | call | wake | fulfill | close | drop =>
        cases htask
        rw [act, h]
        exact h
  · rw [tasks_act htask, h]

/-- A `fulfill` with a chunk for every key, on a lock that is not
poisoned. -/
theorem act_fulfill_of_held (hinv : CacheInv s) {task : Nat}
    {batch : BatchChunkRequest} {batchSize : Nat} {chunks : List Bytes}
    (hheld : s.tasks task = .holding batch batchSize)
    (hlen : batch.batchKeys.length = chunks.length)
    (hpoisoned : s.poisoned = false) :
    ∃ inner, s.act (.fulfill task chunks)
      = ({ s.setTask task (.closing batch.event) with inner := inner },
        []) := by
  have hb := hinv.held task batch batchSize hheld
  have hkeys : (batch.batchKeys.zip chunks).map Prod.fst
      = batch.batchKeys := List.map_fst_zip hlen.le
  have hnew : ∀ key ∈ (batch.batchKeys.zip chunks).map Prod.fst,
      key ∉ s.inner.rawCache.chunks.keys := by
    intro key hkey hcached
    rw [hkeys, ← hb.pending, hinv.apart key hcached] at hkey
    cases hkey
  obtain ⟨inner, hloop, -⟩ := fulfillLoop_spec
    (batch.batchKeys.zip chunks) s.inner hinv.sized (hkeys.symm ▸ hb.nodup)
    hnew
  refine ⟨inner, ?_⟩
  simp only [act, hheld, actFulfill]
  rw [if_neg (not_not.2 hlen), if_neg (Bool.eq_false_iff.1 hpoisoned), hloop]
  rfl

/-- Poison stays, and comes from a waiter only, when every call asks for
some chunks. -/
theorem poisoned_act (hinv : CacheInv s) (hasks : action.AsksForSome) :
    (s.act action).1.poisoned = s.poisoned
    ∨ (s.act action).1.poisoned = true
      ∧ ∃ task, (s.act action).1.tasks task = .panicked .notInCache := by
  cases action with
  | markDirty | snapshot =>
      left
      rw [act, setNeedsSaving]
      split <;> rfl
  | close task | drop task =>
      left
      rw [act]
      split <;> rfl
  | call task chunksRequested batchSize =>
      left
      rw [act]
      split
      case h_2 => rfl
      case h_1 =>
        rw [actCall]
        split
        case isTrue => rfl
        case isFalse =>
          dsimp only
          rw [afterCall]
          cases (getChunksBatched_spec s.inner chunksRequested batchSize
            s.nextEvent).ends with
          | batch batch houtcome => rw [houtcome]; rfl
          | wait requests houtcome => rw [houtcome]; rfl
          | complete houtcome => rw [houtcome]
          | notPending houtcome hzero =>
              rw [hzero] at hasks
              exact absurd hasks (Nat.not_succ_le_zero 0)
  | wake task =>
      rw [act]
      split
      case h_2 => exact Or.inl rfl
      case h_1 =>
        split
        case isFalse => exact Or.inl rfl
        case isTrue =>
          rw [actWake]
          split
          case isTrue => exact Or.inl rfl
          case isFalse =>
            dsimp only
            rw [afterWait]
            split
            case isTrue => exact Or.inl rfl
            case isFalse => exact Or.inr ⟨rfl, task, setTask_self ..⟩
  | fulfill task chunks =>
      left
      rw [act]
      cases htask : s.tasks task with
      | holding batch batchSize =>
          dsimp only
          by_cases hwhy : batch.batchKeys.length ≠ chunks.length
              ∨ s.poisoned = true
          · obtain ⟨panic, hact⟩ := act_fulfill_panics htask hwhy
            simp only [act, htask] at hact
            rw [hact]
            rfl
          · obtain ⟨inner, hact⟩ := act_fulfill_of_held hinv htask
              (not_not.1 fun h => hwhy (Or.inl h))
              (Bool.eq_false_iff.2 fun h => hwhy (Or.inr h))
            simp only [act, htask] at hact
            rw [hact]
            rfl
      | _ => rfl

end CacheState

-- ============================================================= on a session

/-- What makes a session panic. -/
inductive PanicCause (s : FetcherState) (i : Nat) (s' : FetcherState) :
    FetchAction → CachePanic → Prop
  | fetch (hready : s.Ready i) (hpoisoned : s.cache.poisoned = true) :
      PanicCause s i s' (.fetch i) .poisoned
  | wake {requests : List (ChunkKey × Nat)}
      (htask : s.cache.tasks i = .waiting requests)
      (hpoisoned : s.cache.poisoned = true) :
      PanicCause s i s' (.wake i) .poisoned
  | evicted {requests : List (ChunkKey × Nat)}
      (htask : s.cache.tasks i = .waiting requests)
      (hpoisoned : s'.cache.poisoned = true) :
      PanicCause s i s' (.wake i) .notInCache
  | fulfill {batch : BatchChunkRequest} {batchSize : Nat}
      (htask : s.cache.tasks i = .holding batch batchSize)
      {chunks : List Bytes} (hpoisoned : s.cache.poisoned = true) :
      PanicCause s i s' (.respond i chunks) .poisoned
  | count {batch : BatchChunkRequest} {batchSize : Nat}
      (htask : s.cache.tasks i = .holding batch batchSize)
      {chunks : List Bytes}
      (hcount : batch.batchKeys.length ≠ chunks.length) :
      PanicCause s i s' (.respond i chunks) .chunkCount

/-- What an action is to session `i`. -/
inductive SessionMove (blake3 : Bytes → ChunkKey) (s : FetcherState)
    (i : Nat) (action : FetchAction) (s' : FetcherState) : Prop
  /-- nothing -/
  | rest (htask : s'.cache.tasks i = s.cache.tasks i)
      (hsession : s'.sessions i = s.sessions i)
  | prefetch (keys : List ChunkKey) (haction : action = .prefetch i keys)
      (hready : s.Ready i) (htask : s'.cache.tasks i = .idle)
      (hfailed : (s'.sessions i).failed = none)
      (hkeys : ∀ key ∈ (s'.sessions i).pendingChunks,
        key ∈ (s.sessions i).pendingChunks ∨ key ∈ keys)
  /-- a call of the cache -/
  | fetch (haction : action = .fetch i) (hready : s.Ready i)
      (htask : s'.cache.tasks i = .idle
        ∨ (∃ batch, s'.cache.tasks i = .holding batch fetchBatchSize)
        ∨ ∃ requests, s'.cache.tasks i = .waiting requests)
      (hfailed : (s'.sessions i).failed = none)
      (hkeys : ∀ key, key ∈ (s'.sessions i).pendingChunks
        ∨ key ∈ (s'.cache.tasks i).keys →
        key ∈ (s.sessions i).pendingChunks)
  /-- the end of a wait -/
  | wake (requests : List (ChunkKey × Nat)) (haction : action = .wake i)
      (hwaiting : s.cache.tasks i = .waiting requests)
      (htask : s'.cache.tasks i = .idle)
      (hfailed : (s'.sessions i).failed = (s.sessions i).failed)
      (hpending : (s'.sessions i).pendingChunks
        = (s.sessions i).pendingChunks)
  /-- the end of a fetch -/
  | fulfill (chunks : List Bytes) (batch : BatchChunkRequest)
      (batchSize : Nat) (haction : action = .respond i chunks)
      (hheld : s.cache.tasks i = .holding batch batchSize)
      (htask : s'.cache.tasks i = .closing batch.event)
      (hfailed : (s'.sessions i).failed = (s.sessions i).failed)
      (hpending : (s'.sessions i).pendingChunks
        = (s.sessions i).pendingChunks)
  | close (event : Nat) (haction : action = .close i)
      (hclosing : s.cache.tasks i = .closing event)
      (htask : s'.cache.tasks i = .idle)
      (hclosed : event ∈ s'.cache.closed)
      (hsession : s'.sessions i = s.sessions i)
  | panic (panic : CachePanic) (hcause : PanicCause s i s' action panic)
      (htask : s'.cache.tasks i = .panicked panic)
      (hfailed : (s'.sessions i).failed = (s.sessions i).failed)
      (hkeys : ∀ key ∈ (s'.sessions i).pendingChunks,
        key ∈ (s.sessions i).pendingChunks)
  /-- any other way out -/
  | fail (hfailed : (s'.sessions i).failed ≠ none)
      (hwhy : (∃ failure, action = .fail i failure)
        ∨ ∃ chunks batch batchSize, action = .respond i chunks
          ∧ s.cache.tasks i = .holding batch batchSize
          ∧ ∃ e ∈ batch.batchKeys.zip chunks, blake3 e.2 ≠ e.1)

namespace FetcherState

variable {blake3 : Bytes → ChunkKey} {s : FetcherState} {i : Nat}

/-- A session that acted on the cache, field by field. -/
theorem session_onCache {action : CacheAction}
    {next : List CacheEvent → Session} {cache : CacheState}
    {events : List CacheEvent}
    (hact : s.cache.act action = (cache, events)) :
    (s.onCache action i next).cache = cache
    ∧ (s.onCache action i next).sessions i = next events := by
  constructor
  · rw [onCache, hact]
    rfl
  · rw [onCache, hact]
    exact setSession_self ..

theorem sessionMove_fetch (hready : s.Ready i) :
    SessionMove blake3 s i (.fetch i) (s.act blake3 (.fetch i)) := by
  have hstate : s.act blake3 (.fetch i)
      = s.onCache (.call i (s.sessions i).pendingChunks fetchBatchSize) i
        fun events => { s.sessions i with
          localCache := deliver events (s.sessions i).localCache
          pendingChunks := (getChunksBatched s.cache.inner
            (s.sessions i).pendingChunks fetchBatchSize
            s.cache.nextEvent).remaining } := by
    rw [act, actFetch]
    simp only [hready.1, hready.2]
  have hact : s.cache.act (.call i (s.sessions i).pendingChunks
      fetchBatchSize) = s.cache.actCall i (s.sessions i).pendingChunks
        fetchBatchSize := by
    rw [CacheState.act, hready.2]
  rw [hstate]
  generalize hr : getChunksBatched s.cache.inner
    (s.sessions i).pendingChunks fetchBatchSize s.cache.nextEvent = r
  obtain ⟨houtcome, hleft⟩ := getChunksBatched_among hr
  by_cases hpoisoned : s.cache.poisoned = true
  · rw [CacheState.actCall, if_pos hpoisoned] at hact
    obtain ⟨hcache, hsession⟩ := @session_onCache s i _
      (fun events => { s.sessions i with
        localCache := deliver events (s.sessions i).localCache
        pendingChunks := r.remaining }) _ _ hact
    apply SessionMove.panic .poisoned (.fetch hready hpoisoned)
    · rw [hcache, CacheState.setTask_self]
    · rw [hsession]
    · rw [hsession]
      exact hleft
  · rw [CacheState.actCall, if_neg hpoisoned, hr] at hact
    obtain ⟨hcache, hsession⟩ := @session_onCache s i _
      (fun events => { s.sessions i with
        localCache := deliver events (s.sessions i).localCache
        pendingChunks := r.remaining }) _ _ hact
    -- the task by how the call ended
    have hends := (getChunksBatched_spec s.cache.inner
      (s.sessions i).pendingChunks fetchBatchSize s.cache.nextEvent).ends
    rw [hr] at hends
    have htask : (s.cache.afterCall i fetchBatchSize r).tasks i = .idle
          ∧ r.outcome = .complete
        ∨ (∃ batch, (s.cache.afterCall i fetchBatchSize r).tasks i
            = .holding batch fetchBatchSize ∧ r.outcome = .batch batch)
        ∨ ∃ requests, (s.cache.afterCall i fetchBatchSize r).tasks i
            = .waiting requests ∧ r.outcome = .wait requests := by
      cases hends with
      | batch batch hout =>
          refine Or.inr (Or.inl ⟨batch, ?_, hout⟩)
          rw [CacheState.afterCall, hout]
          exact CacheState.setTask_self ..
      | wait requests hout =>
          refine Or.inr (Or.inr ⟨requests, ?_, hout⟩)
          rw [CacheState.afterCall, hout]
          exact CacheState.setTask_self ..
      | complete hout =>
          refine Or.inl ⟨?_, hout⟩
          rw [CacheState.afterCall, hout]
          exact hready.2
      | notPending hout hzero => cases hzero
    have hkeys : ((s.cache.afterCall i fetchBatchSize r).tasks i).keys
        = r.outcome.keys := by
      rcases htask with ⟨ht, ho⟩ | ⟨batch, ht, ho⟩ | ⟨requests, ht, ho⟩
      all_goals
        rw [ht, ho]
        rfl
    apply SessionMove.fetch rfl hready
    · rw [hcache]
      rcases htask with ⟨ht, -⟩ | ⟨batch, ht, -⟩ | ⟨requests, ht, -⟩
      · exact Or.inl ht
      · exact Or.inr (Or.inl ⟨batch, ht⟩)
      · exact Or.inr (Or.inr ⟨requests, ht⟩)
    · rw [hsession]
      exact hready.1
    · intro key hkey
      rw [hcache, hsession, hkeys] at hkey
      rcases hkey with hkey | hkey
      · exact hleft key hkey
      · exact houtcome key hkey

/-- Where the cache has nothing to do. -/
theorem sessionMove_of_quiet {action : FetchAction}
    {cacheAction : CacheAction} {next : List CacheEvent → Session}
    (hact : s.cache.act cacheAction = (s.cache, []))
    (hnext : next [] = s.sessions i) :
    SessionMove blake3 s i action (s.onCache cacheAction i next) := by
  obtain ⟨hcache, hsession⟩ := session_onCache hact
  apply SessionMove.rest
  · rw [hcache]
  · rw [hsession, hnext]

theorem sessionMove_wake :
    SessionMove blake3 s i (.wake i) (s.act blake3 (.wake i)) := by
  cases htask : s.cache.tasks i with
  | waiting requests =>
      by_cases hclosed : ∀ request ∈ requests, request.2 ∈ s.cache.closed
      · have hact : s.cache.act (.wake i) = s.cache.actWake i requests := by
          rw [CacheState.act, htask]
          exact if_pos hclosed
        obtain ⟨hcache, hsession⟩ : (s.act blake3 (.wake i)).cache
              = (s.cache.actWake i requests).1
            ∧ (s.act blake3 (.wake i)).sessions i = _ :=
          session_onCache hact
        have hfailed := congrArg Session.failed hsession
        have hpending := congrArg Session.pendingChunks hsession
        by_cases hpoisoned : s.cache.poisoned = true
        · rw [CacheState.actWake, if_pos hpoisoned] at hcache
          apply SessionMove.panic .poisoned (.wake htask hpoisoned)
          · rw [hcache, CacheState.setTask_self]
          · exact hfailed
          · exact fun key hkey => hpending ▸ hkey
        · rw [CacheState.actWake, if_neg hpoisoned] at hcache
          dsimp only at hcache
          cases hall : (takeWaited requests s.cache.inner.rawCache).2.2 with
          | true =>
              rw [hall, CacheState.afterWait, if_pos rfl] at hcache
              apply SessionMove.wake requests rfl htask
              · rw [hcache, CacheState.setTask_self]
              · exact hfailed
              · exact hpending
          | false =>
              rw [hall, CacheState.afterWait,
                if_neg Bool.false_ne_true] at hcache
              apply SessionMove.panic .notInCache
              · apply PanicCause.evicted htask
                rw [hcache]
                rfl
              · rw [hcache]
                exact CacheState.setTask_self ..
              · exact hfailed
              · exact fun key hkey => hpending ▸ hkey
      · have hact : s.cache.act (.wake i) = (s.cache, []) := by
          rw [CacheState.act, htask]
          exact if_neg hclosed
        rw [act, actWake]
        exact sessionMove_of_quiet hact rfl
  | _ =>
      have hact : s.cache.act (.wake i) = (s.cache, []) := by
        rw [CacheState.act, htask]
      rw [act, actWake]
      exact sessionMove_of_quiet hact rfl

theorem sessionMove_close :
    SessionMove blake3 s i (.close i) (s.act blake3 (.close i)) := by
  cases htask : s.cache.tasks i with
  | closing event =>
      have hact : s.cache.act (.close i)
          = ({ s.cache.setTask i .idle with
              closed := event :: s.cache.closed }, []) := by
        rw [CacheState.act, htask]
      obtain ⟨hcache, hsession⟩ : (s.act blake3 (.close i)).cache = _
          ∧ (s.act blake3 (.close i)).sessions i = _ :=
        session_onCache hact
      apply SessionMove.close event rfl htask
      · rw [hcache]
        exact CacheState.setTask_self ..
      · rw [hcache]
        exact List.mem_cons_self ..
      · exact hsession
  | _ =>
      have hact : s.cache.act (.close i) = (s.cache, []) := by
        rw [CacheState.act, htask]
      rw [act]
      exact sessionMove_of_quiet hact rfl

theorem sessionMove_respond (hinv : CacheInv s.cache) (chunks : List Bytes) :
    SessionMove blake3 s i (.respond i chunks)
      (s.act blake3 (.respond i chunks)) := by
  cases htask : s.cache.tasks i with
  | holding batch batchSize =>
      rw [act, actRespond]
      simp only [htask]
      rcases hcheck : checkResponse blake3 (batch.batchKeys.zip chunks)
        (s.sessions i).localCache with ⟨localCache, _ | wrong⟩
      · -- every hash is right
        dsimp only
        by_cases hlen : batch.batchKeys.length = chunks.length
        · by_cases hpoisoned : s.cache.poisoned = true
          · have hact : s.cache.act (.fulfill i chunks)
                = (s.cache.setTask i (.panicked .poisoned), []) := by
              simp only [CacheState.act, htask, CacheState.actFulfill]
              rw [if_neg (not_not.2 hlen), if_pos hpoisoned]
            obtain ⟨hcache, hsession⟩ := @session_onCache s i _
              (fun _ => { s.sessions i with localCache := localCache }) _ _
              hact
            apply SessionMove.panic .poisoned (.fulfill htask hpoisoned)
            · rw [hcache, CacheState.setTask_self]
            · rw [hsession]
            · rw [hsession]
              exact fun _ => id
          · obtain ⟨inner, hact⟩ := CacheState.act_fulfill_of_held hinv htask
              hlen (Bool.eq_false_iff.2 hpoisoned)
            obtain ⟨hcache, hsession⟩ := @session_onCache s i _
              (fun _ => { s.sessions i with localCache := localCache }) _ _
              hact
            apply SessionMove.fulfill chunks batch batchSize rfl htask
            · rw [hcache]
              exact CacheState.setTask_self ..
            · rw [hsession]
            · rw [hsession]
        · have hact : s.cache.act (.fulfill i chunks)
              = (s.cache.setTask i (.panicked .chunkCount), []) := by
            simp only [CacheState.act, htask, CacheState.actFulfill]
            rw [if_pos hlen]
          obtain ⟨hcache, hsession⟩ := @session_onCache s i _
            (fun _ => { s.sessions i with localCache := localCache }) _ _
            hact
          apply SessionMove.panic .chunkCount (.count htask hlen)
          · rw [hcache, CacheState.setTask_self]
          · rw [hsession]
          · rw [hsession]
            exact fun _ => id
      · have hwrong : ¬ ∀ e ∈ batch.batchKeys.zip chunks,
            blake3 e.2 = e.1 := by
          rw [← @checkResponse_eq_none_iff blake3 _ (s.sessions i).localCache,
            hcheck]
          exact Option.some_ne_none _
        push Not at hwrong
        apply SessionMove.fail
        · rw [(session_onCache (act_drop htask)).2]
          exact Option.some_ne_none _
        · exact Or.inr ⟨chunks, batch, batchSize, rfl, htask, hwrong⟩
  | _ =>
      rw [act, actRespond]
      simp only [htask]
      exact SessionMove.rest rfl rfl

theorem sessionMove_fail (failure : FetchFailure) :
    SessionMove blake3 s i (.fail i failure)
      (s.act blake3 (.fail i failure)) := by
  rw [act, actFail]
  cases htask : s.cache.tasks i with
  | closing | panicked => exact SessionMove.rest rfl rfl
  | idle =>
      apply SessionMove.fail _ (Or.inl ⟨failure, rfl⟩)
      dsimp only
      rw [setSession_self]
      exact Option.some_ne_none _
  | waiting | holding =>
      apply SessionMove.fail _ (Or.inl ⟨failure, rfl⟩)
      rw [onCache, setSession_self]
      exact Option.some_ne_none _

/-- Every action, to every session. -/
theorem act_sessionMove (hinv : CacheInv s.cache) (i : Nat)
    (action : FetchAction) :
    SessionMove blake3 s i action (s.act blake3 action) := by
  by_cases hown : sessionOf action = some i
  · cases action with
    | markDirty | snapshot => cases hown
    | prefetch j keys =>
        cases hown
        by_cases hready : s.Ready i
        · have hstate : s.act blake3 (.prefetch i keys)
              = s.setSession i { s.sessions i with
                pendingChunks := (s.sessions i).pendingChunks ++ keys.filter
                  fun key => !(s.sessions i).localCache.containsKey key }
              := by
            rw [act, actPrefetch]
            simp only [hready.1, hready.2]
          rw [hstate]
          apply SessionMove.prefetch keys rfl hready
          · exact hready.2
          · rw [setSession_self]
            exact hready.1
          · rw [setSession_self]
            intro key hkey
            rcases List.mem_append.1 hkey with hold | hnew
            · exact Or.inl hold
            · exact Or.inr (List.mem_filter.1 hnew).1
        · rw [act_prefetch_of_busy hready]
          exact SessionMove.rest rfl rfl
    | fetch j =>
        cases hown
        by_cases hready : s.Ready i
        · exact sessionMove_fetch hready
        · rw [act_fetch_of_busy hready]
          exact SessionMove.rest rfl rfl
    | wake j =>
        cases hown
        exact sessionMove_wake
    | respond j chunks =>
        cases hown
        exact sessionMove_respond hinv chunks
    | close j =>
        cases hown
        exact sessionMove_close
    | fail j failure =>
        cases hown
        exact sessionMove_fail failure
  · exact SessionMove.rest (act_other hown).2 (act_other hown).1

end FetcherState

end FactoryCacher
