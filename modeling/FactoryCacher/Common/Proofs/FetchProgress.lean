/-
A chunk that was prefetched arrives.

# Where the keys are

A key leaves the list of a session's chunks to ask for in one way, the
call of the cache, and is then in one of three places: found at once, in
the batch the session fetches, or among the keys it waits for. Each of
them ends in the local cache or in a failure. `Tracks` names the places,
and `tracks_act` says that no action of anybody loses a key of a session
that has not failed. Between two calls of `fetch_chunk_batch` there is
no batch and no wait, which leaves the list and the local cache (`Has`).

# Why the loop ends

A call of the cache for a list that is not empty leaves a shorter one
(`pending_act_fetch`), and nothing else but `prefetch` changes the list
(`pending_act_of_ne`). While `get_chunk` runs nobody prefetches: it has
the provider to itself. So the list bounds the batches.

# The calls

The readers get a chunk only after they prefetched it; Reads is the rule
for that. Here it is used over a provider that keeps a record of every
call (`observed`), so that what is said of a call is said of each call
of a run, also of one that ends with a fault.
-/
import FactoryCacher.Common.Proofs.ChunkIntegrity

namespace FactoryCacher

namespace FetcherState

variable {blake3 : Bytes → ChunkKey} {s : FetcherState} {i j : Nat}
  {key : ChunkKey}

theorem setSession_self (s : FetcherState) (i : Nat) (session : Session) :
    (s.setSession i session).sessions i = session := by
  simp [setSession]

theorem setSession_of_ne (s : FetcherState) (session : Session)
    (h : i ≠ j) : (s.setSession j session).sessions i = s.sessions i := by
  simp [setSession, h]

-- ======================================================= where a session is

/-- Between two calls of `fetch_chunk_batch`, and each of them has
returned `Ok`. -/
def Ready (s : FetcherState) (i : Nat) : Prop :=
  (s.sessions i).failed = none ∧ s.cache.tasks i = .idle

/-- A call did not return `Ok`. -/
def Stopped (s : FetcherState) (i : Nat) : Prop :=
  (s.sessions i).failed ≠ none
  ∨ ∃ panic, s.cache.tasks i = .panicked panic

/-- A key is in the local cache or in the list of chunks to ask for. -/
def Has (s : FetcherState) (i : Nat) (key : ChunkKey) : Prop :=
  (s.sessions i).localCache.containsKey key = true
  ∨ key ∈ (s.sessions i).pendingChunks

end FetcherState

/-- The keys a task fetches or waits for. -/
def TaskState.keys : TaskState → List ChunkKey
  | .waiting pendingRequests => pendingRequests.map Prod.fst
  | .holding batch _ => batch.batchKeys
  | _ => []

namespace FetcherState

variable {blake3 : Bytes → ChunkKey} {s : FetcherState} {i j : Nat}
  {key : ChunkKey}

/-- It is there, or on its way. -/
def Tracks (s : FetcherState) (i : Nat) (key : ChunkKey) : Prop :=
  s.Has i key ∨ key ∈ (s.cache.tasks i).keys

/-- It is in the local cache, or the task fetches it or waits for it. -/
def Gets (s : FetcherState) (i : Nat) (key : ChunkKey) : Prop :=
  (s.sessions i).localCache.containsKey key = true
  ∨ key ∈ (s.cache.tasks i).keys

instance (s : FetcherState) (i : Nat) (key : ChunkKey) :
    Decidable (s.Gets i key) :=
  inferInstanceAs (Decidable (_ ∨ _))

theorem Gets.tracks (h : s.Gets i key) : s.Tracks i key :=
  h.imp_left Or.inl

theorem Gets.has (h : s.Gets i key) (hready : s.Ready i) :
    (s.sessions i).localCache.containsKey key = true := by
  rcases h with h | h
  · exact h
  · rw [hready.2] at h
    cases h

theorem Tracks.has (h : s.Tracks i key) (hready : s.Ready i) :
    s.Has i key := by
  rcases h with h | h
  · exact h
  · rw [hready.2] at h
    cases h

/-- The session whose action it is. -/
def sessionOf : FetchAction → Option Nat
  | .prefetch i _ => some i
  | .fetch i => some i
  | .wake i => some i
  | .respond i _ => some i
  | .fail i _ => some i
  | .close i => some i
  | .markDirty => none
  | .snapshot => none

theorem task_cacheAction {action : FetchAction} {cacheAction : CacheAction}
    (h : s.cacheAction blake3 action = some cacheAction) :
    cacheAction.task = sessionOf action := by
  cases action with
  | prefetch => cases h
  | wake | close | markDirty | snapshot =>
      cases h
      rfl
  | fetch j =>
      rw [FetcherState.cacheAction] at h
      split at h
      case h_1 =>
        cases h
        rfl
      case h_2 => cases h
  | fail j failure =>
      rw [FetcherState.cacheAction] at h
      split at h
      case h_3 => cases h
      all_goals
        cases h
        rfl
  | respond j chunks =>
      rw [FetcherState.cacheAction] at h
      split at h
      case h_1 =>
        split at h
        all_goals
          cases h
          rfl
      case h_2 => cases h

/-- An action changes no other session. -/
theorem act_other {action : FetchAction} (h : sessionOf action ≠ some i) :
    (s.act blake3 action).sessions i = s.sessions i
    ∧ (s.act blake3 action).cache.tasks i = s.cache.tasks i := by
  constructor
  · have hset : ∀ {j : Nat} (s' : FetcherState) (session : Session),
        some j ≠ some i → (s'.setSession j session).sessions i
          = s'.sessions i :=
      fun s' session hne => s'.setSession_of_ne session fun h => hne (h ▸ rfl)
    cases action with
    | markDirty | snapshot => rfl
    | wake | close => exact hset _ _ h
    | prefetch j chunks =>
        rw [act, actPrefetch]
        split
        case h_1 => exact hset _ _ h
        case h_2 => rfl
    | fetch j =>
        rw [act, actFetch]
        split
        case h_1 => exact hset _ _ h
        case h_2 => rfl
    | respond j chunks =>
        rw [act, actRespond]
        split
        case h_1 =>
          split
          all_goals exact hset _ _ h
        case h_2 => rfl
    | fail j failure =>
        rw [act, actFail]
        split
        case h_1 => rfl
        case h_2 => rfl
        all_goals exact hset _ _ h
  · rw [act_cache]
    cases haction : s.cacheAction blake3 action with
    | none => rfl
    | some cacheAction =>
        refine CacheState.tasks_act ?_
        rwa [task_cacheAction haction]

/-- A session that is busy is asked for nothing. -/
theorem act_prefetch_of_busy (hbusy : ¬ s.Ready i) (keys : List ChunkKey) :
    s.act blake3 (.prefetch i keys) = s := by
  rw [act, actPrefetch]
  split
  case h_1 hfailed htask => exact absurd ⟨hfailed, htask⟩ hbusy
  case h_2 => rfl

theorem act_fetch_of_busy (hbusy : ¬ s.Ready i) :
    s.act blake3 (.fetch i) = s := by
  rw [act, actFetch]
  split
  case h_1 hfailed htask => exact absurd ⟨hfailed, htask⟩ hbusy
  case h_2 => rfl

-- ======================================================= the list of chunks

/-- A call of the cache for some chunks leaves fewer to ask for. -/
theorem pending_act_fetch (hready : s.Ready i)
    (hne : (s.sessions i).pendingChunks ≠ []) :
    ((s.act blake3 (.fetch i)).sessions i).pendingChunks.length
      < (s.sessions i).pendingChunks.length := by
  rw [act, actFetch]
  simp only [hready.1, hready.2, onCache, setSession_self]
  exact getChunksBatched_shortens hne

/-- Nothing but this and `prefetch` changes the list, and they need a
session that is not busy. -/
theorem pending_act_of_ne {action : FetchAction}
    (hprefetch : ∀ keys, action = .prefetch i keys → ¬ s.Ready i)
    (hfetch : action = .fetch i → ¬ s.Ready i) :
    ((s.act blake3 action).sessions i).pendingChunks
      = (s.sessions i).pendingChunks := by
  by_cases hother : sessionOf action = some i
  · cases action with
    | markDirty | snapshot => cases hother
    | prefetch j keys =>
        cases hother
        rw [act_prefetch_of_busy (hprefetch keys rfl)]
    | fetch j =>
        cases hother
        rw [act_fetch_of_busy (hfetch rfl)]
    | wake j | close j =>
        cases hother
        simp only [act, actWake, onCache, setSession_self]
    | respond j chunks =>
        cases hother
        rw [act, actRespond]
        split
        case h_1 =>
          split
          all_goals simp only [onCache, setSession_self]
        case h_2 => rfl
    | fail j failure =>
        cases hother
        rw [act, actFail]
        split
        case h_1 => rfl
        case h_2 => rfl
        all_goals simp only [onCache, setSession_self]
  · rw [(act_other hother).1]

-- ============================================================ no key is lost

/-- The chunks a call of the cache found are in the local cache. -/
theorem contains_deliver {found : List (ChunkKey × Bytes)} {task : Nat}
    (localCache : ChunkMap) (h : key ∈ found.map Prod.fst) :
    (deliver (found.map fun (key, chunk) => .found task key chunk)
      localCache).containsKey key = true := by
  obtain ⟨⟨k, chunk⟩, hmem, rfl⟩ := List.mem_map.1 h
  refine WriteMap.containsKey_iff.2 ⟨chunk, written_deliver.2 ?_⟩
  exact Or.inr ⟨task, List.mem_map.2 ⟨(k, chunk), hmem, rfl⟩⟩

/-- A session that acted on the cache: what it has or gets. -/
theorem gets_onCache {action : CacheAction}
    {next : List CacheEvent → Session} {cache : CacheState}
    {events : List CacheEvent} (hact : s.cache.act action = (cache, events)) :
    (s.onCache action i next).Gets i key
      ↔ (next events).localCache.containsKey key = true
        ∨ key ∈ (cache.tasks i).keys := by
  simp only [Gets, onCache, setSession, Function.update_self, hact]

/-- And whether it stopped. -/
theorem stopped_onCache {action : CacheAction}
    {next : List CacheEvent → Session} {cache : CacheState}
    {events : List CacheEvent} (hact : s.cache.act action = (cache, events)) :
    (s.onCache action i next).Stopped i
      ↔ (next events).failed ≠ none
        ∨ ∃ panic, cache.tasks i = .panicked panic := by
  simp only [Stopped, onCache, setSession, Function.update_self, hact]

/-- The call of the cache: what it finds, batches or waits for the
session gets, and the rest is still in the list. -/
theorem act_fetch_spec {r : CallResult} (hready : s.Ready i)
    (hr : getChunksBatched s.cache.inner (s.sessions i).pendingChunks
      fetchBatchSize s.cache.nextEvent = r)
    (hgoes : ¬ (s.act blake3 (.fetch i)).Stopped i) :
    r.outcome ≠ .notPending
    ∧ ((s.act blake3 (.fetch i)).sessions i).pendingChunks = r.remaining
    ∧ ∀ key, key ∈ r.found.map Prod.fst ∨ key ∈ r.outcome.keys →
      (s.act blake3 (.fetch i)).Gets i key := by
  rw [act, actFetch] at hgoes ⊢
  simp only [hready.1, hready.2, hr] at hgoes ⊢
  have hact : s.cache.act (.call i (s.sessions i).pendingChunks
      fetchBatchSize) = s.cache.actCall i (s.sessions i).pendingChunks
        fetchBatchSize := by
    rw [CacheState.act, hready.2]
  by_cases hpoisoned : s.cache.poisoned = true
  · rw [CacheState.actCall, if_pos hpoisoned] at hact
    rw [stopped_onCache hact] at hgoes
    exact absurd (Or.inr ⟨_, CacheState.setTask_self ..⟩) hgoes
  · rw [CacheState.actCall, if_neg hpoisoned, hr] at hact
    rw [stopped_onCache hact] at hgoes
    have houtcome : r.outcome ≠ .notPending := by
      intro hpanic
      refine hgoes (Or.inr ⟨.notPending, ?_⟩)
      rw [CacheState.afterCall, hpanic]
      exact CacheState.setTask_self ..
    refine ⟨houtcome, by rw [onCache, setSession_self], ?_⟩
    intro key hkey
    rw [gets_onCache hact]
    rcases hkey with hfound | hbusy
    · exact Or.inl (contains_deliver _ hfound)
    · refine Or.inr ?_
      rw [CacheState.afterCall]
      cases hend : r.outcome with
      | notPending => exact absurd hend houtcome
      | complete =>
          rw [hend] at hbusy
          cases hbusy
      | batch request =>
          rw [hend] at hbusy
          dsimp only
          rwa [CacheState.setTask_self]
      | wait requests =>
          rw [hend] at hbusy
          dsimp only
          rwa [CacheState.setTask_self]

/-- So a key is found, batched, waited for, or still in the list. -/
theorem tracks_act_fetch (hready : s.Ready i)
    (hkey : key ∈ (s.sessions i).pendingChunks)
    (hgoes : ¬ (s.act blake3 (.fetch i)).Stopped i) :
    (s.act blake3 (.fetch i)).Tracks i key := by
  obtain ⟨houtcome, hleft, hgets⟩ := act_fetch_spec hready rfl hgoes
  rcases getChunksBatched_covers rfl houtcome key hkey with
    hfound | hbusy | hremains
  · exact (hgets key (Or.inl hfound)).tracks
  · exact (hgets key (Or.inr hbusy)).tracks
  · exact Or.inl (Or.inr (hleft ▸ hremains))

/-- The end of the wait: what was waited for is found. -/
theorem gets_act_wake {requests : List (ChunkKey × Nat)}
    (htask : s.cache.tasks i = .waiting requests)
    (hkey : key ∈ requests.map Prod.fst)
    (hgoes : ¬ (s.act blake3 (.wake i)).Stopped i) :
    (s.act blake3 (.wake i)).Gets i key := by
  rw [act, actWake] at hgoes ⊢
  by_cases hclosed : ∀ request ∈ requests, request.2 ∈ s.cache.closed
  · have hact : s.cache.act (.wake i) = s.cache.actWake i requests := by
      rw [CacheState.act, htask]
      exact if_pos hclosed
    by_cases hpoisoned : s.cache.poisoned = true
    · rw [CacheState.actWake, if_pos hpoisoned] at hact
      rw [stopped_onCache hact] at hgoes
      exact absurd (Or.inr ⟨_, CacheState.setTask_self ..⟩) hgoes
    · rw [CacheState.actWake, if_neg hpoisoned] at hact
      rw [stopped_onCache hact] at hgoes
      rw [gets_onCache hact]
      have hall : (takeWaited requests s.cache.inner.rawCache).2.2
          = true := by
        by_contra hmissing
        refine hgoes (Or.inr ⟨.notInCache, ?_⟩)
        rw [CacheState.afterWait, if_neg hmissing]
        exact CacheState.setTask_self ..
      rw [← takeWaited_all hall] at hkey
      exact Or.inl (contains_deliver _ hkey)
  · -- it goes on waiting
    have hact : s.cache.act (.wake i) = (s.cache, []) := by
      rw [CacheState.act, htask]
      exact if_neg hclosed
    rw [gets_onCache hact, htask]
    exact Or.inr hkey

/-- A response that passes has every chunk of the batch. -/
theorem contains_checkResponse {entries : List (ChunkKey × Bytes)}
    {localCache : ChunkMap}
    (hcheck : (checkResponse blake3 entries localCache).2 = none)
    (h : key ∈ entries.map Prod.fst) :
    (checkResponse blake3 entries localCache).1.containsKey key = true := by
  induction entries generalizing localCache with
  | nil => cases h
  | cons e entries ih =>
      obtain ⟨k, chunk⟩ := e
      rw [checkResponse] at hcheck ⊢
      split at hcheck
      case isTrue => cases hcheck
      case isFalse hkey =>
        rw [if_neg hkey]
        rcases List.mem_cons.1 h with rfl | h
        · refine WriteMap.containsKey_iff.2 ⟨chunk, ?_⟩
          exact written_checkResponse_of_written
            ((WriteMap.written_insert ..).2 (Or.inl ⟨rfl, rfl⟩))
        · exact ih hcheck h

/-- The response: what was batched is in the local cache. -/
theorem gets_act_respond {batch : BatchChunkRequest} {batchSize : Nat}
    {chunks : List Bytes}
    (htask : s.cache.tasks i = .holding batch batchSize)
    (hkey : key ∈ batch.batchKeys)
    (hgoes : ¬ (s.act blake3 (.respond i chunks)).Stopped i) :
    (s.act blake3 (.respond i chunks)).Gets i key := by
  rw [act, actRespond] at hgoes ⊢
  simp only [htask] at hgoes ⊢
  have hcontains := @contains_checkResponse blake3 key
    (batch.batchKeys.zip chunks) (s.sessions i).localCache
  rcases hcheck : checkResponse blake3 (batch.batchKeys.zip chunks)
    (s.sessions i).localCache with ⟨localCache, _ | wrong⟩
  · rw [hcheck] at hcontains
    simp only [hcheck] at hgoes ⊢
    rcases hact : s.cache.act (.fulfill i chunks) with ⟨cache, events⟩
    rw [stopped_onCache hact] at hgoes
    rw [gets_onCache hact]
    refine Or.inl (hcontains rfl ?_)
    by_cases hlen : batch.batchKeys.length = chunks.length
    · rwa [List.map_fst_zip hlen.le]
    · -- the assertion of fulfill
      have hpanics : s.cache.act (.fulfill i chunks)
          = s.cache.actFulfill i batch chunks := by
        rw [CacheState.act, htask]
      rw [hpanics, CacheState.actFulfill, if_pos hlen] at hact
      cases hact
      exact absurd (Or.inr ⟨_, CacheState.setTask_self ..⟩) hgoes
  · simp only [hcheck] at hgoes
    rcases hact : s.cache.act (.drop i) with ⟨cache, events⟩
    rw [stopped_onCache hact] at hgoes
    exact absurd (Or.inl (Option.some_ne_none _)) hgoes

/-- An action of a session that is busy. -/
theorem gets_act_busy {action : FetchAction}
    (hkey : key ∈ (s.cache.tasks i).keys)
    (hgoes : ¬ (s.act blake3 action).Stopped i) :
    (s.act blake3 action).Gets i key := by
  have hstay : s.Gets i key := Or.inr hkey
  have hbusy : ¬ s.Ready i := by
    intro hready
    rw [hready.2] at hkey
    cases hkey
  by_cases hother : sessionOf action = some i
  · cases action with
    | markDirty | snapshot => cases hother
    | prefetch j keys =>
        cases hother
        rwa [act_prefetch_of_busy hbusy]
    | fetch j =>
        cases hother
        rwa [act_fetch_of_busy hbusy]
    | wake j =>
        cases hother
        cases htask : s.cache.tasks i with
        | waiting requests =>
            rw [htask] at hkey
            exact gets_act_wake htask hkey hgoes
        | _ =>
            have hact : s.cache.act (.wake i) = (s.cache, []) := by
              rw [CacheState.act, htask]
            rw [act, actWake, gets_onCache hact]
            exact Or.inr hkey
    | respond j chunks =>
        cases hother
        cases htask : s.cache.tasks i with
        | holding batch batchSize =>
            rw [htask] at hkey
            exact gets_act_respond htask hkey hgoes
        | _ =>
            rw [act, actRespond]
            simp only [htask]
            exact hstay
    | close j =>
        cases hother
        cases htask : s.cache.tasks i with
        | closing event =>
            rw [htask] at hkey
            cases hkey
        | _ =>
            have hact : s.cache.act (.close i) = (s.cache, []) := by
              rw [CacheState.act, htask]
            rw [act, gets_onCache hact]
            exact Or.inr hkey
    | fail j failure =>
        cases hother
        rw [act, actFail] at hgoes ⊢
        cases htask : s.cache.tasks i with
        | waiting | holding =>
            simp only [htask] at hgoes
            rcases hact : s.cache.act (.drop i) with ⟨cache, events⟩
            rw [stopped_onCache hact] at hgoes
            exact absurd (Or.inl (Option.some_ne_none _)) hgoes
        | _ =>
            rw [htask] at hkey
            cases hkey
  · unfold Gets at hstay ⊢
    rwa [(act_other hother).1, (act_other hother).2]

/-- What a session has or gets it goes on to have or to get. -/
theorem gets_act (hinv : CacheInv s.cache) {action : FetchAction}
    (h : s.Gets i key) (hgoes : ¬ (s.act blake3 action).Stopped i) :
    (s.act blake3 action).Gets i key := by
  rcases h with hlocal | hbusy
  · obtain ⟨chunk, hwritten⟩ := WriteMap.containsKey_iff.1 hlocal
    exact Or.inl (WriteMap.containsKey_iff.2 ⟨chunk,
      (act_grow hinv action).kept i key chunk hwritten⟩)
  · exact gets_act_busy hbusy hgoes

/-- No action of anybody loses a key of a session that goes on. -/
theorem tracks_act (hinv : CacheInv s.cache) {action : FetchAction}
    (h : s.Tracks i key) (hgoes : ¬ (s.act blake3 action).Stopped i) :
    (s.act blake3 action).Tracks i key := by
  rcases h with (hlocal | hpending) | hbusy
  · exact (gets_act hinv (Or.inl hlocal) hgoes).tracks
  · by_cases hfetch : action = .fetch i ∧ s.Ready i
    · rw [hfetch.1] at hgoes ⊢
      exact tracks_act_fetch hfetch.2 hpending hgoes
    · by_cases hprefetch : ∃ keys, action = .prefetch i keys
      · obtain ⟨keys, rfl⟩ := hprefetch
        rw [act, actPrefetch]
        split
        case h_1 =>
          refine Or.inl (Or.inr ?_)
          rw [setSession_self]
          exact List.mem_append_left _ hpending
        case h_2 => exact Or.inl (Or.inr hpending)
      · refine Or.inl (Or.inr ?_)
        rwa [pending_act_of_ne (fun keys heq => absurd ⟨keys, heq⟩ hprefetch)
          (fun heq hready => hfetch ⟨heq, hready⟩)]
  · exact (gets_act hinv (Or.inr hbusy) hgoes).tracks

/-- What is prefetched is tracked. -/
theorem tracks_act_prefetch {keys : List ChunkKey} (hready : s.Ready i)
    (hkey : key ∈ keys) : (s.act blake3 (.prefetch i keys)).Has i key := by
  rw [act, actPrefetch]
  simp only [hready.1, hready.2, Has, setSession_self]
  by_cases hlocal : (s.sessions i).localCache.containsKey key = true
  · exact Or.inl hlocal
  · refine Or.inr (List.mem_append_right _ (List.mem_filter.2 ⟨hkey, ?_⟩))
    rw [Bool.not_eq_true] at hlocal
    rw [hlocal]
    rfl

-- ===================================================== one fetch_chunk_batch

/-- A call of `fetch_chunk_batch` that returns `Ok`: the session calls
the cache, and everybody acts until it is ready again. -/
structure FetchReturned (blake3 : Bytes → ChunkKey) (i : Nat)
    (s : FetcherState) (actions : List FetchAction) (s' : FetcherState) :
    Prop where
  called : s.Ready i
  busy : ∀ before action after, actions = before ++ action :: after →
    ¬ (before.foldl (act blake3) (s.act blake3 (.fetch i))).Ready i
  ran : actions.foldl (act blake3) (s.act blake3 (.fetch i)) = s'
  returned : s'.Ready i

/-- While a session is busy its list stays as it is. -/
theorem pending_of_busy {actions : List FetchAction}
    (hbusy : ∀ before action after, actions = before ++ action :: after →
      ¬ (before.foldl (act blake3) s).Ready i) :
    ((actions.foldl (act blake3) s).sessions i).pendingChunks
      = (s.sessions i).pendingChunks := by
  induction actions generalizing s with
  | nil => rfl
  | cons action actions ih =>
      have hnow : ¬ s.Ready i := hbusy [] action actions rfl
      rw [List.foldl_cons, ih, pending_act_of_ne (fun _ _ => hnow)
        (fun _ => hnow)]
      intro before next after heq
      exact hbusy (action :: before) next after (congrArg (action :: ·) heq)

/-- It leaves fewer chunks to ask for. -/
theorem FetchReturned.shortens {actions : List FetchAction}
    {s' : FetcherState} (h : FetchReturned blake3 i s actions s')
    (hne : (s.sessions i).pendingChunks ≠ []) :
    (s'.sessions i).pendingChunks.length
      < (s.sessions i).pendingChunks.length := by
  rw [← h.ran, pending_of_busy h.busy]
  exact pending_act_fetch h.called hne

-- ================================================================ get_chunk

/-- What the loop of `get_chunk` finds. -/
inductive Polled (s : FetcherState) (i : Nat) (key : ChunkKey) :
    Option (Except Fault Bytes) → Prop
  | stopped (hstopped : s.Stopped i) : Polled s i key (some (.error .fetch))
  | found (chunk : Bytes) (hready : s.Ready i)
      (hget : (s.sessions i).localCache.get key = some chunk) :
      Polled s i key (some (.ok chunk))
  | panics (hready : s.Ready i)
      (hget : (s.sessions i).localCache.get key = none)
      (hempty : (s.sessions i).pendingChunks = []) :
      Polled s i key (some (.error (.notPrefetched key)))
  | fetches (hready : s.Ready i)
      (hne : (s.sessions i).pendingChunks ≠ []) : Polled s i key none
  | busy (hbusy : ¬ s.Ready i) (hgoes : ¬ s.Stopped i) :
      Polled s i key none

theorem polled (s : FetcherState) (i : Nat) (key : ChunkKey) :
    Polled s i key (s.poll i key) := by
  unfold poll
  split
  case h_1 hfailed =>
    exact .stopped (Or.inl (hfailed ▸ Option.some_ne_none _))
  case h_2 panic hfailed htask => exact .stopped (Or.inr ⟨panic, htask⟩)
  case h_3 hfailed htask =>
    split
    case h_1 chunk hget => exact .found chunk ⟨hfailed, htask⟩ hget
    case h_2 hget =>
      split
      case isTrue hempty =>
        exact .panics ⟨hfailed, htask⟩ hget (List.isEmpty_iff.1 hempty)
      case isFalse hne =>
        exact .fetches ⟨hfailed, htask⟩ (mt List.isEmpty_iff.2 hne)
  case h_4 hfailed hpanics hidle =>
    refine .busy (fun hready => hidle hready.2) ?_
    rintro (hstopped | ⟨panic, htask⟩)
    · exact hstopped hfailed
    · exact hpanics panic htask

theorem Ready.not_stopped (h : s.Ready i) : ¬ s.Stopped i := by
  rintro (hfailed | ⟨panic, htask⟩)
  · exact hfailed h.1
  · rw [h.2] at htask
    cases htask

/-- While `get_chunk` goes on, no call has failed. -/
theorem not_stopped_of_poll (h : s.poll i key = none) : ¬ s.Stopped i := by
  have hpolled := s.polled i key
  rw [h] at hpolled
  cases hpolled with
  | fetches hready => exact hready.not_stopped
  | busy _ hgoes => exact hgoes

/-- And there is something to ask for where it would ask. -/
theorem pending_of_poll (h : s.poll i key = none) (hready : s.Ready i) :
    (s.sessions i).pendingChunks ≠ [] := by
  have hpolled := s.polled i key
  rw [h] at hpolled
  cases hpolled with
  | fetches _ hne => exact hne
  | busy hbusy => exact absurd hready hbusy

/-- Whether an action is session `i` calling `fetch_chunk_batch`. -/
def callsFetch (s : FetcherState) (i : Nat) : FetchAction → Bool
  | .fetch j =>
      match (s.sessions i).failed, s.cache.tasks i with
      | none, .idle => j == i
      | _, _ => false
  | _ => false

theorem callsFetch_iff {action : FetchAction} :
    s.callsFetch i action = true ↔ action = .fetch i ∧ s.Ready i := by
  cases action with
  | fetch j =>
      rw [callsFetch, Ready]
      split
      case h_1 hfailed htask => simp [hfailed, htask]
      case h_2 hbusy =>
        refine iff_of_false Bool.false_ne_true ?_
        exact fun h => hbusy h.2.1 h.2.2
  | _ => simp [callsFetch]

end FetcherState

/-- The steps of the loop of `get_chunk`: each action with the state it
is taken in. -/
def getChunkSteps (blake3 : Bytes → ChunkKey) (i : Nat) (key : ChunkKey) :
    List FetchAction → FetcherState → List (FetcherState × FetchAction)
  | [], _ => []
  | action :: schedule, s =>
      match s.poll i key with
      | some _ => []
      | none =>
          (s, action) :: getChunkSteps blake3 i key schedule
            (s.act blake3 action)

/-- How many batches `get_chunk` asks for. -/
def getChunkBatches (blake3 : Bytes → ChunkKey) (i : Nat) (key : ChunkKey)
    (schedule : List FetchAction) (s : FetcherState) : Nat :=
  (getChunkSteps blake3 i key schedule s).countP
    fun step => step.1.callsFetch i step.2

/-- How `get_chunk` ends: with bytes that hash to the key, after a call
of `fetch_chunk_batch` that did not return `Ok`, or not at all because
the schedule ends first. In that case a call has not returned, or there
were fewer batches than chunks to ask for. -/
inductive GetEnds (blake3 : Bytes → ChunkKey) (i : Nat) (key : ChunkKey)
    (before after : FetchRun) : Except Fault Bytes → Prop
  | found (chunk : Bytes) (hready : after.state.Ready i)
      (hhash : blake3 chunk = key) : GetEnds blake3 i key before after
        (.ok chunk)
  | failed (hstopped : after.state.Stopped i) :
      GetEnds blake3 i key before after (.error .fetch)
  | goesOn (hschedule : after.schedule = [])
      (hbatches : after.state.Ready i →
        getChunkBatches blake3 i key before.schedule before.state
          < (before.state.sessions i).pendingChunks.length) :
      GetEnds blake3 i key before after (.error .outOfFuel)

/-- What a call of `get_chunk` does, after the keys in `asked` were
prefetched. -/
structure GetOk (blake3 : Bytes → ChunkKey) (i : Nat)
    (asked : List ChunkKey) (key : ChunkKey) (before : FetchRun)
    (result : Except Fault Bytes) (after : FetchRun) : Prop where
  /-- every time the loop comes round -/
  kept : ∀ step ∈ getChunkSteps blake3 i key before.schedule before.state,
    step.1.Ready i → ∀ k ∈ asked, step.1.Has i k
  keptAfter : after.state.Ready i → ∀ k ∈ asked, after.state.Has i k
  batches : getChunkBatches blake3 i key before.schedule before.state
    ≤ (before.state.sessions i).pendingChunks.length
  ends : GetEnds blake3 i key before after result

/-- The keys a session was asked for are there or on their way. -/
structure Tracked (blake3 : Bytes → ChunkKey) (i : Nat)
    (asked : List ChunkKey) (s : FetcherState) : Prop where
  integrity : Integrity blake3 s
  tracks : ¬ s.Stopped i → ∀ k ∈ asked, s.Tracks i k

section Loop

variable {blake3 : Bytes → ChunkKey} {s : FetcherState} {i : Nat}
  {asked : List ChunkKey} {key : ChunkKey}

theorem Tracked.act (h : Tracked blake3 i asked s) (hgoes : ¬ s.Stopped i)
    (action : FetchAction) : Tracked blake3 i asked (s.act blake3 action) :=
  ⟨h.integrity.act action, fun hstill k hk =>
    FetcherState.tracks_act h.integrity.inv (h.tracks hgoes k hk) hstill⟩

theorem Tracked.has (h : Tracked blake3 i asked s) (hready : s.Ready i) :
    ∀ k ∈ asked, s.Has i k :=
  fun k hk => (h.tracks hready.not_stopped k hk).has hready

/-- A call that returns at once. -/
theorem GetOk.of_poll {schedule : List FetchAction}
    {result : Except Fault Bytes} (h : Tracked blake3 i asked s)
    (hkey : key ∈ asked) (hpoll : s.poll i key = some result) :
    GetOk blake3 i asked key ⟨s, schedule⟩ result ⟨s, schedule⟩ := by
  have hsteps : getChunkSteps blake3 i key schedule s = [] := by
    cases schedule with
    | nil => rfl
    | cons action schedule => rw [getChunkSteps, hpoll]
  refine ⟨?_, h.has, ?_, ?_⟩
  · simp [hsteps]
  · simp [getChunkBatches, hsteps]
  · have hpolled := s.polled i key
    rw [hpoll] at hpolled
    cases hpolled with
    | stopped hstopped => exact .failed hstopped
    | found chunk hready hget =>
        exact .found chunk hready (h.integrity.locals i key chunk
          (WriteMap.written_of_get hget))
    | panics hready hget hempty =>
        -- it was prefetched
        rcases h.has hready key hkey with hlocal | hpending
        · rw [WriteMap.containsKey, hget] at hlocal
          cases hlocal
        · rw [hempty] at hpending
          cases hpending

/-- One action more. -/
theorem GetOk.cons {action : FetchAction} {schedule : List FetchAction}
    {result : Except Fault Bytes} {after : FetchRun}
    (h : Tracked blake3 i asked s) (hpoll : s.poll i key = none)
    (hown : ∀ keys, action ≠ .prefetch i keys)
    (hrest : GetOk blake3 i asked key ⟨s.act blake3 action, schedule⟩ result
      after) :
    GetOk blake3 i asked key ⟨s, action :: schedule⟩ result after := by
  have hsteps : getChunkSteps blake3 i key (action :: schedule) s
      = (s, action) :: getChunkSteps blake3 i key schedule
          (s.act blake3 action) := by
    rw [getChunkSteps, hpoll]
  -- a call of the cache takes one from the list
  have hbatches : getChunkBatches blake3 i key (action :: schedule) s
        = getChunkBatches blake3 i key schedule (s.act blake3 action)
      ∧ ((s.act blake3 action).sessions i).pendingChunks.length
        = (s.sessions i).pendingChunks.length
    ∨ getChunkBatches blake3 i key (action :: schedule) s
        = getChunkBatches blake3 i key schedule (s.act blake3 action) + 1
      ∧ ((s.act blake3 action).sessions i).pendingChunks.length
        < (s.sessions i).pendingChunks.length := by
    simp only [getChunkBatches, hsteps]
    by_cases hcalls : s.callsFetch i action = true
    · refine Or.inr ⟨List.countP_cons_of_pos hcalls, ?_⟩
      obtain ⟨rfl, hready⟩ := FetcherState.callsFetch_iff.1 hcalls
      exact FetcherState.pending_act_fetch hready
        (FetcherState.pending_of_poll hpoll hready)
    · refine Or.inl ⟨List.countP_cons_of_neg hcalls, ?_⟩
      rw [FetcherState.pending_act_of_ne
        (fun keys heq => absurd heq (hown keys))
        (fun heq hready => hcalls (FetcherState.callsFetch_iff.2
          ⟨heq, hready⟩))]
  refine ⟨?_, hrest.keptAfter, ?_, ?_⟩
  · rw [hsteps]
    exact List.forall_mem_cons.2 ⟨h.has, hrest.kept⟩
  · have := hrest.batches
    dsimp only at this ⊢
    omega
  · cases hrest.ends with
    | found chunk hready hhash => exact .found chunk hready hhash
    | failed hstopped => exact .failed hstopped
    | goesOn hschedule hfewer =>
        refine .goesOn hschedule fun hready => ?_
        have := hfewer hready
        dsimp only at this ⊢
        omega

/-- The loop of `get_chunk`. -/
theorem getChunkLoop_progress {schedule : List FetchAction}
    {result : Except Fault Bytes} {after : FetchRun}
    (h : Tracked blake3 i asked s) (hkey : key ∈ asked)
    (hown : ∀ keys, .prefetch i keys ∉ schedule)
    (hrun : getChunkLoop blake3 i key schedule s = (result, after)) :
    GetOk blake3 i asked key ⟨s, schedule⟩ result after
    ∧ Tracked blake3 i asked after.state
    ∧ ∀ keys, .prefetch i keys ∉ after.schedule := by
  induction schedule generalizing s with
  | nil =>
      rw [getChunkLoop, waitFor] at hrun
      cases hpoll : s.poll i key with
      | some result =>
          rw [hpoll] at hrun
          cases hrun
          exact ⟨.of_poll h hkey hpoll, h, hown⟩
      | none =>
          rw [hpoll] at hrun
          cases hrun
          refine ⟨⟨?_, h.has, Nat.zero_le _, .goesOn rfl ?_⟩, h, hown⟩
          · exact fun step hstep => absurd hstep List.not_mem_nil
          · exact fun hready => List.length_pos_of_ne_nil
              (FetcherState.pending_of_poll hpoll hready)
  | cons action schedule ih =>
      rw [getChunkLoop, waitFor] at hrun
      cases hpoll : s.poll i key with
      | some result =>
          rw [hpoll] at hrun
          cases hrun
          exact ⟨.of_poll h hkey hpoll, h, hown⟩
      | none =>
          rw [hpoll] at hrun
          have hgoes := FetcherState.not_stopped_of_poll hpoll
          obtain ⟨hget, hafter⟩ := ih (h.act hgoes action)
            (fun keys hmem => hown keys (List.mem_cons_of_mem _ hmem)) hrun
          refine ⟨hget.cons h hpoll ?_, hafter⟩
          rintro keys rfl
          exact hown keys (List.mem_cons_self ..)

end Loop

-- ================================================================ the calls

/-- A call of a provider, from one state to another. -/
inductive CallRecord (σ : Type)
  | prefetch (keys : List ChunkKey) (before after : σ)
  | getChunk (key : ChunkKey) (before : σ) (result : Except Fault Bytes)
      (after : σ)

/-- The keys a call prefetches. -/
def CallRecord.keys {σ : Type} : CallRecord σ → List ChunkKey
  | .prefetch keys _ _ => keys
  | .getChunk _ _ _ _ => []

/-- The keys some calls prefetched. -/
def prefetched {σ : Type} (calls : List (CallRecord σ)) : List ChunkKey :=
  calls.flatMap CallRecord.keys

theorem prefetched_snoc {σ : Type} (calls : List (CallRecord σ))
    (call : CallRecord σ) :
    prefetched (calls ++ [call]) = prefetched calls ++ call.keys := by
  simp [prefetched]

/-- A run with the calls made in it, and the state of who consumes the
data. -/
structure Observed (σ ω : Type) where
  state : σ
  calls : List (CallRecord σ)
  consumer : ω

section Observe

variable {σ ω : Type}

/-- A provider whose calls are recorded. -/
def ChunkProvider.observed (ω : Type)
    (provider : ChunkProvider (ExceptT Fault (StateM σ))) :
    ChunkProvider (ExceptT Fault (StateM (Observed σ ω))) where
  prefetch keys := ExceptT.mk fun o =>
    let run := (provider.prefetch keys).run o.state
    (run.1, { o with
      state := run.2, calls := o.calls ++ [.prefetch keys o.state run.2] })
  getChunk key := ExceptT.mk fun o =>
    let run := (provider.getChunk key).run o.state
    (run.1, { o with
      state := run.2
      calls := o.calls ++ [.getChunk key o.state run.1 run.2] })

theorem ChunkProvider.observed_getChunk
    {provider : ChunkProvider (ExceptT Fault (StateM σ))}
    {o : Observed σ ω} {key : ChunkKey} {result : Except Fault Bytes}
    {after : σ} (h : (provider.getChunk key).run o.state = (result, after)) :
    ((provider.observed ω).getChunk key).run o
      = (result, { o with
          state := after
          calls := o.calls ++ [.getChunk key o.state result after] }) := by
  obtain ⟨rfl, rfl⟩ := Prod.mk.inj h
  rfl

/-- A consumer, which may stop the stream. -/
def observedConsumer (consume : Bytes → ω → Except Fault ω) (chunk : Bytes) :
    ExceptT Fault (StateM (Observed σ ω)) Unit :=
  ExceptT.mk fun o =>
    match consume chunk o.consumer with
    | .ok consumer => (.ok (), { o with consumer := consumer })
    | .error e => (.error e, o)

end Observe

/-- What a session is for. -/
inductive ReadTask
  | metadata (chunkLists : List ChunkList)
  | data (chunkList : ChunkList)

section Tasks

variable {m : Type → Type} [Monad m] [MonadExceptOf Fault m]

/-- `prefetch_metadata_chunks` and `reconstruct_data`, one after
another. -/
def runTasks (provider : ChunkProvider m) (yield : Bytes → m Unit)
    (fuel : Nat) : List ReadTask → m Unit
  | [] => pure ()
  | .metadata chunkLists :: tasks => do
      prefetchMetadataChunks provider fuel chunkLists
      runTasks provider yield fuel tasks
  | .data chunkList :: tasks => do
      reconstructData provider yield fuel chunkList
      runTasks provider yield fuel tasks

/-- They keep what their calls keep. -/
theorem Reads.tasks {τ : Type} {L : Logic Fault τ m}
    {provider : ChunkProvider m} {yield : Bytes → m Unit}
    {I : ReadLog → τ → Prop} {err : Fault → Prop}
    (hreads : Reads L provider I err) (hyield : Consumes L yield I err)
    (fuel : Nat) (tasks : List ReadTask) (log : ReadLog) :
    L.Meets (I log) (runTasks provider yield fuel tasks)
      (fun _ t => ∃ log', I log' t) err := by
  induction tasks generalizing log with
  | nil => exact L.pure fun t ht => ⟨log, ht⟩
  | cons task tasks ih =>
      cases task with
      | metadata chunkLists =>
          apply L.bind (hreads.metadata fuel chunkLists log)
          intro _
          exact L.cases fun log' => L.assume fun _ => ih log'
      | data chunkList =>
          apply L.bind (hreads.data hyield fuel chunkList log)
          intro _
          exact L.cases fun log' => L.cases fun data => L.assume fun _ =>
            L.assume fun _ => ih log'

end Tasks

/-- The calls a session makes. -/
def sessionCalls {ω : Type} (blake3 : Bytes → ChunkKey) (i : Nat)
    (consume : Bytes → ω → Except Fault ω) (consumer : ω) (fuel : Nat)
    (tasks : List ReadTask) (start : FetchRun) :
    List (CallRecord FetchRun) :=
  ((runTasks ((fetchProvider blake3 i).observed ω)
    (observedConsumer consume) fuel tasks).run
    ⟨start, [], consumer⟩).2.calls

/-- What a call does, after the keys in `asked` were prefetched. -/
def CallOk (blake3 : Bytes → ChunkKey) (i : Nat) (asked : List ChunkKey) :
    CallRecord FetchRun → Prop
  | .prefetch _ _ after =>
      after.state.Ready i ∧ ∀ k ∈ asked, after.state.Has i k
  | .getChunk key before result after =>
      GetOk blake3 i asked key before result after

/-- Every call of a run so far. -/
def CallsOk (blake3 : Bytes → ChunkKey) (i : Nat)
    (calls : List (CallRecord FetchRun)) : Prop :=
  ∀ earlier call, earlier ++ [call] <+: calls →
    CallOk blake3 i (prefetched (earlier ++ [call])) call

section Calls

variable {ω : Type} {blake3 : Bytes → ChunkKey} {i : Nat}

theorem CallsOk.snoc {calls : List (CallRecord FetchRun)}
    {call : CallRecord FetchRun} (h : CallsOk blake3 i calls)
    (hcall : CallOk blake3 i (prefetched (calls ++ [call])) call) :
    CallsOk blake3 i (calls ++ [call]) := by
  intro earlier last hlast
  rcases List.prefix_concat_iff.1 hlast with heq | hmore
  · obtain ⟨rfl, hone⟩ := List.append_inj' heq rfl
    cases hone
    exact hcall
  · exact h earlier last hmore

/-- Between two calls of a session. -/
structure BetweenCalls (blake3 : Bytes → ChunkKey) (i : Nat) (log : ReadLog)
    (o : Observed FetchRun ω) : Prop where
  tracked : Tracked blake3 i (prefetched o.calls) o.state.state
  ready : o.state.state.Ready i
  own : ∀ keys, .prefetch i keys ∉ o.state.schedule
  asked : ∀ k, log.asked k → k ∈ prefetched o.calls

/-- Prefetching. -/
theorem Tracked.prefetch {s : FetcherState} {asked : List ChunkKey}
    (h : Tracked blake3 i asked s) (hready : s.Ready i)
    (keys : List ChunkKey) :
    (s.act blake3 (.prefetch i keys)).Ready i
    ∧ Tracked blake3 i (asked ++ keys) (s.act blake3 (.prefetch i keys)) := by
  have hready' : (s.act blake3 (.prefetch i keys)).Ready i := by
    rw [FetcherState.act, FetcherState.actPrefetch]
    simp only [hready.1, hready.2]
    refine ⟨?_, hready.2⟩
    rw [FetcherState.setSession_self]
  have hold := h.act hready.not_stopped (.prefetch i keys)
  refine ⟨hready', hold.integrity, fun hgoes k hk => ?_⟩
  rcases List.mem_append.1 hk with hk | hk
  · exact hold.tracks hgoes k hk
  · exact Or.inl (FetcherState.tracks_act_prefetch hready hk)

/-- What the calls of a session do. -/
theorem fetchProvider_reads (ω : Type) (blake3 : Bytes → ChunkKey)
    (i : Nat) :
    Reads (Faults.alwaysLogic Fault fun o : Observed FetchRun ω =>
        CallsOk blake3 i o.calls)
      ((fetchProvider blake3 i).observed ω) (BetweenCalls blake3 i)
      (fun _ => True) where
  prefetch log keys := by
    intro o hcalls ho
    obtain ⟨hready, htracked⟩ := ho.tracked.prefetch ho.ready keys
    refine ⟨hcalls.snoc ⟨hready, ?_⟩, ?_, hready, ho.own, ?_⟩
    · rw [prefetched_snoc]
      exact htracked.has hready
    · change Tracked blake3 i (prefetched (o.calls ++ [_])) _
      rw [prefetched_snoc]
      exact htracked
    · intro k hk
      change k ∈ prefetched (o.calls ++ [_])
      rw [prefetched_snoc]
      exact List.mem_append.2 (hk.imp_left (ho.asked k))
  getChunk log key hkey := by
    intro o hcalls ho
    rcases hrun : ((fetchProvider blake3 i).getChunk key).run o.state
      with ⟨result, after⟩
    obtain ⟨hget, htracked, hown⟩ := getChunkLoop_progress ho.tracked
      (ho.asked key hkey) ho.own hrun
    have hasked : prefetched
        (o.calls ++ [CallRecord.getChunk key o.state result after])
        = prefetched o.calls := by
      rw [prefetched_snoc]
      exact List.append_nil _
    have hcalls' : CallsOk blake3 i
        (o.calls ++ [.getChunk key o.state result after]) := by
      apply hcalls.snoc
      rw [hasked]
      exact hget
    rw [ChunkProvider.observed_getChunk hrun]
    cases result with
    | error e => exact ⟨hcalls', trivial⟩
    | ok chunk =>
        cases hget.ends with
        | found _ hready =>
            refine ⟨hcalls', ?_, hready, hown, ?_⟩
            · exact hasked.symm ▸ htracked
            · intro k hk
              rw [hasked]
              exact ho.asked k hk
  tryGet _ := trivial
  outOfFuel := trivial

theorem observedConsumer_consumes
    (consume : Bytes → ω → Except Fault ω) :
    Consumes (Faults.alwaysLogic Fault fun o : Observed FetchRun ω =>
        CallsOk blake3 i o.calls)
      (observedConsumer consume) (BetweenCalls blake3 i) (fun _ => True) := by
  intro log chunk o hcalls ho
  cases hconsume : consume chunk o.consumer with
  | error e =>
      have hrun : (observedConsumer consume chunk).run o = (.error e, o) := by
        simp only [observedConsumer, ExceptT.run_mk, hconsume]
      rw [hrun]
      exact ⟨hcalls, trivial⟩
  | ok consumer =>
      have hrun : (observedConsumer consume chunk).run o
          = (.ok (), { o with consumer := consumer }) := by
        simp only [observedConsumer, ExceptT.run_mk, hconsume]
      rw [hrun]
      exact ⟨hcalls, ho.tracked, ho.ready, ho.own, ho.asked⟩

end Calls

/-- Whatever the other tasks do, and as long as each call of
`fetch_chunk_batch` returns `Ok`: such a call with chunks to ask for
leaves fewer of them, and in a session that runs
`prefetch_metadata_chunks` and `reconstruct_data` every key prefetched so
far is in the local cache or among the chunks to ask for, at each point
between two calls, and `get_chunk` does not panic, asks for no more
batches than there are chunks to ask for, and returns bytes that hash to
the key. -/
theorem prefetch_then_get_progresses (blake3 : Bytes → ChunkKey) :
    (∀ i s actions s', FetcherState.FetchReturned blake3 i s actions s' →
      (s.sessions i).pendingChunks ≠ [] →
      (s'.sessions i).pendingChunks.length
        < (s.sessions i).pendingChunks.length)
    ∧ ∀ (ω : Type) (consume : Bytes → ω → Except Fault ω) (consumer : ω)
        (i : Nat) (s : FetcherState) (schedule : List FetchAction)
        (fuel : Nat) (tasks : List ReadTask),
      Reachable blake3 s → s.sessions i = Session.new →
      s.cache.tasks i = .idle → (∀ keys, .prefetch i keys ∉ schedule) →
      CallsOk blake3 i
        (sessionCalls blake3 i consume consumer fuel tasks
          ⟨s, schedule⟩) := by
  refine ⟨fun i s actions s' h => h.shortens, ?_⟩
  intro ω consume consumer i s schedule fuel tasks hs hnew hidle hown
  have hready : s.Ready i := ⟨by rw [hnew]; rfl, hidle⟩
  have hstart : BetweenCalls blake3 i .start
      (⟨⟨s, schedule⟩, [], consumer⟩ : Observed FetchRun ω) :=
    ⟨⟨hs.integrity, fun _ => nofun⟩, hready, hown, fun _ => False.elim⟩
  have hnone : CallsOk blake3 i [] := by
    intro earlier call h
    exact absurd (List.prefix_nil.1 h) (by simp)
  exact ((fetchProvider_reads ω blake3 i).tasks
    (observedConsumer_consumes consume) fuel tasks .start _ hnone hstart).1

/-- The chunk is prefetched twice and then fetched from the server. -/
def oneChunkCalls : List (CallRecord FetchRun) :=
  sessionCalls blake3Sample 0 (fun _ (n : Nat) => .ok (n + 1)) 0 2
    [.metadata [oneChunkList], .data oneChunkList]
    ⟨.ofCache (.new 10), [.fetch 0, .respond 0 [[0]], .close 0]⟩

/-- The session when it has prefetched it, and when it has fetched it. -/
def oneChunkAsked : FetcherState :=
  (FetcherState.ofCache (.new 10)).act blake3Sample
    (.prefetch 0 [blake3Sample [0]])

def oneChunkFetched : FetcherState :=
  [.respond 0 [[0]], .close 0].foldl (FetcherState.act blake3Sample)
    (oneChunkAsked.act blake3Sample (.fetch 0))

theorem fetchReturned_oneChunk :
    FetcherState.FetchReturned blake3Sample 0 oneChunkAsked
      [.respond 0 [[0]], .close 0] oneChunkFetched := by
  refine ⟨⟨rfl, rfl⟩, ?_, rfl, ⟨rfl, rfl⟩⟩
  intro before action after heq
  rcases before with _ | ⟨first, _ | ⟨second, before⟩⟩
  · exact fun hready => by cases hready.2
  · cases heq
    exact fun hready => by cases hready.2
  · cases before <;> cases heq

theorem prefetch_then_get_progresses_oneChunkList :
    (oneChunkFetched.sessions 0).pendingChunks.length < 1
    ∧ CallsOk blake3Sample 0 oneChunkCalls
    ∧ ∃ first second before after, oneChunkCalls
      = [first, second, .getChunk (blake3Sample [0]) before (.ok [0]) after]
    := by
  obtain ⟨hshort, hcalls⟩ := prefetch_then_get_progresses blake3Sample
  refine ⟨?_, ?_, _, _, _, _, rfl⟩
  · exact hshort 0 oneChunkAsked _ _ fetchReturned_oneChunk
      (List.cons_ne_nil _ _)
  · exact hcalls Nat _ 0 0 _ _ 2 _ ⟨10, none, .new 10, [], [], rfl, rfl⟩
      rfl rfl (by simp)

end FactoryCacher
