/-
Fetching sessions are tasks of the cache machine.

`cacheAction` names the action of the cache machine an action of the
sessions takes, if any, and `act_cache` says the cache after it is the
cache after that: forgetting the sessions turns a run of sessions into a
run of the cache machine. What the machine keeps in every run it
therefore keeps under any number of sessions (`inv_act`), and what the
sessions add are the lemmas about their local caches at the end.
-/
import FactoryCacher.Common.Fetcher
import FactoryCacher.Common.Proofs.CacheMachine

namespace FactoryCacher

variable {blake3 : Bytes → ChunkKey}

-- ======================================================== local caches

/-- The response passes when every chunk hashes to its key. -/
theorem checkResponse_eq_none_iff {entries : List (ChunkKey × Bytes)}
    {localCache : ChunkMap} :
    (checkResponse blake3 entries localCache).2 = none
      ↔ ∀ e ∈ entries, blake3 e.2 = e.1 := by
  induction entries generalizing localCache with
  | nil => simp [checkResponse]
  | cons e entries ih =>
      obtain ⟨key, chunk⟩ := e
      rw [checkResponse, List.forall_mem_cons]
      by_cases hkey : blake3 chunk = key
      · rw [if_neg (not_not.2 hkey), ih, and_iff_right hkey]
      · rw [if_pos hkey]
        exact iff_of_false (Option.some_ne_none _) (hkey ∘ And.left)

/-- What a response adds to a local cache hashes to its key. -/
theorem written_checkResponse {entries : List (ChunkKey × Bytes)}
    {localCache : ChunkMap} {key : ChunkKey} {chunk : Bytes}
    (h : (checkResponse blake3 entries localCache).1.Written key chunk) :
    localCache.Written key chunk ∨ blake3 chunk = key := by
  induction entries generalizing localCache with
  | nil => exact Or.inl h
  | cons e entries ih =>
      obtain ⟨k, c⟩ := e
      rw [checkResponse] at h
      by_cases hkey : blake3 c = k
      · rw [if_neg (not_not.2 hkey)] at h
        rcases ih h with h | h
        · rcases (WriteMap.written_insert ..).1 h with ⟨rfl, rfl⟩ | h
          · exact Or.inr hkey
          · exact Or.inl h
        · exact Or.inr h
      · rw [if_pos hkey] at h
        exact Or.inl h

/-- A response only adds. -/
theorem written_checkResponse_of_written
    {entries : List (ChunkKey × Bytes)} {localCache : ChunkMap}
    {key : ChunkKey} {chunk : Bytes} (h : localCache.Written key chunk) :
    (checkResponse blake3 entries localCache).1.Written key chunk := by
  induction entries generalizing localCache with
  | nil => exact h
  | cons e entries ih =>
      obtain ⟨k, c⟩ := e
      rw [checkResponse]
      by_cases hkey : blake3 c = k
      · rw [if_neg (not_not.2 hkey)]
        exact ih ((WriteMap.written_insert ..).2 (Or.inr h))
      · rw [if_pos hkey]
        exact h

/-- What a call of the cache adds are the chunks it found. -/
theorem written_deliver {events : List CacheEvent} {localCache : ChunkMap}
    {key : ChunkKey} {chunk : Bytes} :
    (deliver events localCache).Written key chunk
      ↔ localCache.Written key chunk
        ∨ ∃ task, .found task key chunk ∈ events := by
  unfold deliver
  induction events generalizing localCache with
  | nil => simp
  | cons event events ih =>
      rw [List.foldl_cons, ih]
      cases event with
      | found task k c =>
          dsimp only
          rw [WriteMap.written_insert]
          simp only [List.mem_cons, CacheEvent.found.injEq, exists_or]
          constructor
          · rintro ((⟨rfl, rfl⟩ | h) | h)
            · exact Or.inr (Or.inl ⟨task, rfl, rfl, rfl⟩)
            · exact Or.inl h
            · exact Or.inr (Or.inr h)
          · rintro (h | ⟨t, rfl, rfl, rfl⟩ | h)
            · exact Or.inl (Or.inr h)
            · exact Or.inl (Or.inl ⟨rfl, rfl⟩)
            · exact Or.inr h
      | insertedTwice k => simp

-- ========================================================= the simulation

namespace FetcherState

variable {s : FetcherState}

/-- What an action does on the cache. -/
def cacheAction (blake3 : Bytes → ChunkKey) (s : FetcherState) :
    FetchAction → Option CacheAction
  | .prefetch _ _ => none
  | .fetch i =>
      match (s.sessions i).failed, s.cache.tasks i with
      | none, .idle =>
          some (.call i (s.sessions i).pendingChunks fetchBatchSize)
      | _, _ => none
  | .wake i => some (.wake i)
  | .respond i chunks =>
      match s.cache.tasks i with
      | .holding batch _ =>
          match (checkResponse blake3 (batch.batchKeys.zip chunks)
              (s.sessions i).localCache).2 with
          | some _ => some (.drop i)
          | none => some (.fulfill i chunks)
      | _ => none
  | .fail i _ =>
      match s.cache.tasks i with
      | .waiting _ => some (.drop i)
      | .holding _ _ => some (.drop i)
      | _ => none
  | .close i => some (.close i)
  | .markDirty => some .markDirty
  | .snapshot => some .snapshot

/-- The cache after one of its actions, or none. -/
def cacheAfter (cache : CacheState) : Option CacheAction → CacheState
  | none => cache
  | some action => (cache.act action).1

/-- Forgetting the sessions. -/
theorem act_cache (blake3 : Bytes → ChunkKey) (s : FetcherState)
    (action : FetchAction) :
    (s.act blake3 action).cache
      = cacheAfter s.cache (s.cacheAction blake3 action) := by
  cases action with
  | prefetch i chunks =>
      rw [act, actPrefetch]
      split <;> rfl
  | fetch i =>
      rw [act, actFetch, cacheAction]
      cases hfailed : (s.sessions i).failed with
      | some failure => rfl
      | none => cases s.cache.tasks i <;> rfl
  | wake | close | markDirty | snapshot => rfl
  | respond i chunks =>
      rw [act, actRespond, cacheAction]
      cases s.cache.tasks i with
      | holding batch batchSize =>
          dsimp only
          rcases checkResponse blake3 (batch.batchKeys.zip chunks)
            (s.sessions i).localCache with ⟨localCache, _ | key⟩
          · rfl
          · rfl
      | _ => rfl
  | fail i failure =>
      rw [act, actFail, cacheAction]
      cases s.cache.tasks i <;> rfl

/-- The cache's invariant, whatever the sessions do. -/
theorem inv_act (h : CacheInv s.cache) (action : FetchAction) :
    CacheInv (s.act blake3 action).cache := by
  rw [act_cache]
  cases s.cacheAction blake3 action with
  | none => exact h
  | some cacheAction => exact h.act cacheAction

end FetcherState

end FactoryCacher
