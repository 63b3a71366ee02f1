/-
Fetching chunks (common/src/protocol_utils.rs): `ChunkFetcherProvider`
over the shared chunk cache.

# Sessions

A session is one provider, with its local cache and its list of chunks
to ask for. Session `i` is task `i` of the cache machine: what it does
to the shared cache are actions of that machine, so a run of sessions is
a run of the machine with something added (`FetcherState.onCache`).

An action is one stretch of `fetch_chunk_batch` between two awaits:
asking the cache, waking up from a wait, the decoded response coming in
(`respond`, the check of the hashes and the critical section of
`fulfill` in one), closing the event. `fail` is every other way out of
it: an error before the response is there, a panic over the size of a
message, or the task being cancelled. The server is whatever the
`respond` actions say. A session that failed does nothing more.

# The provider

`getChunk` is a loop that waits for the session to get somewhere while
everybody else goes on (`waitFor` of Lib/Settling.lean). It consumes a
schedule: the actions of all sessions, its own included, in the order
they happen. The schedule is finite; that it ends before the chunk is
there is the model's `outOfFuel`. The number of bytes transferred is left
out.
-/
import FactoryCacher.Lib.Settling
import FactoryCacher.Common.ChunkCache

namespace FactoryCacher

-- ================================================================ sessions

/-- Why a fetch did not complete. -/
inductive FetchFailure
  | encodeRequest
  | writeRequest
  | readResponse
  | decodeResponse
  /-- the panic "Message size exceeded limit" -/
  | messageSize
  /-- the task is dropped while it waits -/
  | cancelled
  /-- "Chunk hash mismatch for {:?}" -/
  | hashMismatch (key : ChunkKey)

/-- The fields of `ChunkFetcherProvider` that are its own, and how it
failed. -/
structure Session where
  localCache : ChunkMap
  pendingChunks : List ChunkKey
  failed : Option FetchFailure

/-- `ChunkFetcherProvider::new`. -/
def Session.new : Session where
  localCache := WriteMap.empty
  pendingChunks := []
  failed := none

structure FetcherState where
  cache : CacheState
  sessions : Nat → Session

inductive FetchAction
  | prefetch (session : Nat) (chunks : List ChunkKey)
  | fetch (session : Nat)
  | wake (session : Nat)
  | respond (session : Nat) (chunks : List Bytes)
  | fail (session : Nat) (failure : FetchFailure)
  | close (session : Nat)
  | markDirty
  | snapshot

/-- The batch size of `fetch_chunk_batch`. -/
def fetchBatchSize : Nat := 512

/-- Write the chunks of a call into the local cache. -/
def deliver (events : List CacheEvent) (localCache : ChunkMap) : ChunkMap :=
  events.foldl (fun localCache event =>
    match event with
    | .found _ key chunk => localCache.insert key chunk
    | .insertedTwice _ => localCache) localCache

/-- The check of the response: the local cache with the chunks up to the
first whose hash is wrong, and that chunk's key. -/
def checkResponse (blake3 : Bytes → ChunkKey) :
    List (ChunkKey × Bytes) → ChunkMap → ChunkMap × Option ChunkKey
  | [], localCache => (localCache, none)
  | (key, chunk) :: rest, localCache =>
      if blake3 chunk ≠ key then (localCache, some key)
      else checkResponse blake3 rest (localCache.insert key chunk)

namespace FetcherState

/-- The sessions around a cache, none of them begun. -/
def ofCache (cache : CacheState) : FetcherState where
  cache := cache
  sessions := fun _ => Session.new

def setSession (s : FetcherState) (i : Nat) (session : Session) :
    FetcherState :=
  { s with sessions := Function.update s.sessions i session }

/-- A session acts on the cache and goes on from what the cache told
it. -/
def onCache (s : FetcherState) (action : CacheAction) (i : Nat)
    (next : List CacheEvent → Session) : FetcherState :=
  { s with cache := (s.cache.act action).1 }.setSession i
    (next (s.cache.act action).2)

/-- `ChunkProvider::prefetch`. -/
def actPrefetch (s : FetcherState) (i : Nat) (chunks : List ChunkKey) :
    FetcherState :=
  let session := s.sessions i
  match session.failed, s.cache.tasks i with
  | none, .idle =>
      s.setSession i { session with
        pendingChunks := session.pendingChunks
          ++ chunks.filter fun key => !session.localCache.containsKey key }
  | _, _ => s

/-- The call of `get_chunks_batched`. -/
def actFetch (s : FetcherState) (i : Nat) : FetcherState :=
  let session := s.sessions i
  match session.failed, s.cache.tasks i with
  | none, .idle =>
      s.onCache (.call i session.pendingChunks fetchBatchSize) i
        fun events => { session with
          localCache := deliver events session.localCache
          pendingChunks := (getChunksBatched s.cache.inner
            session.pendingChunks fetchBatchSize
            s.cache.nextEvent).remaining }
  | _, _ => s

/-- The end of the wait in `get_chunks_batched`. -/
def actWake (s : FetcherState) (i : Nat) : FetcherState :=
  let session := s.sessions i
  s.onCache (.wake i) i fun events => { session with
    localCache := deliver events session.localCache }

/-- The response: its chunks are checked and kept, and if all are right
the batch is fulfilled with them. -/
def actRespond (blake3 : Bytes → ChunkKey) (s : FetcherState) (i : Nat)
    (chunks : List Bytes) : FetcherState :=
  let session := s.sessions i
  match s.cache.tasks i with
  | .holding batch _ =>
      match checkResponse blake3 (batch.batchKeys.zip chunks)
          session.localCache with
      | (localCache, some key) =>
          s.onCache (.drop i) i fun _ => { session with
            localCache := localCache, failed := some (.hashMismatch key) }
      | (localCache, none) =>
          s.onCache (.fulfill i chunks) i fun _ => { session with
            localCache := localCache }
  | _ => s

/-- Any other way out. Between the critical section of `fulfill` and the
closing of the event there is none. -/
def actFail (s : FetcherState) (i : Nat) (failure : FetchFailure) :
    FetcherState :=
  let failed := { s.sessions i with failed := some failure }
  match s.cache.tasks i with
  | .closing _ => s
  | .panicked _ => s
  | .idle => s.setSession i failed
  | .waiting _ => s.onCache (.drop i) i fun _ => failed
  | .holding _ _ => s.onCache (.drop i) i fun _ => failed

/-- One action. -/
def act (blake3 : Bytes → ChunkKey) (s : FetcherState) :
    FetchAction → FetcherState
  | .prefetch i chunks => s.actPrefetch i chunks
  | .fetch i => s.actFetch i
  | .wake i => s.actWake i
  | .respond i chunks => s.actRespond blake3 i chunks
  | .fail i failure => s.actFail i failure
  | .close i => s.onCache (.close i) i fun _ => s.sessions i
  | .markDirty => { s with cache := (s.cache.act .markDirty).1 }
  | .snapshot => { s with cache := (s.cache.act .snapshot).1 }

/-- The machine; it emits nothing. -/
def step (blake3 : Bytes → ChunkKey) (s : FetcherState)
    (action : FetchAction) : Option (FetcherState × List Empty) :=
  some (s.act blake3 action, [])

/-- Where a session's `get_chunk` stands: `none` while its fetch goes
on. -/
def poll (s : FetcherState) (i : Nat) (key : ChunkKey) :
    Option (Except Fault Bytes) :=
  match (s.sessions i).failed, s.cache.tasks i with
  | some _, _ => some (.error .fetch)
  | none, .panicked _ => some (.error .fetch)
  | none, .idle =>
      match (s.sessions i).localCache.get key with
      | some chunk => some (.ok chunk)
      | none =>
          if (s.sessions i).pendingChunks.isEmpty then
            some (.error (.notPrefetched key))
          else none
  | none, _ => none

end FetcherState

-- ============================================================ the provider

/-- The sessions and what they are going to do. -/
abbrev FetchRun := Scheduled FetcherState FetchAction

/-- `ChunkProvider::get_chunk`. -/
def getChunkLoop (blake3 : Bytes → ChunkKey) (i : Nat) (key : ChunkKey) :
    List FetchAction → FetcherState → Except Fault Bytes × FetchRun :=
  waitFor .outOfFuel (FetcherState.poll · i key)
    (FetcherState.act blake3)

/-- `impl ChunkProvider for ChunkFetcherProvider`, for session `i`. -/
def fetchProvider (blake3 : Bytes → ChunkKey) (i : Nat) :
    ChunkProvider (ExceptT Fault (StateM FetchRun)) where
  prefetch chunks := modify fun run =>
    { run with state := run.state.act blake3 (.prefetch i chunks) }
  getChunk key := ExceptT.mk fun run =>
    getChunkLoop blake3 i key run.schedule run.state

end FactoryCacher
