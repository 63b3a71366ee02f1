/-
The shared chunk cache (common/src/chunk_cache.rs).

# The cache

`RawChunkCache` is the least-recently-used store: entries from the least
to the most recently used, and their total size on `u64`, which wraps.
`ChunkCacheInner` adds `pending_chunks`: the keys being fetched, each
with the event (a closed semaphore) that tells when it is there.

# Critical sections

Everything under the lock is one function: the first half of
`get_chunks_batched` (`getChunksBatched`), its second half after the
wait (`takeWaited`), the loop of `fulfill` (`fulfillLoop`). Each runs to
its end or panics; a panic under the lock poisons it.

# The machine

`CacheState` is the cache with the tasks that use it. A task is idle,
waits for the events of a call, holds a batch it must fetch, is about to
close the event of a batch it fulfilled, or has panicked. An action is
one critical section of one task, or the closing of an event, which
happens outside the lock, or a task giving up (`drop`: an error or a
cancellation). Actions that are not possible in a state leave it
unchanged, so every list of actions is a schedule. A task that does
several of these things at once is several tasks.

A batch remembers the size it was asked with; the source does not keep
it. Of the file work only what is in a cache file is here
(`readChunkCache`, `writeChunkCache`); the compression is a parameter.
-/
import FactoryCacher.Lib.Machine
import FactoryCacher.Common.Dedup

namespace FactoryCacher

-- ============================================================= the raw cache

structure RawChunkCache where
  chunks : LinkedMap ChunkKey Bytes
  totalSize : UInt64
  maxSize : UInt64

namespace RawChunkCache

def new (maxSize : UInt64) : RawChunkCache where
  chunks := LinkedMap.empty
  totalSize := 0
  maxSize := maxSize

/-- The eviction loop of `insert`. A turn removes one entry, so the
number of entries bounds the turns; `none` is the `unwrap` of
`pop_front` on an empty map. -/
def evictLoop (maxSize : UInt64) :
    Nat → LinkedMap ChunkKey Bytes → UInt64 →
    Option (LinkedMap ChunkKey Bytes × UInt64)
  | 0, chunks, totalSize =>
      if totalSize > maxSize then none else some (chunks, totalSize)
  | turns + 1, chunks, totalSize =>
      if totalSize > maxSize then
        match chunks.popFront with
        | none => none
        | some (evicted, chunks) =>
            evictLoop maxSize turns chunks
              (totalSize - UInt64.ofNat evicted.2.length)
      else some (chunks, totalSize)

/-- The total size after an entry replaced `old`. -/
def grownSize (totalSize : UInt64) (chunk : Bytes) (old : Option Bytes) :
    UInt64 :=
  match old with
  | none => totalSize + UInt64.ofNat chunk.length
  | some oldChunk =>
      totalSize + UInt64.ofNat chunk.length - UInt64.ofNat oldChunk.length

/-- `RawChunkCache::insert`. -/
def insert (c : RawChunkCache) (key : ChunkKey) (chunk : Bytes) :
    Option RawChunkCache :=
  match c.chunks.insert key chunk with
  | (old, chunks) =>
      match evictLoop c.maxSize chunks.len chunks
          (grownSize c.totalSize chunk old) with
      | none => none
      | some (chunks, totalSize) =>
          some { c with chunks := chunks, totalSize := totalSize }

/-- `RawChunkCache::get`. -/
def get (c : RawChunkCache) (key : ChunkKey) :
    Option Bytes × RawChunkCache :=
  ((c.chunks.toBack key).1, { c with chunks := (c.chunks.toBack key).2 })

end RawChunkCache

-- =============================================================== cache files

/-- The limit on a chunk's length in a cache file. -/
def cachedChunkLimit : Nat := 20000000

inductive CacheFileError
  /-- the contents end early -/
  | unexpectedEof
  /-- "Chunk length too large: {}" -/
  | chunkTooLarge (chunkLength : UInt32)
  /-- the panic of `insert` -/
  | insert
  deriving DecidableEq, Repr

/-- One entry of a cache file: its key and its data. -/
def readCacheEntry (contents : Bytes) :
    Except CacheFileError ((ChunkKey × Bytes) × Bytes) :=
  match tryGetKey contents with
  | .error _ => .error .unexpectedEof
  | .ok (chunkKey, contents) =>
      match tryGetU32Le contents with
      | .error _ => .error .unexpectedEof
      | .ok (chunkLength, contents) =>
          if chunkLength.toNat > cachedChunkLimit then
            .error (.chunkTooLarge chunkLength)
          else
            match tryTake chunkLength.toNat contents with
            | .error _ => .error .unexpectedEof
            | .ok (chunkData, contents) =>
                .ok ((chunkKey, chunkData), contents)

/-- The loop of `read_chunk_cache`; an entry whose data does not hash to
its key is skipped. -/
def readCacheEntries (blake3 : Bytes → ChunkKey) :
    Nat → Bytes → RawChunkCache → Except CacheFileError RawChunkCache
  | 0, _, cache => .ok cache
  | n + 1, contents, cache =>
      match readCacheEntry contents with
      | .error e => .error e
      | .ok ((chunkKey, chunkData), contents) =>
          if blake3 chunkData = chunkKey then
            match cache.insert chunkKey chunkData with
            | none => .error .insert
            | some cache => readCacheEntries blake3 n contents cache
          else readCacheEntries blake3 n contents cache

/-- `read_chunk_cache`, on the decompressed contents of the file. -/
def readChunkCache (blake3 : Bytes → ChunkKey) (contents : Bytes)
    (cache : RawChunkCache) : Except CacheFileError RawChunkCache :=
  match tryGetU32Le contents with
  | .error _ => .error .unexpectedEof
  | .ok (chunksInFile, contents) =>
      readCacheEntries blake3 chunksInFile.toNat contents cache

/-- One entry of a cache file as it is written; `none` is the panic
"Chunk size wouldn't fit into a u32". -/
def writeCacheEntry (entry : ChunkKey × Bytes) : Option Bytes :=
  if entry.2.length < 2 ^ 32 then
    some (entry.1.bytes ++ putU32Le (UInt32.ofNat entry.2.length) ++ entry.2)
  else none

/-- The loop of `write_chunk_cache`. -/
def writeCacheEntries : List (ChunkKey × Bytes) → Option Bytes
  | [] => some []
  | entry :: entries => do
      let first ← writeCacheEntry entry
      let rest ← writeCacheEntries entries
      return first ++ rest

/-- `write_chunk_cache`, up to the compression; `none` is a panic, of an
entry or "Chunk count wouldn't fit into a u32". -/
def writeChunkCache (cache : RawChunkCache) : Option Bytes :=
  if cache.chunks.len < 2 ^ 32 then do
    let entries ← writeCacheEntries cache.chunks.entries
    return putU32Le (UInt32.ofNat cache.chunks.len) ++ entries
  else none

/-- The zstd library: compression at a level, and decompression. -/
structure Zstd where
  encode : Int → Bytes → Bytes
  decode : Bytes → Option Bytes

/-- Decompression undoes compression. -/
def Zstd.Lossless (zstd : Zstd) : Prop :=
  ∀ level contents, zstd.decode (zstd.encode level contents) = some contents

/-- `write_chunk_cache`: the file, where writing it does not fail. -/
def writeCacheFile (zstd : Zstd) (compressionLevel : Int)
    (cache : RawChunkCache) : Option Bytes :=
  (writeChunkCache cache).map (zstd.encode compressionLevel)

inductive CacheLoadError
  | decompress
  | contents (e : CacheFileError)
  deriving DecidableEq, Repr

/-- `read_chunk_cache`, from the file. -/
def readCacheFile (zstd : Zstd) (blake3 : Bytes → ChunkKey) (file : Bytes)
    (cache : RawChunkCache) : Except CacheLoadError RawChunkCache :=
  match zstd.decode file with
  | none => .error .decompress
  | some contents =>
      (readChunkCache blake3 contents cache).mapError .contents

-- ========================================================= critical sections

/-- `ChunkCacheInner`; events are numbers. -/
structure ChunkCacheInner where
  rawCache : RawChunkCache
  pendingChunks : ChunkKey → Option Nat
  needsSaving : Bool

/-- `BatchChunkRequest`. -/
structure BatchChunkRequest where
  event : Nat
  batchKeys : List ChunkKey

/-- What the `retain` of `get_chunks_batched` leaves behind. -/
structure Retained where
  rawCache : RawChunkCache
  batch : List ChunkKey
  /-- the keys retained -/
  remaining : List ChunkKey
  /-- the chunks put into `chunks_out` -/
  found : List (ChunkKey × Bytes)

/-- The `retain` of `get_chunks_batched`: a cached chunk is output, a
chunk nobody fetches is batched while there is room, any other is
retained. -/
def retainLoop (pendingChunks : ChunkKey → Option Nat) (batchSize : Nat) :
    List ChunkKey → RawChunkCache → List ChunkKey → Retained
  | [], rawCache, batch => ⟨rawCache, batch, [], []⟩
  | key :: keys, rawCache, batch =>
      match rawCache.get key with
      | (some chunk, rawCache) =>
          let rest := retainLoop pendingChunks batchSize keys rawCache batch
          { rest with found := (key, chunk) :: rest.found }
      | (none, rawCache) =>
          if pendingChunks key = none ∧ batch.length < batchSize then
            retainLoop pendingChunks batchSize keys rawCache
              (if key ∈ batch then batch else batch ++ [key])
          else
            let rest :=
              retainLoop pendingChunks batchSize keys rawCache batch
            { rest with remaining := key :: rest.remaining }

/-- Mark every key of a batch as pending. -/
def markPending (event : Nat) (batch : List ChunkKey)
    (pendingChunks : ChunkKey → Option Nat) : ChunkKey → Option Nat :=
  batch.foldl (fun pendingChunks key =>
    Function.update pendingChunks key (some event)) pendingChunks

/-- The events of the chunks others fetch; `none` is the panic
"Remaining chunk is not pending". -/
def collectPending (pendingChunks : ChunkKey → Option Nat) :
    List ChunkKey → Option (List (ChunkKey × Nat))
  | [] => some []
  | key :: keys =>
      match pendingChunks key, collectPending pendingChunks keys with
      | some event, some requests => some ((key, event) :: requests)
      | _, _ => none

/-- How the first half of `get_chunks_batched` ends. -/
inductive CallOutcome
  /-- a batch to fetch is returned -/
  | batch (batch : BatchChunkRequest)
  /-- the chunks still missing are waited for -/
  | wait (pendingRequests : List (ChunkKey × Nat))
  /-- nothing is missing -/
  | complete
  /-- "Remaining chunk is not pending" -/
  | notPending

/-- The first half of `get_chunks_batched`: the cache, what is left of
`chunks_requested`, what was put into `chunks_out`, and how it ends. -/
structure CallResult where
  inner : ChunkCacheInner
  remaining : List ChunkKey
  found : List (ChunkKey × Bytes)
  outcome : CallOutcome

/-- The rest of the critical section, after the `retain`. `event` is the
number of a new event. -/
def finishCall (inner : ChunkCacheInner) (event : Nat) (r : Retained) :
    CallResult :=
  if r.batch ≠ [] then
    { inner := { inner with
        rawCache := r.rawCache
        pendingChunks := markPending event r.batch inner.pendingChunks }
      remaining := r.remaining
      found := r.found
      outcome := .batch { event := event, batchKeys := r.batch } }
  else
    { inner := { inner with rawCache := r.rawCache }
      remaining := []
      found := r.found
      outcome :=
        match collectPending inner.pendingChunks r.remaining with
        | none => .notPending
        | some [] => .complete
        | some pendingRequests => .wait pendingRequests }

/-- `get_chunks_batched` up to the wait. -/
def getChunksBatched (inner : ChunkCacheInner)
    (chunksRequested : List ChunkKey) (batchSize event : Nat) :
    CallResult :=
  finishCall inner event
    (retainLoop inner.pendingChunks batchSize chunksRequested inner.rawCache
      [])

/-- `get_chunks_batched` after the wait: the chunks found, and whether
all were ("Waited on chunk, but chunk was not put in cache"). -/
def takeWaited : List (ChunkKey × Nat) → RawChunkCache →
    RawChunkCache × List (ChunkKey × Bytes) × Bool
  | [], rawCache => (rawCache, [], true)
  | (key, _) :: requests, rawCache =>
      match rawCache.get key with
      | (none, rawCache) => (rawCache, [], false)
      | (some chunk, rawCache) =>
          match takeWaited requests rawCache with
          | (rawCache, found, all) => (rawCache, (key, chunk) :: found, all)

/-- The loop of `fulfill`: the cache, and the keys that were cached
already ("Inserting chunk twice"). -/
def fulfillLoop : List (ChunkKey × Bytes) → ChunkCacheInner →
    Option (ChunkCacheInner × List ChunkKey)
  | [], inner => some (inner, [])
  | (key, chunk) :: rest, inner =>
      match inner.rawCache.insert key chunk with
      | none => none
      | some rawCache =>
          match fulfillLoop rest { inner with
              rawCache := rawCache
              pendingChunks :=
                Function.update inner.pendingChunks key none } with
          | none => none
          | some (final, twice) =>
              some (final, if key ∈ inner.rawCache.chunks.keys
                then key :: twice else twice)

-- =============================================================== the machine

inductive CachePanic
  /-- the lock is poisoned -/
  | poisoned
  /-- "Remaining chunk is not pending" -/
  | notPending
  /-- "Waited on chunk, but chunk was not put in cache" -/
  | notInCache
  /-- the assertion of `fulfill` on the number of chunks -/
  | chunkCount
  /-- the `unwrap` of `pop_front` -/
  | evict
  deriving DecidableEq, Repr

inductive TaskState
  | idle
  /-- in `get_chunks_batched`, waiting for events -/
  | waiting (pendingRequests : List (ChunkKey × Nat))
  /-- with a batch to fetch, asked for with `batchSize` -/
  | holding (batch : BatchChunkRequest) (batchSize : Nat)
  /-- in `fulfill`, past the critical section -/
  | closing (event : Nat)
  | panicked (panic : CachePanic)

structure CacheState where
  inner : ChunkCacheInner
  tasks : Nat → TaskState
  /-- the events closed so far -/
  closed : List Nat
  /-- the number of the next event -/
  nextEvent : Nat
  poisoned : Bool

inductive CacheAction
  | call (task : Nat) (chunksRequested : List ChunkKey) (batchSize : Nat)
  | wake (task : Nat)
  | fulfill (task : Nat) (chunks : List Bytes)
  | close (task : Nat)
  | drop (task : Nat)
  | markDirty
  /-- `try_save` taking its snapshot -/
  | snapshot

inductive CacheEvent
  /-- a chunk put into a task's `chunks_out` -/
  | found (task : Nat) (key : ChunkKey) (chunk : Bytes)
  /-- "Inserting chunk twice" -/
  | insertedTwice (key : ChunkKey)

namespace CacheState

/-- A cache around a raw cache, as `new` and `load_from_file` make it,
and nobody using it yet. -/
def ofRaw (rawCache : RawChunkCache) : CacheState where
  inner := { rawCache := rawCache
             pendingChunks := fun _ => none
             needsSaving := false }
  tasks := fun _ => .idle
  closed := []
  nextEvent := 0
  poisoned := false

/-- `ChunkCache::new`. -/
def new (maxSize : UInt64) : CacheState := ofRaw (RawChunkCache.new maxSize)

/-- `ChunkCache::load_from_file`, from the decompressed contents of the
file if it exists. -/
def loadFromFile (blake3 : Bytes → ChunkKey) (maxSize : UInt64)
    (file : Option Bytes) : Except CacheFileError CacheState :=
  match file with
  | none => .ok (new maxSize)
  | some contents =>
      (readChunkCache blake3 contents (RawChunkCache.new maxSize)).map ofRaw

def setTask (s : CacheState) (task : Nat) (state : TaskState) : CacheState :=
  { s with tasks := Function.update s.tasks task state }

/-- A panic under the lock. -/
def poison (s : CacheState) (task : Nat) (panic : CachePanic) : CacheState :=
  { s.setTask task (.panicked panic) with poisoned := true }

def setRaw (s : CacheState) (rawCache : RawChunkCache) : CacheState :=
  { s with inner := { s.inner with rawCache := rawCache } }

/-- The task after the second half of its call. -/
def afterWait (s : CacheState) (task : Nat) (all : Bool) : CacheState :=
  if all then s.setTask task .idle else s.poison task .notInCache

/-- The task after the first half of its call. -/
def afterCall (s : CacheState) (task batchSize : Nat) (r : CallResult) :
    CacheState :=
  match r.outcome with
  | .batch batch =>
      { s.setTask task (.holding batch batchSize) with
        inner := r.inner, nextEvent := s.nextEvent + 1 }
  | .wait pendingRequests =>
      { s.setTask task (.waiting pendingRequests) with inner := r.inner }
  | .complete => { s with inner := r.inner }
  | .notPending => { s.poison task .notPending with inner := r.inner }

def actCall (s : CacheState) (task : Nat) (chunksRequested : List ChunkKey)
    (batchSize : Nat) : CacheState × List CacheEvent :=
  if s.poisoned then (s.setTask task (.panicked .poisoned), [])
  else
    let r := getChunksBatched s.inner chunksRequested batchSize s.nextEvent
    (s.afterCall task batchSize r,
      r.found.map fun (key, chunk) => .found task key chunk)

def actWake (s : CacheState) (task : Nat)
    (pendingRequests : List (ChunkKey × Nat)) :
    CacheState × List CacheEvent :=
  if s.poisoned then (s.setTask task (.panicked .poisoned), [])
  else
    match takeWaited pendingRequests s.inner.rawCache with
    | (rawCache, found, all) =>
        ((s.setRaw rawCache).afterWait task all,
          found.map fun (key, chunk) => .found task key chunk)

def actFulfill (s : CacheState) (task : Nat) (batch : BatchChunkRequest)
    (chunks : List Bytes) : CacheState × List CacheEvent :=
  if batch.batchKeys.length ≠ chunks.length then
    (s.setTask task (.panicked .chunkCount), [])
  else if s.poisoned then (s.setTask task (.panicked .poisoned), [])
  else
    match fulfillLoop (batch.batchKeys.zip chunks) s.inner with
    | none => (s.poison task .evict, [])
    | some (inner, twice) =>
        ({ s.setTask task (.closing batch.event) with inner := inner },
          twice.map .insertedTwice)

/-- `mark_dirty`, and the snapshot of `try_save`; behind a poisoned lock
both panic and change nothing. -/
def setNeedsSaving (s : CacheState) (needsSaving : Bool) : CacheState :=
  if s.poisoned then s
  else { s with inner := { s.inner with needsSaving := needsSaving } }

/-- One action. -/
def act (s : CacheState) (action : CacheAction) :
    CacheState × List CacheEvent :=
  match action with
  | .call task chunksRequested batchSize =>
      match s.tasks task with
      | .idle => s.actCall task chunksRequested batchSize
      | _ => (s, [])
  | .wake task =>
      match s.tasks task with
      | .waiting pendingRequests =>
          -- every event of the call has been closed
          if ∀ request ∈ pendingRequests, request.2 ∈ s.closed then
            s.actWake task pendingRequests
          else (s, [])
      | _ => (s, [])
  | .fulfill task chunks =>
      match s.tasks task with
      | .holding batch _ => s.actFulfill task batch chunks
      | _ => (s, [])
  | .close task =>
      match s.tasks task with
      | .closing event =>
          ({ s.setTask task .idle with closed := event :: s.closed }, [])
      | _ => (s, [])
  | .drop task =>
      match s.tasks task with
      | .holding _ _ => (s.setTask task .idle, [])
      | .waiting _ => (s.setTask task .idle, [])
      | _ => (s, [])
  | .markDirty => (s.setNeedsSaving true, [])
  | .snapshot => (s.setNeedsSaving false, [])

/-- The machine. -/
def step (s : CacheState) (action : CacheAction) :
    Option (CacheState × List CacheEvent) := some (s.act action)

end CacheState

end FactoryCacher
