/-
Chunk trees (common/src/dedup.rs): building them, and reading data back
through a chunk provider.

# Building

`chunkData` hashes every chunk of the data and hangs its key on a tree of
`ChunkList`s grown from the bottom: `tree_levels` holds the unfinished
node of every level, level 0 first, and a level that reaches a split
point is serialized, stored, and its key pushed one level up
(`splitLevels`, the `while` loop, which walks up the levels as long as
they split). What is unfinished at the end is flushed upward by
`finishTree`. The model keeps the levels from the current one upward as
a head and a list, so a step of the loop is a step of the recursion.

# Panics

`encode` refuses a list of 2^32 keys or more ("ChunkList is too big");
here that is `none`, and it propagates. It is never reached: see
`chunkData_spec` in Common/Proofs/ChunkTree.lean.

# Reading

`reconstructData` is generic in its provider, as in the source. The
provider's calls are actions of an arbitrary monad with faults: a hash
map answers at once, a fetcher awaits the network while other tasks run.
The stream's consumer is the action `yield`, run once for every chunk in
stream order. The recursion follows child lists out of the provider, so
nothing bounds its depth; `fuel` does, and running out of it is a fault
of its own, distinct from every fault of the source.
-/
import FactoryCacher.Lib.Bytes
import FactoryCacher.Lib.Containers
import FactoryCacher.Lib.ContentTree
import FactoryCacher.Common.Chunker

namespace FactoryCacher

-- ============================================================== chunk keys

/-- `ChunkKey`: a blake3 hash, 32 bytes. -/
structure ChunkKey where
  bytes : Bytes
  len : bytes.length = 32
  deriving DecidableEq

/-- `HashMap<ChunkKey, Bytes>`, as the chunk maps of this program use
it. -/
abbrev ChunkMap := WriteMap ChunkKey Bytes

/-- Read one key: `try_copy_to_slice` into a 32-byte array. -/
def tryGetKey : Get ChunkKey := fun buf =>
  if h : buf.length < 32 then .error ⟨32, buf.length⟩
  else .ok (⟨buf.take 32, by simp; omega⟩, buf.drop 32)

@[simp] theorem run_tryGetKey_append (k : ChunkKey) (rest : Bytes) :
    tryGetKey (k.bytes ++ rest) = .ok (k, rest) := by
  have hk := k.len
  have hlen : ¬ (k.bytes ++ rest).length < 32 := by
    rw [List.length_append]
    omega
  unfold tryGetKey
  rw [dif_neg hlen]
  simp only [Except.ok.injEq, Prod.mk.injEq]
  constructor
  · cases k with
    | mk bytes len =>
        simp only [ChunkKey.mk.injEq]
        rw [← len, List.take_left]
  · rw [← hk, List.drop_left]

-- ============================================================= chunk lists

/-- `MIN_CHUNKS_IN_LIST`. -/
def minChunksInList : Nat := 32

/-- `AVG_CHUNKS_IN_LIST`. -/
def avgChunksInList : Nat := 128

/-- `MAX_CHUNKS_IN_LIST`. -/
def maxChunksInList : Nat := 512

/-- `is_split_point`: whether a node of `numNodes` keys, the last of
which is `hash`, is complete. -/
def isSplitPoint (hash : ChunkKey) (numNodes : Nat) : Bool :=
  if numNodes < minChunksInList then false
  else if numNodes ≥ maxChunksInList then true
  else ofBE (hash.bytes.take 4) % avgChunksInList == 0

structure ChunkList where
  isLeaf : Bool
  chunks : List ChunkKey
  deriving DecidableEq

namespace ChunkList

def newEmpty (isLeaf : Bool) : ChunkList :=
  { isLeaf := isLeaf, chunks := [] }

def pushChunk (l : ChunkList) (chunk : ChunkKey) : ChunkList :=
  { l with chunks := l.chunks ++ [chunk] }

/-- The keys of `ChunkList::decode`. -/
def decodeKeys : Nat → Get (List ChunkKey)
  | 0 => pure []
  | n + 1 => do
      let key ← tryGetKey
      let keys ← decodeKeys n
      return key :: keys

def decodeBuf : Get ChunkList := do
  let isLeaf ← tryGetU8
  let chunkCount ← tryGetU32
  let chunks ← decodeKeys chunkCount.toNat
  return { isLeaf := isLeaf != 0, chunks := chunks }

/-- `ChunkList::decode`; bytes after the last key are ignored. -/
def decode (buf : Bytes) : Except TryGetError ChunkList :=
  (decodeBuf buf).map Prod.fst

/-- The serialized form, with the key count as a `u32`. -/
def serialized (l : ChunkList) : Bytes :=
  (if l.isLeaf then 1 else 0)
    :: (putU32 (UInt32.ofNat l.chunks.length)
      ++ l.chunks.flatMap ChunkKey.bytes)

/-- `ChunkList::encode`; `none` is the panic "ChunkList is too big". -/
def encode (l : ChunkList) : Option Bytes :=
  if l.chunks.length < 2 ^ 32 then some l.serialized else none

end ChunkList

-- ================================================================ building

section Build

variable (blake3 : Bytes → ChunkKey)

/-- The `while` loop of `chunk_data`, from the level whose unfinished
node is `cur`, with the levels above it in `above`: while the node is
complete, store it, push its key one level up, and start a fresh one. -/
def splitLevels (hash : ChunkKey) (cur : ChunkList)
    (above : List ChunkList) (chunks : ChunkMap) :
    Option (List ChunkList × ChunkMap) :=
  if _hsplit : isSplitPoint hash cur.chunks.length then
    match cur.encode with
    | none => none
    | some serializedChunkList =>
        let hash := blake3 serializedChunkList
        let chunks := chunks.insert hash serializedChunkList
        -- the next level, added to the tree if it is not there yet
        match above with
        | [] =>
            match splitLevels hash ((ChunkList.newEmpty false).pushChunk hash)
                [] chunks with
            | none => none
            | some (rest, chunks) =>
                some (ChunkList.newEmpty cur.isLeaf :: rest, chunks)
        | next :: above =>
            match splitLevels hash (next.pushChunk hash) above chunks with
            | none => none
            | some (rest, chunks) =>
                some (ChunkList.newEmpty cur.isLeaf :: rest, chunks)
  else some (cur :: above, chunks)
termination_by
  2 * above.length + (if minChunksInList ≤ cur.chunks.length then 1 else 0)
decreasing_by
  -- a level added just now holds one key, which is no split point
  all_goals
    have hmin : minChunksInList ≤ cur.chunks.length := by
      by_contra hlt
      simp [isSplitPoint, not_le.1 hlt] at _hsplit
    rw [if_pos hmin]
  · simp [ChunkList.newEmpty, ChunkList.pushChunk, minChunksInList]
  · simp only [List.length_cons]
    split <;> omega

/-- The body of the `for` loop of `chunk_data`: hash and store one
chunk, push its key on level 0, split what is complete. An empty
`tree_levels` is the out-of-bounds index of `tree_levels[0]`. -/
def addChunk (state : List ChunkList × ChunkMap) (chunk : Bytes) :
    Option (List ChunkList × ChunkMap) :=
  match state.1 with
  | [] => none
  | leaf :: above =>
      splitLevels blake3 (blake3 chunk) (leaf.pushChunk (blake3 chunk))
        above (state.2.insert (blake3 chunk) chunk)

/-- The finishing pass of `chunk_data`: every non-empty level below the
last is stored and its key pushed one level up; the last level is the
root. -/
def finishTree (cur : ChunkList) :
    List ChunkList → ChunkMap → Option (ChunkList × ChunkMap)
  | [], chunks => some (cur, chunks)
  | next :: above, chunks =>
      if cur.chunks.isEmpty then finishTree next above chunks
      else
        match cur.encode with
        | none => none
        | some serializedChunkList =>
            finishTree (next.pushChunk (blake3 serializedChunkList)) above
              (chunks.insert (blake3 serializedChunkList)
                serializedChunkList)

/-- `chunk_data`: the root of the data's tree, and the chunk map with
every chunk and every serialized node added. -/
def chunkData (data : Bytes) (chunks : ChunkMap) :
    Option (ChunkList × ChunkMap) :=
  match (chunksOf data).foldlM (addChunk blake3)
      ([ChunkList.newEmpty true], chunks) with
  | some (leaf :: above, chunks) => finishTree blake3 leaf above chunks
  | _ => none

/-- `MINIMIZE_THRESHOLD`. -/
def minimizeThreshold : Nat := 64

/-- `minimize_chunk_list`: a long root is stored like any other node and
replaced by a one-key root. -/
def minimizeChunkList (chunkList : ChunkList) (chunks : ChunkMap) :
    Option (ChunkList × ChunkMap) :=
  if chunkList.chunks.length < minimizeThreshold then
    some (chunkList, chunks)
  else
    match chunkList.encode with
    | none => none
    | some serializedChunkList =>
        some ((ChunkList.newEmpty false).pushChunk
            (blake3 serializedChunkList),
          chunks.insert (blake3 serializedChunkList) serializedChunkList)

end Build

-- ================================================================= reading

/-- What can go wrong while data is rebuilt. -/
inductive Fault
  /-- panic of the hash map provider: "No such key" -/
  | noSuchKey (key : ChunkKey)
  /-- a serialized chunk list that ends early -/
  | tryGet (e : TryGetError)
  /-- panic of the fetcher: "Chunk was requested without being
  prefetched first" -/
  | notPrefetched (key : ChunkKey)
  /-- a failed fetch -/
  | fetch
  /-- a framed size that does not fit its field -/
  | framedSize
  /-- nobody is left to send to -/
  | send
  /-- a stream that cannot be opened, or a first message that is not
  there, too long, or does not decode -/
  | stream
  /-- the model's recursion bound -/
  | outOfFuel
  deriving DecidableEq

/-- `trait ChunkProvider`, over the monad its calls run in. -/
structure ChunkProvider (m : Type → Type) where
  prefetch : List ChunkKey → m Unit
  getChunk : ChunkKey → m Bytes

section Read

variable {m : Type → Type} [Monad m] [MonadExceptOf Fault m]

/-- The loop of `reconstruct_data` over the keys of one list. -/
def reconstructKeys (provider : ChunkProvider m) (yield : Bytes → m Unit)
    (descend : ChunkList → m Unit) (isLeaf : Bool) :
    List ChunkKey → m Unit
  | [] => pure ()
  | chunkKey :: keys => do
      let chunk ← provider.getChunk chunkKey
      if isLeaf then yield chunk
      else
        match ChunkList.decode chunk with
        | .error e => throw (Fault.tryGet e)
        | .ok childChunkList => descend childChunkList
      reconstructKeys provider yield descend isLeaf keys

/-- `reconstruct_data`, its stream consumed by `yield`. -/
def reconstructData (provider : ChunkProvider m) (yield : Bytes → m Unit) :
    Nat → ChunkList → m Unit
  | 0, _ => throw Fault.outOfFuel
  | fuel + 1, chunkList => do
      provider.prefetch chunkList.chunks
      reconstructKeys provider yield (reconstructData provider yield fuel)
        chunkList.isLeaf chunkList.chunks

/-- The inner loop of `prefetch_metadata_chunks`: the child lists of one
list's keys. -/
def childLists (provider : ChunkProvider m) :
    List ChunkKey → m (List ChunkList)
  | [] => pure []
  | childChunkKey :: keys => do
      let childChunk ← provider.getChunk childChunkKey
      match ChunkList.decode childChunk with
      | .error e => throw (Fault.tryGet e)
      | .ok childChunkList => do
          let rest ← childLists provider keys
          return childChunkList :: rest

/-- The loop of `prefetch_metadata_chunks` over one level: the lists of
the level below. -/
def nextLevel (provider : ChunkProvider m) :
    List ChunkList → m (List ChunkList)
  | [] => pure []
  | chunkList :: lists =>
      if chunkList.isLeaf then nextLevel provider lists
      else do
        let children ← childLists provider chunkList.chunks
        let rest ← nextLevel provider lists
        return children ++ rest

/-- `prefetch_metadata_chunks`, level by level. As for
`reconstructData`, nothing bounds the number of levels but `fuel`. -/
def prefetchMetadataChunks (provider : ChunkProvider m) :
    Nat → List ChunkList → m Unit
  | _, [] => pure ()
  | 0, _ :: _ => throw Fault.outOfFuel
  | fuel + 1, chunkList :: lists => do
      provider.prefetch ((chunkList :: lists).flatMap ChunkList.chunks)
      let level ← nextLevel provider (chunkList :: lists)
      prefetchMetadataChunks provider fuel level

/-- `impl ChunkProvider for HashMap<ChunkKey, Bytes>`. -/
def mapProvider (chunks : ChunkMap) : ChunkProvider m where
  prefetch _ := pure ()
  getChunk key :=
    match chunks.get key with
    | some chunk => pure chunk
    | none => throw (Fault.noSuchKey key)

end Read

/-- A stream run: the chunks yielded so far, and how it ended. -/
abbrev StreamM := ExceptT Fault (StateM (List Bytes))

/-- A consumer that keeps what the stream yields. -/
def keepChunk (chunk : Bytes) : StreamM Unit :=
  modify fun yielded => yielded ++ [chunk]

/-- The whole stream of `reconstruct_data` over a chunk map: how it
ended and what it yielded. -/
def reconstructFromMap (chunks : ChunkMap) (fuel : Nat)
    (chunkList : ChunkList) : Except Fault Unit × List Bytes :=
  (reconstructData (m := StreamM) (mapProvider chunks) keepChunk fuel
    chunkList).run.run []

/-- A provider under a consumer with a state of its own. -/
def ChunkProvider.liftState {m : Type → Type} [Monad m] (ρ : Type)
    (p : ChunkProvider m) : ChunkProvider (StateT ρ m) where
  prefetch keys := StateT.lift (p.prefetch keys)
  getChunk key := StateT.lift (p.getChunk key)

/-- The bytes of the stream: `reconstruct_data` consumed into a buffer. -/
def collectData {σ : Type}
    (provider : ChunkProvider (ExceptT Fault (StateM σ)))
    (fuel : Nat) (chunkList : ChunkList) : ExceptT Fault (StateM σ) Bytes :=
  do
    let (_, buf) ← (reconstructData (provider.liftState Bytes)
      (fun chunk => modify fun buf => buf ++ chunk) fuel chunkList).run []
    return buf

-- ============================================================ sample hashes

/-- blake3 on three short blobs, for evaluating the model on concrete
inputs: its value on `[0]`, on `[0, 1]`, and elsewhere that on the empty
string. -/
def blake3Sample (blob : Bytes) : ChunkKey :=
  if blob = [0] then
    ⟨[45, 58, 222, 223, 241, 27, 97, 241, 76, 136, 110, 53, 175, 160,
      54, 115, 109, 205, 135, 167, 77, 39, 181, 193, 81, 2, 37, 208,
      245, 146, 226, 19], rfl⟩
  else if blob = [0, 1] then
    ⟨[123, 112, 21, 187, 146, 207, 11, 49, 128, 55, 112, 42, 108, 221,
      129, 222, 228, 18, 36, 247, 52, 104, 76, 44, 18, 44, 214, 53,
      156, 177, 238, 99], rfl⟩
  else
    ⟨[175, 19, 73, 185, 245, 249, 161, 166, 160, 64, 77, 234, 54, 220,
      201, 73, 155, 203, 37, 201, 173, 193, 18, 183, 204, 154, 147,
      202, 228, 31, 50, 98], rfl⟩

end FactoryCacher
