/-
Saving the chunk cache (common/src/chunk_cache.rs): `start_writer` and
`try_save`.

# The writer

One task saves the cache, again and again; what it is doing is its
`WriterState`. `try_save` takes its snapshot under the lock, and clears
`needs_saving` with it. The file work comes after, without the lock, one
step at a time: create the temporary file, write it, look at its size,
rename it. Each of them is an action of its own, with its result
(`StepResult`), so anything may happen to the cache between them. An
error in any of them is an error of `try_save`, which is logged, and the
writer goes back to sleep. Over a poisoned lock the writer panics and is
gone.

# The cache

The cache is the machine of Common/ChunkCache.lean; all of its actions
are actions here, but for the snapshot, which is the writer's.

# The disk

A disk maps paths to files. The temporary file is next to the cache file,
with the extension `tmp`. Nobody else writes to either.
-/
import FactoryCacher.Common.ChunkCache

namespace FactoryCacher

-- ================================================================= the disk

/-- A path: its extension, and all that comes before. -/
structure DiskPath where
  stem : String
  extension : Option String
  deriving DecidableEq, Repr

/-- `Path::with_extension`. -/
def DiskPath.withExtension (path : DiskPath) (extension : String) :
    DiskPath :=
  { path with extension := some extension }

/-- `temp_path`. -/
def DiskPath.tempPath (cachePath : DiskPath) : DiskPath :=
  cachePath.withExtension "tmp"

abbrev Disk := DiskPath → Option Bytes

-- =============================================================== the writer

/-- The steps of a save's file work. -/
inductive SaveStage
  | create
  | write
  | metadata
  | rename
  deriving DecidableEq, Repr

/-- What the task of `start_writer` is doing. -/
inductive WriterState
  | sleeping
  /-- in `try_save`, with its snapshot and the step that is next -/
  | saving (rawCache : RawChunkCache) (stage : SaveStage)
  /-- "chunk cache poisoned" -/
  | panicked

structure SaverState where
  cache : CacheState
  writer : WriterState
  disk : Disk

/-- How a step of the file work ends; a write that fails may have written
something. -/
inductive StepResult
  | ok
  | err (written : Bytes)

inductive SaveAction
  | cache (action : CacheAction)
  | trySave
  | fileStep (result : StepResult)

/-- What happens to the saves. -/
inductive SaveEvent
  /-- `mark_dirty` returned -/
  | marked
  /-- a save took its snapshot -/
  | snapshot (rawCache : RawChunkCache)
  /-- a save put a file in place -/
  | saved (file : Bytes)
  /-- "Failed to save chunk cache" -/
  | failed

namespace SaverState

/-- A loaded cache, its writer just started. -/
def start (rawCache : RawChunkCache) (disk : Disk) : SaverState where
  cache := CacheState.ofRaw rawCache
  writer := .sleeping
  disk := disk

/-- Anything that happens to the cache. -/
def actCache (s : SaverState) (action : CacheAction) :
    SaverState × List SaveEvent :=
  match action with
  | .snapshot => (s, [])
  | .markDirty =>
      ({ s with cache := (s.cache.act .markDirty).1 },
        if s.cache.poisoned then [] else [.marked])
  | action => ({ s with cache := (s.cache.act action).1 }, [])

/-- `try_save` up to the file work. -/
def beginSave (s : SaverState) : SaverState × List SaveEvent :=
  match s.writer with
  | .sleeping =>
      if s.cache.poisoned then ({ s with writer := .panicked }, [])
      else if s.cache.inner.needsSaving then
        ({ s with cache := (s.cache.act .snapshot).1
                  writer := .saving s.cache.inner.rawCache .create },
          [.snapshot s.cache.inner.rawCache])
      else (s, [])
  | _ => (s, [])

/-- `try_save` returns an error. -/
def failSave (s : SaverState) (disk : Disk) :
    SaverState × List SaveEvent :=
  ({ s with writer := .sleeping, disk := disk }, [.failed])

variable (zstd : Zstd) (cachePath : DiskPath) (compressionLevel : Int)

/-- One step of the file work. -/
def fileStep (s : SaverState) (result : StepResult) :
    SaverState × List SaveEvent :=
  match s.writer with
  | .saving rawCache stage =>
      match stage, result with
      | .create, .ok =>
          ({ s with
              writer := .saving rawCache .write
              disk := Function.update s.disk cachePath.tempPath (some []) },
            [])
      | .write, .ok =>
          match writeCacheFile zstd compressionLevel rawCache with
          | some file =>
              ({ s with
                  writer := .saving rawCache .metadata
                  disk := Function.update s.disk cachePath.tempPath
                    (some file) }, [])
          -- a count or size that does not fit panics in the blocking task
          | none => s.failSave s.disk
      | .write, .err written =>
          s.failSave (Function.update s.disk cachePath.tempPath
            (some written))
      | .metadata, .ok =>
          ({ s with writer := .saving rawCache .rename }, [])
      | .rename, .ok =>
          match s.disk cachePath.tempPath with
          | some file =>
              ({ s with
                  writer := .sleeping
                  disk := Function.update
                    (Function.update s.disk cachePath.tempPath none)
                    cachePath (some file) }, [.saved file])
          | none => s.failSave s.disk
      | _, .err _ => s.failSave s.disk
  | _ => (s, [])

/-- One action. -/
def act (s : SaverState) : SaveAction → SaverState × List SaveEvent
  | .cache action => s.actCache action
  | .trySave => s.beginSave
  | .fileStep result => s.fileStep zstd cachePath compressionLevel result

/-- The machine. -/
def step (s : SaverState) (action : SaveAction) :
    Option (SaverState × List SaveEvent) :=
  some (s.act zstd cachePath compressionLevel action)

end SaverState

end FactoryCacher
