/-
Whether what is in the cache file is what should be.

# What holds

`try_save` clears `needs_saving` before it writes, and never sets it
again. So the flag says whether a save was begun since the last
`mark_dirty`, not whether one succeeded: where a save fails, nothing is
left to say that the file is old. `SaveRun` is what the flag does tell
in every reachable state: with no save going on and the flag down, either
nothing ever happened, or the last thing that happened is that a save
failed, or it is that a save succeeded, and its snapshot was the event
before. With the second case excluded (`Recovered`) the file holds what
it should.

# The file in place

Until a save is renamed into place the cache file is the one before
(`disk_eq_lastSaved`). The one exception is a cache file that has the
extension `tmp` itself: there the temporary file is the cache file, and
a save that fails has destroyed it.
-/
import FactoryCacher.Common.CacheWriter
import FactoryCacher.Common.Proofs.CacheMachine
import FactoryCacher.Common.Proofs.CachePersistence

namespace FactoryCacher

-- ================================================================= the flag

/-- Storing chunks leaves the flag alone. -/
theorem needsSaving_fulfillLoop (entries : List (ChunkKey × Bytes)) :
    ∀ {inner inner' : ChunkCacheInner} {twice : List ChunkKey},
      fulfillLoop entries inner = some (inner', twice) →
      inner'.needsSaving = inner.needsSaving := by
  induction entries with
  | nil =>
      intro inner inner' twice h
      cases h
      rfl
  | cons entry entries ih =>
      intro inner inner' twice h
      rw [fulfillLoop] at h
      split at h
      case h_1 => cases h
      case h_2 rawCache hinsert =>
        split at h
        case h_1 => cases h
        case h_2 final more hrest =>
          cases h
          have hflag := ih hrest
          exact hflag

/-- So does a call. -/
theorem needsSaving_getChunksBatched (inner : ChunkCacheInner)
    (chunksRequested : List ChunkKey) (batchSize event : Nat) :
    (getChunksBatched inner chunksRequested batchSize
      event).inner.needsSaving = inner.needsSaving := by
  unfold getChunksBatched finishCall
  split <;> rfl

namespace CacheState

variable {s : CacheState}

theorem needsSaving_actCall (task : Nat) (chunksRequested : List ChunkKey)
    (batchSize : Nat) :
    (s.actCall task chunksRequested batchSize).1.inner.needsSaving
      = s.inner.needsSaving := by
  rw [actCall]
  split
  case isTrue => rfl
  case isFalse =>
    dsimp only
    rw [afterCall]
    split
    all_goals exact needsSaving_getChunksBatched ..

theorem needsSaving_actWake (task : Nat)
    (pendingRequests : List (ChunkKey × Nat)) :
    (s.actWake task pendingRequests).1.inner.needsSaving
      = s.inner.needsSaving := by
  rw [actWake]
  split
  case isTrue => rfl
  case isFalse =>
    dsimp only
    rw [afterWait]
    split <;> rfl

theorem needsSaving_actFulfill (task : Nat) (batch : BatchChunkRequest)
    (chunks : List Bytes) :
    (s.actFulfill task batch chunks).1.inner.needsSaving
      = s.inner.needsSaving := by
  rw [actFulfill]
  split
  case isTrue => rfl
  case isFalse =>
    split
    case isTrue => rfl
    case isFalse =>
      split
      case h_1 => rfl
      case h_2 inner twice hloop => exact needsSaving_fulfillLoop _ hloop

/-- The actions of tasks leave the flag alone. -/
theorem needsSaving_act {action : CacheAction} (h : action.task ≠ none) :
    (s.act action).1.inner.needsSaving = s.inner.needsSaving := by
  cases action with
  | markDirty | snapshot => exact absurd rfl h
  | call task chunksRequested batchSize =>
      rw [act]
      split
      case h_1 => exact needsSaving_actCall ..
      case h_2 => rfl
  | wake task =>
      rw [act]
      split
      case h_1 =>
        split
        case isTrue => exact needsSaving_actWake ..
        case isFalse => rfl
      case h_2 => rfl
  | fulfill task chunks =>
      rw [act]
      split
      case h_1 => exact needsSaving_actFulfill ..
      case h_2 => rfl
  | close task =>
      rw [act]
      split <;> rfl
  | drop task =>
      rw [act]
      split <;> rfl

end CacheState

-- =================================================== what a step can do

section Steps

variable {zstd : Zstd} {cachePath : DiskPath} {compressionLevel : Int}
  {s : SaverState} {out : List SaveEvent}

/-- An action on the cache: the flag is raised, and that is seen, or
nothing is. -/
theorem actCache_cases (s : SaverState) (action : CacheAction) :
    ∃ cache events, s.actCache action = ({ s with cache := cache }, events)
      ∧ (events = []
          ∧ cache.inner.needsSaving = s.cache.inner.needsSaving
        ∨ events = [.marked] ∧ cache.inner.needsSaving = true) := by
  cases action with
  | snapshot => exact ⟨s.cache, [], rfl, Or.inl ⟨rfl, rfl⟩⟩
  | markDirty =>
      by_cases hpoisoned : s.cache.poisoned = true
      · refine ⟨s.cache, [], ?_, Or.inl ⟨rfl, rfl⟩⟩
        simp only [SaverState.actCache, CacheState.act,
          CacheState.setNeedsSaving, if_pos hpoisoned]
      · refine ⟨(s.cache.act .markDirty).1, [.marked], ?_,
          Or.inr ⟨rfl, ?_⟩⟩
        · simp only [SaverState.actCache, if_neg hpoisoned]
        · simp only [CacheState.act, CacheState.setNeedsSaving,
            if_neg hpoisoned]
  | call | wake | fulfill | close | drop =>
      refine ⟨_, [], rfl, Or.inl ⟨rfl, CacheState.needsSaving_act ?_⟩⟩
      intro h
      cases h

/-- `try_save` up to the file work: there is nothing to do, the writer
panics over a poisoned lock, or the snapshot is taken. -/
theorem beginSave_cases (s : SaverState) :
    s.beginSave = (s, [])
    ∨ s.beginSave = ({ s with writer := .panicked }, [])
    ∨ s.beginSave
      = ({ s with cache := (s.cache.act .snapshot).1
                  writer := .saving s.cache.inner.rawCache .create },
          [.snapshot s.cache.inner.rawCache]) := by
  unfold SaverState.beginSave
  split
  case h_2 => exact Or.inl rfl
  case h_1 =>
    split
    case isTrue => exact Or.inr (Or.inl rfl)
    case isFalse =>
      split
      case isTrue => exact Or.inr (Or.inr rfl)
      case isFalse => exact Or.inl rfl

/-- A step of the file work: it succeeds and the next one is up, or it
fails; neither touches a file other than the temporary one, but for the
rename. -/
inductive FileMove (zstd : Zstd) (cachePath : DiskPath)
    (compressionLevel : Int) (s : SaverState) (rawCache : RawChunkCache) :
    SaveStage → SaverState × List SaveEvent → Prop
  | create : FileMove zstd cachePath compressionLevel s rawCache .create
      ({ s with
          writer := .saving rawCache .write
          disk := Function.update s.disk cachePath.tempPath (some []) }, [])
  | write (file : Bytes)
      (hfile : writeCacheFile zstd compressionLevel rawCache = some file) :
      FileMove zstd cachePath compressionLevel s rawCache .write
        ({ s with
            writer := .saving rawCache .metadata
            disk := Function.update s.disk cachePath.tempPath (some file) },
          [])
  | metadata : FileMove zstd cachePath compressionLevel s rawCache .metadata
      ({ s with writer := .saving rawCache .rename }, [])
  | rename (file : Bytes) (htemp : s.disk cachePath.tempPath = some file) :
      FileMove zstd cachePath compressionLevel s rawCache .rename
        ({ s with
            writer := .sleeping
            disk := Function.update
              (Function.update s.disk cachePath.tempPath none)
              cachePath (some file) }, [.saved file])
  | fail (stage : SaveStage) (disk : Disk)
      (hdisk : ∀ path ≠ cachePath.tempPath, disk path = s.disk path) :
      FileMove zstd cachePath compressionLevel s rawCache stage
        (s.failSave disk)

theorem fileStep_move (zstd : Zstd) (cachePath : DiskPath)
    (compressionLevel : Int) {rawCache : RawChunkCache} {stage : SaveStage}
    (hwriter : s.writer = .saving rawCache stage) (result : StepResult) :
    FileMove zstd cachePath compressionLevel s rawCache stage
      (s.fileStep zstd cachePath compressionLevel result) := by
  have hkept : ∀ path ≠ cachePath.tempPath, s.disk path = s.disk path :=
    fun _ _ => rfl
  unfold SaverState.fileStep
  rw [hwriter]
  cases result with
  | ok =>
      cases stage with
      | create => exact .create
      | write =>
          dsimp only
          split
          case h_1 file hfile => exact .write file hfile
          case h_2 => exact .fail _ _ hkept
      | metadata => exact .metadata
      | rename =>
          dsimp only
          split
          case h_1 file htemp => exact .rename file htemp
          case h_2 => exact .fail _ _ hkept
  | err written =>
      cases stage with
      | write =>
          refine .fail _ _ ?_
          intro path hpath
          exact Function.update_of_ne hpath _ _
      | create | metadata | rename => exact .fail _ _ hkept

/-- Without a save there is nothing to do. -/
theorem fileStep_of_resting
    (hwriter : ∀ rawCache stage, s.writer ≠ .saving rawCache stage)
    (result : StepResult) :
    s.fileStep zstd cachePath compressionLevel result = (s, []) := by
  unfold SaverState.fileStep
  split
  case h_1 rawCache stage hsaving =>
    exact absurd hsaving (hwriter rawCache stage)
  case h_2 => rfl

-- ============================================================== whole runs

/-- What is behind a flag that is down while no save is going on. -/
inductive Settled (zstd : Zstd) (cachePath : DiskPath)
    (compressionLevel : Int) (disk : Disk) : List SaveEvent → Prop
  | untouched : Settled zstd cachePath compressionLevel disk []
  | failed (before : List SaveEvent) :
      Settled zstd cachePath compressionLevel disk (before ++ [.failed])
  | saved (before : List SaveEvent) (rawCache : RawChunkCache)
      (file : Bytes)
      (hfile : writeCacheFile zstd compressionLevel rawCache = some file)
      (hdisk : disk cachePath = some file) :
      Settled zstd cachePath compressionLevel disk
        (before ++ [.snapshot rawCache, .saved file])

/-- The run of the writer. While it saves, everything after its snapshot
is `mark_dirty`, and there is none if the flag is down. -/
inductive SaveRun (zstd : Zstd) (cachePath : DiskPath)
    (compressionLevel : Int) (s : SaverState) (out : List SaveEvent) : Prop
  | saving (rawCache : RawChunkCache) (stage : SaveStage)
      (before after : List SaveEvent)
      (hwriter : s.writer = .saving rawCache stage)
      (hout : out = before ++ .snapshot rawCache :: after)
      (hflag : s.cache.inner.needsSaving = false → after = [])
      (htemp : stage = .metadata ∨ stage = .rename →
        s.disk cachePath.tempPath
            = writeCacheFile zstd compressionLevel rawCache)
  | resting
      (hwriter : ∀ rawCache stage, s.writer ≠ .saving rawCache stage)
      (hflag : s.cache.inner.needsSaving = false →
        Settled zstd cachePath compressionLevel s.disk out)

/-- An action on the cache. -/
theorem SaveRun.cache (h : SaveRun zstd cachePath compressionLevel s out)
    (action : CacheAction) :
    SaveRun zstd cachePath compressionLevel (s.actCache action).1
      (out ++ (s.actCache action).2) := by
  obtain ⟨cache, events, hact, hcases⟩ := actCache_cases s action
  rw [hact]
  cases h with
  | saving rawCache stage before after hwriter hout hflag htemp =>
      refine .saving rawCache stage before (after ++ events) hwriter ?_ ?_
        htemp
      · rw [hout, List.append_assoc, List.cons_append]
      · intro hdown
        rcases hcases with ⟨hevents, hsame⟩ | ⟨-, hup⟩
        · rw [hevents, List.append_nil]
          exact hflag (hsame.symm.trans hdown)
        · rw [hup] at hdown
          cases hdown
  | resting hwriter hflag =>
      refine .resting hwriter ?_
      intro hdown
      rcases hcases with ⟨hevents, hsame⟩ | ⟨-, hup⟩
      · rw [hevents, List.append_nil]
        exact hflag (hsame.symm.trans hdown)
      · rw [hup] at hdown
        cases hdown

/-- A save begins, or does not. -/
theorem SaveRun.begin (h : SaveRun zstd cachePath compressionLevel s out) :
    SaveRun zstd cachePath compressionLevel s.beginSave.1
      (out ++ s.beginSave.2) := by
  cases h with
  | saving rawCache stage before after hwriter hout hflag htemp =>
      have hnothing : s.beginSave = (s, []) := by
        unfold SaverState.beginSave
        rw [hwriter]
      rw [hnothing, List.append_nil]
      exact .saving rawCache stage before after hwriter hout hflag htemp
  | resting hwriter hflag =>
      rcases beginSave_cases s with heq | heq | heq
      · rw [heq, List.append_nil]
        exact .resting hwriter hflag
      · rw [heq, List.append_nil]
        refine .resting ?_ hflag
        intro rawCache stage h
        cases h
      · rw [heq]
        refine .saving s.cache.inner.rawCache .create out [] rfl rfl
          (fun _ => rfl) ?_
        intro hstage
        rcases hstage with hstage | hstage <;> cases hstage

/-- A step of the file work. -/
theorem SaveRun.file (h : SaveRun zstd cachePath compressionLevel s out)
    (result : StepResult) :
    SaveRun zstd cachePath compressionLevel
      (s.fileStep zstd cachePath compressionLevel result).1
      (out ++ (s.fileStep zstd cachePath compressionLevel result).2) := by
  cases h with
  | resting hwriter hflag =>
      rw [fileStep_of_resting hwriter, List.append_nil]
      exact .resting hwriter hflag
  | saving rawCache stage before after hwriter hout hflag htemp =>
      have hmove := fileStep_move zstd cachePath compressionLevel hwriter
        result
      generalize s.fileStep zstd cachePath compressionLevel result = next
        at hmove
      have hasleep : ∀ rawCache stage,
          WriterState.sleeping ≠ .saving rawCache stage := by
        intro rawCache stage h
        cases h
      cases hmove with
      | create =>
          rw [List.append_nil]
          refine .saving rawCache .write before after rfl hout hflag ?_
          intro hstage
          rcases hstage with hstage | hstage <;> cases hstage
      | write file hfile =>
          rw [List.append_nil]
          refine .saving rawCache .metadata before after rfl hout hflag ?_
          intro _
          rw [hfile]
          exact Function.update_self ..
      | metadata =>
          rw [List.append_nil]
          exact .saving rawCache .rename before after rfl hout hflag
            fun _ => htemp (Or.inl rfl)
      | rename file hdisk =>
          refine .resting hasleep ?_
          intro hdown
          have hfile := htemp (Or.inr rfl)
          rw [hdisk] at hfile
          rw [hout, hflag hdown, List.append_assoc]
          exact .saved before rawCache file hfile.symm
            (Function.update_self ..)
      | fail stage disk hdisk =>
          exact .resting hasleep fun _ => .failed out

/-- Every run from the start. -/
theorem saveRun_run {rawCache : RawChunkCache} {disk : Disk}
    {actions : List SaveAction}
    (hrun : Machine.run (SaverState.step zstd cachePath compressionLevel)
      (SaverState.start rawCache disk) actions = some (s, out)) :
    SaveRun zstd cachePath compressionLevel s out := by
  have hstep : ∀ (s : SaverState) (past : List SaveAction)
      (emitted : List SaveEvent) (action : SaveAction) (s' : SaverState)
      (out : List SaveEvent),
      SaveRun zstd cachePath compressionLevel s emitted →
      s.step zstd cachePath compressionLevel action = some (s', out) →
      SaveRun zstd cachePath compressionLevel s' (emitted ++ out) := by
    intro s past emitted action s' out h hs
    have hnext : SaveRun zstd cachePath compressionLevel
        (s.act zstd cachePath compressionLevel action).1
        (emitted ++ (s.act zstd cachePath compressionLevel action).2) := by
      cases action with
      | cache action => exact h.cache action
      | trySave => exact h.begin
      | fileStep result => exact h.file result
    rwa [Option.some.inj hs] at hnext
  refine Machine.run_history hstep (.resting ?_ ?_) hrun
  · intro rawCache stage h
    cases h
  · intro _
    exact .untouched

-- ======================================================== the file in place

/-- The file the last save that succeeded put in place, from the file
there was at first. -/
def lastSaved (file : Option Bytes) (events : List SaveEvent) :
    Option Bytes :=
  events.foldl (fun file event =>
    match event with
    | .saved newFile => some newFile
    | _ => file) file

/-- One action on the disk: the cache file is replaced by a save that
succeeds, and by nothing else. -/
theorem act_kept (zstd : Zstd) (compressionLevel : Int)
    (hpath : cachePath.extension ≠ some "tmp") (s : SaverState)
    (action : SaveAction) :
    (s.act zstd cachePath compressionLevel action).1.disk cachePath
      = lastSaved (s.disk cachePath)
        (s.act zstd cachePath compressionLevel action).2 := by
  have hne : cachePath ≠ cachePath.tempPath := by
    intro heq
    exact hpath (congrArg DiskPath.extension heq)
  cases action with
  | cache action =>
      show (s.actCache action).1.disk cachePath
        = lastSaved _ (s.actCache action).2
      obtain ⟨cache, events, hact, hcases⟩ := actCache_cases s action
      rw [hact]
      rcases hcases with ⟨rfl, -⟩ | ⟨rfl, -⟩
      · rfl
      · rfl
  | trySave =>
      show s.beginSave.1.disk cachePath = lastSaved _ s.beginSave.2
      rcases beginSave_cases s with heq | heq | heq
      all_goals
        rw [heq]
        rfl
  | fileStep result =>
      show (s.fileStep zstd cachePath compressionLevel result).1.disk
        cachePath = lastSaved _
          (s.fileStep zstd cachePath compressionLevel result).2
      cases hwriter : s.writer with
      | sleeping | panicked =>
          rw [fileStep_of_resting (by simp [hwriter])]
          rfl
      | saving rawCache stage =>
          have hmove := fileStep_move zstd cachePath compressionLevel
            hwriter result
          generalize s.fileStep zstd cachePath compressionLevel result
            = next at hmove
          cases hmove with
          | create | write => exact Function.update_of_ne hne _ _
          | metadata => rfl
          | rename file => exact Function.update_self ..
          | fail stage disk hdisk => exact hdisk cachePath hne

/-- Along a run. -/
theorem disk_eq_lastSaved {rawCache : RawChunkCache} {disk : Disk}
    {actions : List SaveAction} (hpath : cachePath.extension ≠ some "tmp")
    (hrun : Machine.run (SaverState.step zstd cachePath compressionLevel)
      (SaverState.start rawCache disk) actions = some (s, out)) :
    s.disk cachePath = lastSaved (disk cachePath) out := by
  have hstep : ∀ (s : SaverState) (past : List SaveAction)
      (emitted : List SaveEvent) (action : SaveAction) (s' : SaverState)
      (out : List SaveEvent),
      s.disk cachePath = lastSaved (disk cachePath) emitted →
      s.step zstd cachePath compressionLevel action = some (s', out) →
      s'.disk cachePath = lastSaved (disk cachePath) (emitted ++ out) := by
    intro s past emitted action s' out h hs
    have hkept := act_kept zstd compressionLevel hpath s action
    rw [Option.some.inj hs, h] at hkept
    rw [lastSaved, List.foldl_append]
    exact hkept
  exact Machine.run_history hstep rfl hrun

-- ============================================================= no lost save

/-- After every save that failed another one was begun. -/
def Recovered (events : List SaveEvent) : Prop :=
  ∀ before after, events = before ++ .failed :: after →
    ∃ rawCache, SaveEvent.snapshot rawCache ∈ after

/-- Saving the cache, over every run of it, its writer and the file work.
Where the flag is down, `mark_dirty` was called at some time, no save is
going on and the last one did not fail, the cache file is a snapshot of
the whole cache, taken after the last `mark_dirty`. And with a cache file
that is not called `tmp`, the file is always the one of the last save
that succeeded, whatever failed since. -/
theorem no_lost_save {rawCache : RawChunkCache} {disk : Disk}
    {actions : List SaveAction}
    (hrun : Machine.run (SaverState.step zstd cachePath compressionLevel)
      (SaverState.start rawCache disk) actions = some (s, out)) :
    (s.cache.inner.needsSaving = false → .marked ∈ out →
      (∀ rawCache stage, s.writer ≠ .saving rawCache stage) →
      Recovered out →
      ∃ before snapshot after file,
        out = before ++ .snapshot snapshot :: after
        ∧ .marked ∉ after
        ∧ writeCacheFile zstd compressionLevel snapshot = some file
        ∧ s.disk cachePath = some file)
    ∧ (cachePath.extension ≠ some "tmp" →
        s.disk cachePath = lastSaved (disk cachePath) out) := by
  refine ⟨?_, fun hpath => disk_eq_lastSaved hpath hrun⟩
  intro hdown hmarked hresting hrecovered
  cases saveRun_run hrun with
  | saving rawCache stage before after hwriter =>
      exact absurd hwriter (hresting rawCache stage)
  | resting _ hflag =>
      cases hflag hdown with
      | untouched => cases hmarked
      | failed before =>
          obtain ⟨rawCache, hin⟩ := hrecovered before [] rfl
          cases hin
      | saved before snapshot file hfile hdisk =>
          refine ⟨before, snapshot, [.saved file], file, rfl, ?_, hfile,
            hdisk⟩
          intro hin
          cases List.mem_singleton.mp hin

end Steps

/-- A cache file without an extension. -/
def plainPath : DiskPath := ⟨"chunk-cache", none⟩

/-- A save in which everything goes well. -/
theorem no_lost_save_twoChunkCache :
    ∃ s out before snapshot after file,
      Machine.run (SaverState.step keptZstd plainPath 3)
        (SaverState.start twoChunkCache fun _ => none)
        [ .cache .markDirty, .trySave, .fileStep .ok, .fileStep .ok
        , .fileStep .ok, .fileStep .ok ] = some (s, out)
      ∧ s.cache.inner.needsSaving = false
      ∧ out = before ++ .snapshot snapshot :: after
      ∧ .marked ∉ after
      ∧ writeCacheFile keptZstd 3 snapshot = some file
      ∧ s.disk plainPath = some file := by
  have hrun : Machine.run (SaverState.step keptZstd plainPath 3)
      (SaverState.start twoChunkCache fun _ => none)
      [ .cache .markDirty, .trySave, .fileStep .ok, .fileStep .ok
      , .fileStep .ok, .fileStep .ok ]
      = some (_, [.marked, .snapshot twoChunkCache, .saved _]) := rfl
  have hrecovered : ∀ file : Bytes, Recovered
      [.marked, .snapshot twoChunkCache, .saved file] := by
    intro file before after hout
    have hin : SaveEvent.failed ∈ before ++ .failed :: after :=
      List.mem_append_right _ (List.mem_cons_self ..)
    rw [← hout] at hin
    simp at hin
  obtain ⟨before, snapshot, after, file, hout, hafter, hfile, hdisk⟩ :=
    (no_lost_save hrun).1 rfl (List.mem_cons_self ..)
      (fun _ _ h => by cases h) (hrecovered _)
  exact ⟨_, _, before, snapshot, after, file, hrun, rfl, hout, hafter,
    hfile, hdisk⟩

/-- A save that fails at its first step: the flag stays down, and there
is no file. And for a cache file called `tmp`, a save that fails in the
middle of its write takes the previous file with it. -/
theorem failed_save_is_lost :
    (∃ s out,
      Machine.run (SaverState.step keptZstd plainPath 3)
        (SaverState.start twoChunkCache fun _ => none)
        [.cache .markDirty, .trySave, .fileStep (.err [])] = some (s, out)
      ∧ s.writer = .sleeping
      ∧ s.cache.inner.needsSaving = false
      ∧ .marked ∈ out
      ∧ s.disk plainPath = none)
    ∧ ∃ s out,
      Machine.run (SaverState.step keptZstd plainPath.tempPath 3)
        (SaverState.start twoChunkCache fun _ => some [1, 2, 3])
        [ .cache .markDirty, .trySave, .fileStep .ok
        , .fileStep (.err [0x28]) ] = some (s, out)
      ∧ s.cache.inner.needsSaving = false
      ∧ s.disk plainPath.tempPath = some [0x28] := by
  refine ⟨⟨_, _, rfl, rfl, rfl, ?_, rfl⟩, _, _, rfl, rfl, ?_⟩
  · exact List.mem_cons_self ..
  · rfl

end FactoryCacher
