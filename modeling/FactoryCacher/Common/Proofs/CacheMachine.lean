/-
The cache machine: what a step can do, and what every run keeps.

# Moves

`CacheMove` lists the things that can happen to the cache and its tasks:
nothing of note (`quiet`), a task claims a batch, starts to wait, fulfils
its batch, closes an event, or leaves what it was doing for `idle` or a
panic (`leave`, with the reasons the panics can have). `act_move` says
once that every action is one of them; the invariants are proved by cases
on the move and never look at an action's definition.

# The invariant

`CacheInv` is about the pending map. A key that is cached is not
pending; the keys pending for the event of a held batch are exactly the
batch's keys, so two batches with a key in common have one event, and
one event has one holder. An event is retired once its batch is
fulfilled, before it is closed: nothing is pending for a retired event,
and no new batch gets an old event.

Nothing here says that a pending key has a holder. A batch that is
dropped leaves its keys pending for ever; see Common/Proofs/FetchRelease.
-/
import FactoryCacher.Common.Proofs.CacheOps

namespace FactoryCacher

open RawChunkCache

namespace CacheState

@[simp] theorem setTask_self (s : CacheState) (task : Nat)
    (state : TaskState) : (s.setTask task state).tasks task = state := by
  simp [setTask]

/-- Whose state it is after one was set. -/
theorem setTask_cases {s : CacheState} {task other : Nat}
    {state state' : TaskState}
    (h : (s.setTask task state).tasks other = state') :
    (other = task ∧ state = state')
    ∨ (other ≠ task ∧ s.tasks other = state') := by
  by_cases ho : other = task
  · subst ho
    rw [setTask_self] at h
    exact Or.inl ⟨rfl, h⟩
  · simp only [setTask, Function.update_of_ne ho] at h
    exact Or.inr ⟨ho, h⟩

theorem setTask_of_ne (s : CacheState) {task other : Nat}
    (state : TaskState) (h : other ≠ task) :
    (s.setTask task state).tasks other = s.tasks other := by
  simp [setTask, h]

end CacheState

-- ============================================================== other tasks

/-- The task an action is of. -/
def CacheAction.task : CacheAction → Option Nat
  | .call task _ _ => some task
  | .wake task => some task
  | .fulfill task _ => some task
  | .close task => some task
  | .drop task => some task
  | .markDirty => none
  | .snapshot => none

namespace CacheState

variable {s : CacheState} {task other : Nat}

theorem tasks_actCall (h : other ≠ task) (chunksRequested : List ChunkKey)
    (batchSize : Nat) :
    (s.actCall task chunksRequested batchSize).1.tasks other
      = s.tasks other := by
  rw [actCall]
  split
  case isTrue => exact setTask_of_ne _ _ h
  case isFalse =>
    dsimp only
    rw [afterCall]
    split
    case h_3 => rfl
    all_goals exact setTask_of_ne _ _ h

theorem tasks_actWake (h : other ≠ task)
    (pendingRequests : List (ChunkKey × Nat)) :
    (s.actWake task pendingRequests).1.tasks other = s.tasks other := by
  rw [actWake]
  split
  case isTrue => exact setTask_of_ne _ _ h
  case isFalse =>
    dsimp only
    rw [afterWait]
    split
    all_goals exact setTask_of_ne _ _ h

theorem tasks_actFulfill (h : other ≠ task) (batch : BatchChunkRequest)
    (chunks : List Bytes) :
    (s.actFulfill task batch chunks).1.tasks other = s.tasks other := by
  rw [actFulfill]
  split
  case isTrue => exact setTask_of_ne _ _ h
  case isFalse =>
    split
    case isTrue => exact setTask_of_ne _ _ h
    case isFalse =>
      split
      all_goals exact setTask_of_ne _ _ h

/-- An action changes no other task. -/
theorem tasks_act {action : CacheAction} (h : action.task ≠ some other) :
    (s.act action).1.tasks other = s.tasks other := by
  have hne : ∀ {task : Nat}, some task ≠ some other → other ≠ task :=
    fun h heq => h (heq ▸ rfl)
  cases action with
  | markDirty | snapshot =>
      rw [act, setNeedsSaving]
      split <;> rfl
  | call task chunksRequested batchSize =>
      rw [act]
      split
      case h_1 => exact tasks_actCall (hne h) chunksRequested batchSize
      case h_2 => rfl
  | wake task =>
      rw [act]
      split
      case h_1 requests _ =>
        split
        case isTrue => exact tasks_actWake (hne h) requests
        case isFalse => rfl
      case h_2 => rfl
  | fulfill task chunks =>
      rw [act]
      split
      case h_1 batch _ _ => exact tasks_actFulfill (hne h) batch chunks
      case h_2 => rfl
  | close task =>
      rw [act]
      split
      case h_1 => exact setTask_of_ne _ _ (hne h)
      case h_2 => rfl
  | drop task =>
      rw [act]
      split
      case h_3 => rfl
      all_goals exact setTask_of_ne _ _ (hne h)

end CacheState

-- ==================================================================== moves

/-- A task left for `idle` or a panic, and why. -/
structure Leaves (s : CacheState) (action : CacheAction) (task : Nat)
    (state : TaskState) : Prop where
  ends : state = .idle ∨ ∃ panic, state = .panicked panic
  /-- a batch is left by giving up, or in a `fulfill` that panics -/
  batch : ∀ batch batchSize, s.tasks task = .holding batch batchSize →
    action = .drop task ∨ ∃ chunks, action = .fulfill task chunks
      ∧ (batch.batchKeys.length ≠ chunks.length ∨ s.poisoned = true)
  notPending : state = .panicked .notPending →
    ∃ chunksRequested, action = .call task chunksRequested 0
  notInCache : state = .panicked .notInCache →
    ∃ requests, s.tasks task = .waiting requests
      ∧ (∀ request ∈ requests, request.2 ∈ s.closed)
      ∧ ∃ request ∈ requests, request.1 ∉ s.inner.rawCache.chunks.keys

/-- What can happen. -/
inductive CacheMove (s : CacheState) (action : CacheAction) :
    CacheState → Prop
  | quiet (inner : ChunkCacheInner)
      (hre : Reordered s.inner.rawCache inner.rawCache)
      (hpending : inner.pendingChunks = s.inner.pendingChunks) :
      CacheMove s action { s with inner := inner }
  | claim (task : Nat) (batch : BatchChunkRequest) (batchSize : Nat)
      (inner : ChunkCacheInner) (hidle : s.tasks task = .idle)
      (hbatch : Claimed s.inner batchSize s.nextEvent batch)
      (hre : Reordered s.inner.rawCache inner.rawCache)
      (hpending : inner.pendingChunks
        = markPending s.nextEvent batch.batchKeys s.inner.pendingChunks) :
      CacheMove s action
        { s.setTask task (.holding batch batchSize) with
          inner := inner, nextEvent := s.nextEvent + 1 }
  | wait (task : Nat) (requests : List (ChunkKey × Nat))
      (inner : ChunkCacheInner) (hidle : s.tasks task = .idle)
      (hrequests : ∀ request ∈ requests,
        s.inner.pendingChunks request.1 = some request.2)
      (hre : Reordered s.inner.rawCache inner.rawCache)
      (hpending : inner.pendingChunks = s.inner.pendingChunks) :
      CacheMove s action
        { s.setTask task (.waiting requests) with inner := inner }
  | fulfill (task : Nat) (batch : BatchChunkRequest) (batchSize : Nat)
      (chunks : List Bytes) (inner : ChunkCacheInner)
      (haction : action = .fulfill task chunks)
      (hheld : s.tasks task = .holding batch batchSize)
      (hlen : batch.batchKeys.length = chunks.length)
      (hinner : Fulfilled s.inner (batch.batchKeys.zip chunks) inner) :
      CacheMove s action
        { s.setTask task (.closing batch.event) with inner := inner }
  | close (task event : Nat) (hclosing : s.tasks task = .closing event) :
      CacheMove s action
        { s.setTask task .idle with closed := event :: s.closed }
  | leave (task : Nat) (state : TaskState) (inner : ChunkCacheInner)
      (poisoned : Bool) (hleaves : Leaves s action task state)
      (hre : Reordered s.inner.rawCache inner.rawCache)
      (hpending : inner.pendingChunks = s.inner.pendingChunks) :
      CacheMove s action
        { s.setTask task state with inner := inner, poisoned := poisoned }

/-- An action that does nothing. -/
theorem CacheMove.stay (s : CacheState) (action : CacheAction) :
    CacheMove s action s :=
  CacheMove.quiet s.inner (Reordered.refl _) rfl

/-- A task that was not holding a batch leaves with a panic of no
interest, or for `idle`. -/
theorem Leaves.of_free {s : CacheState} {action : CacheAction} {task : Nat}
    {state : TaskState} (hends : state = .idle ∨ state = .panicked .poisoned)
    (hfree : ∀ batch batchSize, s.tasks task ≠ .holding batch batchSize) :
    Leaves s action task state := by
  rcases hends with rfl | rfl
  · exact ⟨Or.inl rfl, fun b n h => absurd h (hfree b n), nofun, nofun⟩
  · exact ⟨Or.inr ⟨_, rfl⟩, fun b n h => absurd h (hfree b n), nofun,
      nofun⟩

-- ============================================================ the invariant

/-- What is known of a held batch. -/
structure HeldBatch (inner : ChunkCacheInner) (batch : BatchChunkRequest)
    (batchSize : Nat) : Prop where
  nonempty : batch.batchKeys ≠ []
  nodup : batch.batchKeys.Nodup
  bounded : batch.batchKeys.length ≤ batchSize
  pending : ∀ key, inner.pendingChunks key = some batch.event
    ↔ key ∈ batch.batchKeys

/-- The batch of this event has been fulfilled. -/
def Retired (s : CacheState) (event : Nat) : Prop :=
  event ∈ s.closed ∨ ∃ task, s.tasks task = .closing event

structure CacheInv (s : CacheState) : Prop where
  sized : s.inner.rawCache.Sized
  apart : ∀ key ∈ s.inner.rawCache.chunks.keys,
    s.inner.pendingChunks key = none
  held : ∀ task batch batchSize, s.tasks task = .holding batch batchSize →
    HeldBatch s.inner batch batchSize
  oneHolder : ∀ task other batch batch' size size',
    s.tasks task = .holding batch size →
    s.tasks other = .holding batch' size' → batch.event = batch'.event →
    task = other
  pendingOld : ∀ key event, s.inner.pendingChunks key = some event →
    event < s.nextEvent
  retiredOld : ∀ event, Retired s event → event < s.nextEvent
  pendingOpen : ∀ key event, s.inner.pendingChunks key = some event →
    ¬ Retired s event

/-- The event of a held batch is an old one. -/
theorem CacheInv.held_old {s : CacheState} (h : CacheInv s) {task : Nat}
    {batch : BatchChunkRequest} {batchSize : Nat}
    (hheld : s.tasks task = .holding batch batchSize) :
    batch.event < s.nextEvent := by
  have hb := h.held task batch batchSize hheld
  obtain ⟨key, hkey⟩ := List.exists_mem_of_ne_nil _ hb.nonempty
  exact h.pendingOld key _ ((hb.pending key).2 hkey)

theorem cacheInv_ofRaw {c : RawChunkCache} (hc : c.Sized) :
    CacheInv (CacheState.ofRaw c) where
  sized := hc
  apart _ _ := rfl
  held _ _ _ := nofun
  oneHolder _ _ _ _ _ _ := nofun
  pendingOld _ _ := nofun
  retiredOld _ h := by
    rcases h with h | ⟨_, h⟩
    · exact absurd h List.not_mem_nil
    · cases h
  pendingOpen _ _ := nofun

-- ======================================================== actions are moves

variable {s : CacheState} {task : Nat}

/-- What the cache tells when it is as it should be. -/
def EventOk (s : CacheState) : CacheEvent → Prop
  | .found _ key chunk => (key, chunk) ∈ s.inner.rawCache.chunks.entries
  | .insertedTwice _ => False

/-- The chunks a call outputs are entries. -/
theorem eventOk_found {found : List (ChunkKey × Bytes)}
    (hfound : ∀ e ∈ found, e ∈ s.inner.rawCache.chunks.entries) :
    ∀ event ∈ found.map fun (key, chunk) => CacheEvent.found task key chunk,
      EventOk s event := by
  intro event hevent
  obtain ⟨e, he, rfl⟩ := List.mem_map.1 hevent
  exact hfound e he

/-- A task meets a poisoned lock. -/
theorem CacheMove.of_poisoned {action : CacheAction}
    (hfree : ∀ batch batchSize, s.tasks task ≠ .holding batch batchSize) :
    CacheMove s action (s.setTask task (.panicked .poisoned)) :=
  CacheMove.leave task _ s.inner s.poisoned
    (Leaves.of_free (Or.inr rfl) hfree) (Reordered.refl _) rfl

theorem actCall_move (hidle : s.tasks task = .idle)
    (chunksRequested : List ChunkKey) (batchSize : Nat) :
    CacheMove s (.call task chunksRequested batchSize)
      (s.actCall task chunksRequested batchSize).1
    ∧ ∀ event ∈ (s.actCall task chunksRequested batchSize).2,
        EventOk s event := by
  have hfree : ∀ batch size, s.tasks task ≠ .holding batch size := by
    simp [hidle]
  rw [CacheState.actCall]
  by_cases hpoison : s.poisoned = true
  · rw [if_pos hpoison]
    exact ⟨CacheMove.of_poisoned hfree, nofun⟩
  · rw [if_neg hpoison]
    have hr := getChunksBatched_spec s.inner chunksRequested batchSize
      s.nextEvent
    dsimp only
    generalize getChunksBatched s.inner chunksRequested batchSize
      s.nextEvent = r at hr
    refine ⟨?_, eventOk_found hr.found⟩
    rw [CacheState.afterCall]
    cases hr.ends with
    | batch batch houtcome hbatch hpending =>
        rw [houtcome]
        exact .claim task batch batchSize r.inner hidle hbatch hr.reordered
          hpending
    | wait requests houtcome hrequests hpending =>
        rw [houtcome]
        exact .wait task requests r.inner hidle hrequests hr.reordered
          hpending
    | complete houtcome hpending =>
        rw [houtcome]
        exact .quiet r.inner hr.reordered hpending
    | notPending houtcome hzero hpending =>
        rw [houtcome, hzero]
        refine .leave task _ r.inner true ?_ hr.reordered hpending
        exact ⟨Or.inr ⟨_, rfl⟩, fun b n hb => absurd hb (hfree b n),
          fun _ => ⟨_, rfl⟩, nofun⟩

theorem actWake_move {requests : List (ChunkKey × Nat)}
    (hwaiting : s.tasks task = .waiting requests)
    (hclosed : ∀ request ∈ requests, request.2 ∈ s.closed) :
    CacheMove s (.wake task) (s.actWake task requests).1
    ∧ ∀ event ∈ (s.actWake task requests).2, EventOk s event := by
  have hfree : ∀ batch size, s.tasks task ≠ .holding batch size := by
    simp [hwaiting]
  rw [CacheState.actWake]
  by_cases hpoison : s.poisoned = true
  · rw [if_pos hpoison]
    exact ⟨CacheMove.of_poisoned hfree, nofun⟩
  · rw [if_neg hpoison]
    obtain ⟨hre, hfound, hall⟩ := takeWaited_spec requests s.inner.rawCache
    generalize takeWaited requests s.inner.rawCache = taken at hre hfound hall
    obtain ⟨rawCache, found, all⟩ := taken
    refine ⟨?_, eventOk_found hfound⟩
    cases all with
    | true =>
        exact .leave task .idle { s.inner with rawCache := rawCache }
          s.poisoned (Leaves.of_free (Or.inl rfl) hfree) hre rfl
    | false =>
        refine .leave task (.panicked .notInCache)
          { s.inner with rawCache := rawCache } true ?_ hre rfl
        refine ⟨Or.inr ⟨_, rfl⟩, fun b n hb => absurd hb (hfree b n), nofun,
          fun _ => ?_⟩
        refine ⟨requests, hwaiting, hclosed, ?_⟩
        by_contra hnone
        push Not at hnone
        exact absurd (hall hnone).1 Bool.false_ne_true

theorem actFulfill_move (h : CacheInv s) {batch : BatchChunkRequest}
    {batchSize : Nat} (hheld : s.tasks task = .holding batch batchSize)
    (chunks : List Bytes) :
    CacheMove s (.fulfill task chunks) (s.actFulfill task batch chunks).1
    ∧ ∀ event ∈ (s.actFulfill task batch chunks).2, EventOk s event := by
  -- the two panics leave the cache as it is
  have hpanic : ∀ panic, panic = .chunkCount ∨ panic = .poisoned →
      batch.batchKeys.length ≠ chunks.length ∨ s.poisoned = true →
      CacheMove s (.fulfill task chunks)
        (s.setTask task (.panicked panic)) := by
    intro panic hpanic hwhy
    refine .leave task _ s.inner s.poisoned ?_ (Reordered.refl _) rfl
    refine ⟨Or.inr ⟨_, rfl⟩, ?_, ?_, ?_⟩
    · intro b n hb
      rw [hheld] at hb
      cases hb
      exact Or.inr ⟨chunks, rfl, hwhy⟩
    all_goals
      rcases hpanic with rfl | rfl <;> exact nofun
  rw [CacheState.actFulfill]
  by_cases hlen : batch.batchKeys.length = chunks.length
  · rw [if_neg (not_not.2 hlen)]
    by_cases hpoison : s.poisoned = true
    · rw [if_pos hpoison]
      exact ⟨hpanic _ (Or.inr rfl) (Or.inr hpoison), nofun⟩
    · rw [if_neg hpoison]
      have hb := h.held task batch batchSize hheld
      have hkeys : (batch.batchKeys.zip chunks).map Prod.fst
          = batch.batchKeys := List.map_fst_zip hlen.le
      have hnew : ∀ key ∈ (batch.batchKeys.zip chunks).map Prod.fst,
          key ∉ s.inner.rawCache.chunks.keys := by
        -- a pending key is not cached
        intro key hkey hcached
        rw [hkeys, ← hb.pending, h.apart key hcached] at hkey
        cases hkey
      obtain ⟨inner, hloop, hinner⟩ := fulfillLoop_spec
        (batch.batchKeys.zip chunks) s.inner h.sized (hkeys.symm ▸ hb.nodup)
        hnew
      rw [hloop]
      exact ⟨.fulfill task batch batchSize chunks inner rfl hheld hlen
        hinner, nofun⟩
  · rw [if_pos hlen]
    exact ⟨hpanic _ (Or.inl rfl) (Or.inl hlen), nofun⟩

/-- Every action is a move, every chunk it outputs is an entry, and no
chunk is inserted twice. -/
theorem act_move (h : CacheInv s) (action : CacheAction) :
    CacheMove s action (s.act action).1
    ∧ ∀ event ∈ (s.act action).2, EventOk s event := by
  have hstay : CacheMove s action s ∧ ∀ event ∈ [], EventOk s event :=
    ⟨CacheMove.stay s action, nofun⟩
  cases action with
  | call task chunksRequested batchSize =>
      rw [CacheState.act]
      cases htask : s.tasks task with
      | idle => exact actCall_move htask chunksRequested batchSize
      | _ => exact hstay
  | wake task =>
      rw [CacheState.act]
      cases htask : s.tasks task with
      | waiting requests =>
          dsimp only
          by_cases hclosed : ∀ request ∈ requests, request.2 ∈ s.closed
          · rw [if_pos hclosed]
            exact actWake_move htask hclosed
          · rw [if_neg hclosed]
            exact hstay
      | _ => exact hstay
  | fulfill task chunks =>
      rw [CacheState.act]
      cases htask : s.tasks task with
      | holding batch batchSize => exact actFulfill_move h htask chunks
      | _ => exact hstay
  | close task =>
      rw [CacheState.act]
      cases htask : s.tasks task with
      | closing event => exact ⟨.close task event htask, nofun⟩
      | _ => exact hstay
  | drop task =>
      rw [CacheState.act]
      cases htask : s.tasks task with
      | holding batch batchSize =>
          refine ⟨.leave task .idle s.inner s.poisoned ?_ (Reordered.refl _)
            rfl, nofun⟩
          exact ⟨Or.inl rfl, fun _ _ _ => Or.inl rfl, nofun, nofun⟩
      | waiting requests =>
          refine ⟨.leave task .idle s.inner s.poisoned ?_ (Reordered.refl _)
            rfl, nofun⟩
          exact Leaves.of_free (Or.inl rfl) (by simp [htask])
      | _ => exact hstay
  | markDirty =>
      rw [CacheState.act, CacheState.setNeedsSaving]
      by_cases hpoison : s.poisoned = true
      · rw [if_pos hpoison]
        exact hstay
      · rw [if_neg hpoison]
        exact ⟨.quiet _ (Reordered.refl _) rfl, nofun⟩
  | snapshot =>
      rw [CacheState.act, CacheState.setNeedsSaving]
      by_cases hpoison : s.poisoned = true
      · rw [if_pos hpoison]
        exact hstay
      · rw [if_neg hpoison]
        exact ⟨.quiet _ (Reordered.refl _) rfl, nofun⟩

-- ========================================================== the invariant

/-- Moves that claim and fulfil nothing keep the invariant: the pending
map is as it was, nobody holds a new batch, no event is newly retired. -/
theorem CacheInv.of_less {s' : CacheState} (h : CacheInv s)
    (hre : Reordered s.inner.rawCache s'.inner.rawCache)
    (hpending : s'.inner.pendingChunks = s.inner.pendingChunks)
    (hnext : s'.nextEvent = s.nextEvent)
    (hheld : ∀ task batch batchSize,
      s'.tasks task = .holding batch batchSize →
      s.tasks task = .holding batch batchSize)
    (hretired : ∀ event, Retired s' event → Retired s event) :
    CacheInv s' where
  sized := hre.sized h.sized
  apart key hkey := by
    rw [hpending]
    exact h.apart key (hre.mem_keys.1 hkey)
  held task batch batchSize hb := by
    have hb := h.held task batch batchSize (hheld task batch batchSize hb)
    exact { hb with pending := by rw [hpending]; exact hb.pending }
  oneHolder task other batch batch' size size' hb hb' :=
    h.oneHolder task other batch batch' size size'
      (hheld task batch size hb) (hheld other batch' size' hb')
  pendingOld := by
    rw [hpending, hnext]
    exact h.pendingOld
  retiredOld event he := hnext ▸ h.retiredOld event (hretired event he)
  pendingOpen key event hk he :=
    h.pendingOpen key event (hpending ▸ hk) (hretired event he)

/-- What is retired after a task changed was retired, or the task is now
closing it. -/
theorem Retired.of_setTask {s' : CacheState} {state : TaskState}
    {event : Nat} (h : Retired s' event)
    (htasks : s'.tasks = (s.setTask task state).tasks)
    (hclosed : ∀ event ∈ s'.closed, Retired s event) :
    Retired s event ∨ state = .closing event := by
  rcases h with he | ⟨t, he⟩
  · exact Or.inl (hclosed event he)
  · rw [htasks] at he
    rcases CacheState.setTask_cases he with ⟨-, hnew⟩ | ⟨-, hold⟩
    · exact Or.inr hnew
    · exact Or.inl (Or.inr ⟨t, hold⟩)

section Claim

variable {batch : BatchChunkRequest} {batchSize : Nat}
  {inner : ChunkCacheInner}

/-- A claimed batch is held: nothing was pending for the new event. -/
theorem CacheInv.held_claimed (h : CacheInv s)
    (hbatch : Claimed s.inner batchSize s.nextEvent batch)
    (hpending : inner.pendingChunks
      = markPending s.nextEvent batch.batchKeys s.inner.pendingChunks) :
    HeldBatch inner batch batchSize := by
  refine ⟨hbatch.nonempty, hbatch.nodup, hbatch.bounded, fun key => ?_⟩
  rw [hpending, markPending_apply, hbatch.event]
  by_cases hin : key ∈ batch.batchKeys
  · simp [hin]
  · simp only [hin, if_false, iff_false]
    intro hkey
    exact absurd (h.pendingOld key _ hkey) (lt_irrefl _)

/-- The batches held before stay held: the keys claimed were free, and
the new event is none of theirs. -/
theorem CacheInv.held_beside_claimed (h : CacheInv s)
    (hbatch : Claimed s.inner batchSize s.nextEvent batch)
    (hpending : inner.pendingChunks
      = markPending s.nextEvent batch.batchKeys s.inner.pendingChunks)
    {other : Nat} {b : BatchChunkRequest} {n : Nat}
    (hold : s.tasks other = .holding b n) : HeldBatch inner b n := by
  have hheld := h.held other b n hold
  refine { hheld with pending := fun key => ?_ }
  rw [hpending, markPending_apply, ← hheld.pending key]
  by_cases hin : key ∈ batch.batchKeys
  · rw [if_pos hin, hbatch.notPending key hin]
    have hne := (h.held_old hold).ne'
    simp [hne]
  · rw [if_neg hin]

/-- A new batch: its event is new and its keys were free. -/
theorem CacheInv.claim (h : CacheInv s)
    (hbatch : Claimed s.inner batchSize s.nextEvent batch)
    (hre : Reordered s.inner.rawCache inner.rawCache)
    (hpending : inner.pendingChunks
      = markPending s.nextEvent batch.batchKeys s.inner.pendingChunks) :
    CacheInv { s.setTask task (.holding batch batchSize) with
      inner := inner, nextEvent := s.nextEvent + 1 } := by
  have hretired : ∀ event, Retired { s.setTask task
      (.holding batch batchSize) with
      inner := inner, nextEvent := s.nextEvent + 1 } event →
      Retired s event := by
    intro event he
    exact (he.of_setTask rfl fun _ => Or.inl).resolve_right nofun
  -- an older holder has an older event
  have hother : ∀ {t b n}, s.tasks t = .holding b n →
      b.event ≠ batch.event := by
    intro t b n hold
    rw [hbatch.event]
    exact (h.held_old hold).ne
  refine {
    sized := hre.sized h.sized, apart := ?_, held := ?_, oneHolder := ?_
    pendingOld := ?_, retiredOld := ?_, pendingOpen := ?_ }
  · intro key hkey
    have hkey : key ∈ s.inner.rawCache.chunks.keys := hre.mem_keys.1 hkey
    show inner.pendingChunks key = none
    rw [hpending, markPending_apply,
      if_neg fun hin => hbatch.notCached key hin hkey]
    exact h.apart key hkey
  · intro t b n hb
    rcases CacheState.setTask_cases hb with ⟨rfl, hnew⟩ | ⟨-, hold⟩
    · cases hnew
      exact h.held_claimed hbatch hpending
    · exact h.held_beside_claimed hbatch hpending hold
  · intro t u b b' n n' hb hb' hevent
    rcases CacheState.setTask_cases hb with ⟨rfl, hnew⟩ | ⟨-, hold⟩
    · cases hnew
      rcases CacheState.setTask_cases hb' with ⟨rfl, -⟩ | ⟨-, hold'⟩
      · rfl
      · exact absurd hevent.symm (hother hold')
    · rcases CacheState.setTask_cases hb' with ⟨rfl, hnew⟩ | ⟨-, hold'⟩
      · cases hnew
        exact absurd hevent (hother hold)
      · exact h.oneHolder t u b b' n n' hold hold' hevent
  · intro key event hk
    have hk : inner.pendingChunks key = some event := hk
    rw [hpending] at hk
    rcases markPending_eq_some hk with ⟨-, rfl⟩ | hk
    · exact Nat.lt_succ_self _
    · exact Nat.lt_succ_of_lt (h.pendingOld key event hk)
  · intro event he
    exact Nat.lt_succ_of_lt (h.retiredOld event (hretired event he))
  · intro key event hk he
    have hk : inner.pendingChunks key = some event := hk
    have he := hretired event he
    rw [hpending] at hk
    rcases markPending_eq_some hk with ⟨-, rfl⟩ | hk
    · exact absurd (h.retiredOld _ he) (lt_irrefl _)
    · exact h.pendingOpen key event hk he

end Claim

section Fulfill

variable {batch : BatchChunkRequest} {batchSize : Nat}
  {inner : ChunkCacheInner}

/-- What is still pending was pending, for another event. -/
theorem HeldBatch.still_pending (hb : HeldBatch s.inner batch batchSize)
    (hpending : ∀ key, inner.pendingChunks key
      = if key ∈ batch.batchKeys then none else s.inner.pendingChunks key)
    {key : ChunkKey} {event : Nat}
    (hk : inner.pendingChunks key = some event) :
    s.inner.pendingChunks key = some event ∧ event ≠ batch.event := by
  rw [hpending] at hk
  by_cases hin : key ∈ batch.batchKeys
  · rw [if_pos hin] at hk
    cases hk
  · rw [if_neg hin] at hk
    refine ⟨hk, ?_⟩
    rintro rfl
    exact hin ((hb.pending key).1 hk)

/-- A batch of another event stays held. -/
theorem HeldBatch.of_other (hb : HeldBatch s.inner batch batchSize)
    (hpending : ∀ key, inner.pendingChunks key
      = if key ∈ batch.batchKeys then none else s.inner.pendingChunks key)
    {b : BatchChunkRequest} {n : Nat} (hheld : HeldBatch s.inner b n)
    (hne : b.event ≠ batch.event) : HeldBatch inner b n := by
  refine { hheld with pending := fun key => ?_ }
  rw [← hheld.pending key]
  constructor
  · intro hk
    exact (hb.still_pending hpending hk).1
  · intro hk
    rw [hpending, if_neg, hk]
    intro hin
    rw [(hb.pending key).2 hin] at hk
    exact hne (Option.some.inj hk).symm

/-- A batch is fulfilled: its keys, and no others, stop being pending,
and its event is retired. -/
theorem CacheInv.fulfill (h : CacheInv s) {chunks : List Bytes}
    (hheld : s.tasks task = .holding batch batchSize)
    (hlen : batch.batchKeys.length = chunks.length)
    (hinner : Fulfilled s.inner (batch.batchKeys.zip chunks) inner) :
    CacheInv { s.setTask task (.closing batch.event) with
      inner := inner } := by
  have hb := h.held task batch batchSize hheld
  have hkeys : (batch.batchKeys.zip chunks).map Prod.fst
      = batch.batchKeys := List.map_fst_zip hlen.le
  have hpending : ∀ key, inner.pendingChunks key
      = if key ∈ batch.batchKeys then none
        else s.inner.pendingChunks key := by
    intro key
    rw [hinner.pending key, hkeys]
  have hretired : ∀ event, Retired { s.setTask task (.closing batch.event)
      with inner := inner } event → Retired s event
      ∨ event = batch.event := by
    intro event he
    rcases he.of_setTask rfl fun _ => Or.inl with he | hnew
    · exact Or.inl he
    · cases hnew
      exact Or.inr rfl
  refine {
    sized := hinner.sized, apart := ?_, held := ?_, oneHolder := ?_
    pendingOld := ?_, retiredOld := ?_, pendingOpen := ?_ }
  · intro key hkey
    show inner.pendingChunks key = none
    rw [hpending]
    by_cases hin : key ∈ batch.batchKeys
    · rw [if_pos hin]
    · rw [if_neg hin]
      have hkey := (hinner.subset.map Prod.fst).mem hkey
      rw [List.map_append, hkeys, List.mem_append] at hkey
      exact h.apart key (hkey.resolve_right hin)
  · intro t b n hb'
    rcases CacheState.setTask_cases hb' with ⟨-, hnew⟩ | ⟨ht, hold⟩
    · cases hnew
    · refine hb.of_other hpending (h.held t b n hold) ?_
      intro heq
      exact ht (h.oneHolder t task b batch n batchSize hold hheld heq)
  · intro t u b b' n n' hb₁ hb₂ hevent
    rcases CacheState.setTask_cases hb₁ with ⟨-, hnew⟩ | ⟨-, hold⟩
    · cases hnew
    · rcases CacheState.setTask_cases hb₂ with ⟨-, hnew⟩ | ⟨-, hold'⟩
      · cases hnew
      · exact h.oneHolder t u b b' n n' hold hold' hevent
  · intro key event hk
    exact h.pendingOld key event (hb.still_pending hpending hk).1
  · intro event he
    rcases hretired event he with he | rfl
    · exact h.retiredOld event he
    · exact h.held_old hheld
  · intro key event hk he
    obtain ⟨hk, hne⟩ := hb.still_pending hpending hk
    rcases hretired event he with he | rfl
    · exact h.pendingOpen key event hk he
    · exact hne rfl

end Fulfill

/-- A task goes to a state without a batch and without an event to
close. -/
theorem CacheInv.of_setTask {s' : CacheState} {state : TaskState}
    (h : CacheInv s) (htasks : s'.tasks = (s.setTask task state).tasks)
    (hfree : ∀ batch batchSize, state ≠ .holding batch batchSize)
    (hopen : ∀ event, state ≠ .closing event)
    (hre : Reordered s.inner.rawCache s'.inner.rawCache)
    (hpending : s'.inner.pendingChunks = s.inner.pendingChunks)
    (hnext : s'.nextEvent = s.nextEvent)
    (hclosed : ∀ event ∈ s'.closed, Retired s event) : CacheInv s' := by
  refine h.of_less hre hpending hnext ?_ ?_
  · intro t b n hb
    rw [htasks] at hb
    rcases CacheState.setTask_cases hb with ⟨-, hnew⟩ | ⟨-, hold⟩
    · exact absurd hnew (hfree b n)
    · exact hold
  · intro event he
    exact (he.of_setTask htasks hclosed).resolve_right (hopen event)

/-- Who leaves has no batch and no event to close. -/
theorem Leaves.free {action : CacheAction} {state : TaskState}
    (h : Leaves s action task state) :
    (∀ batch batchSize, state ≠ .holding batch batchSize)
    ∧ (∀ event, state ≠ .closing event)
    ∧ ∀ requests, state ≠ .waiting requests := by
  rcases h.ends with rfl | ⟨panic, rfl⟩
  · exact ⟨nofun, nofun, nofun⟩
  · exact ⟨nofun, nofun, nofun⟩

/-- Every move keeps the invariant. -/
theorem CacheMove.inv {action : CacheAction} {s' : CacheState}
    (h : CacheInv s) (hmove : CacheMove s action s') : CacheInv s' := by
  cases hmove with
  | quiet inner hre hpending =>
      exact h.of_less hre hpending rfl (fun _ _ _ => id) (fun _ => id)
  | claim task batch batchSize inner hidle hbatch hre hpending =>
      exact h.claim hbatch hre hpending
  | wait task requests inner hidle hrequests hre hpending =>
      exact h.of_setTask rfl nofun nofun hre hpending rfl fun _ => Or.inl
  | fulfill task batch batchSize chunks inner haction hheld hlen hinner =>
      exact h.fulfill hheld hlen hinner
  | close task event hclosing =>
      refine h.of_setTask rfl nofun nofun (Reordered.refl _) rfl rfl ?_
      intro e he
      -- the event closed now was retired already
      rcases List.mem_cons.1 he with rfl | he
      · exact Or.inr ⟨task, hclosing⟩
      · exact Or.inl he
  | leave task state inner poisoned hleaves hre hpending =>
      exact h.of_setTask rfl hleaves.free.1 hleaves.free.2.1 hre hpending rfl
        fun _ => Or.inl

/-- Every action keeps the invariant. -/
theorem CacheInv.act (h : CacheInv s) (action : CacheAction) :
    CacheInv (s.act action).1 := (act_move h action).1.inv h

end FactoryCacher
