/-
Sharing the chunk cache: fetching is exclusive, waiting is not safe.

# Exclusive fetching

Whatever the tasks do, in whatever order, no two held batches have a key
in common, and no chunk is inserted that is cached already
(`exclusive_fetching`). The expectation "Remaining chunk is not pending"
can only fail for a call with batch size 0, which is the one way a key
is retained that nobody fetches.

# Waiting

A waiter comes back for chunks that were put into the cache when their
batch was fulfilled, but nothing keeps them there. Later chunks of the
same batch, or any batch fulfilled before the waiter gets the lock, can
push them out again; then the waiter panics with the lock held
(`evicted_before_waiter_wakes`). `KeepsWaited` is the condition on a
`fulfill` under which that does not happen: for every key somebody waits
for, what was used since that key and what is now inserted fit into the
limit together. It looks at sizes and the order of use only, and at the
state before the step. `WaitInv` is what carries it through a run: a key
that is waited for is pending for the event waited for, or cached.
-/
import FactoryCacher.Common.Proofs.CacheMachine

namespace FactoryCacher

open RawChunkCache

variable {s : CacheState} {action : CacheAction}

/-- Who panics in a move. -/
theorem CacheMove.panicked {s' : CacheState} (hmove : CacheMove s action s')
    {task : Nat} {panic : CachePanic}
    (h : s'.tasks task = .panicked panic) :
    s.tasks task = .panicked panic
    ∨ Leaves s action task (.panicked panic) := by
  cases hmove with
  | quiet => exact Or.inl h
  | claim | wait | fulfill | close =>
      rcases CacheState.setTask_cases h with ⟨-, hnew⟩ | ⟨-, hold⟩
      · cases hnew
      · exact Or.inl hold
  | leave t state inner poisoned hleaves hre hpending =>
      rcases CacheState.setTask_cases h with ⟨rfl, hnew⟩ | ⟨-, hold⟩
      · exact Or.inr (hnew ▸ hleaves)
      · exact Or.inl hold

-- ======================================================= exclusive fetching

/-- A call asks for batches of at least one chunk. -/
def CacheAction.AsksForSome : CacheAction → Prop
  | .call _ _ batchSize => 1 ≤ batchSize
  | _ => True

/-- What holds in every state when every call asks for some chunks. -/
structure ExclusiveInv (s : CacheState) (out : List CacheEvent) : Prop where
  inv : CacheInv s
  allPending : ∀ task, s.tasks task ≠ .panicked .notPending
  once : ∀ key, .insertedTwice key ∉ out

theorem ExclusiveInv.step {out : List CacheEvent} (h : ExclusiveInv s out)
    (hasks : action.AsksForSome) :
    ExclusiveInv (s.act action).1 (out ++ (s.act action).2) := by
  obtain ⟨hmove, hevents⟩ := act_move h.inv action
  refine ⟨hmove.inv h.inv, ?_, ?_⟩
  · intro task hpanic
    rcases hmove.panicked hpanic with hold | hleaves
    · exact h.allPending task hold
    · obtain ⟨chunksRequested, rfl⟩ := hleaves.notPending rfl
      exact absurd hasks (Nat.not_succ_le_zero 0)
  · intro key hkey
    rcases List.mem_append.1 hkey with hkey | hkey
    · exact h.once key hkey
    · exact hevents _ hkey

/-- Two tasks hold no key in common. -/
theorem CacheInv.disjoint (h : CacheInv s) {task other : Nat}
    {batch batch' : BatchChunkRequest} {size size' : Nat}
    (hb : s.tasks task = .holding batch size)
    (hb' : s.tasks other = .holding batch' size') (hne : task ≠ other) :
    batch.batchKeys.Disjoint batch'.batchKeys := by
  intro key hkey hkey'
  have hevent := ((h.held task batch size hb).pending key).2 hkey
  have hevent' := ((h.held other batch' size' hb').pending key).2 hkey'
  rw [hevent] at hevent'
  exact hne (h.oneHolder task other batch batch' size size' hb hb'
    (Option.some.inj hevent'))

/-- In every state any number of tasks can reach, in any order of their
steps and with any batch dropped: held batches are disjoint, without
repetitions, not larger than asked for, and pending; no key is cached and
pending; no chunk was inserted twice; and no task found a remaining chunk
not pending. -/
theorem exclusive_fetching (blake3 : Bytes → ChunkKey) (maxSize : UInt64)
    (file : Option Bytes) (start : CacheState)
    (hload : CacheState.loadFromFile blake3 maxSize file = .ok start)
    (actions : List CacheAction)
    (hasks : ∀ action ∈ actions, action.AsksForSome) :
    ∃ s out, Machine.run CacheState.step start actions = some (s, out)
      ∧ (∀ task other batch batch' size size',
          s.tasks task = .holding batch size →
          s.tasks other = .holding batch' size' → task ≠ other →
          batch.batchKeys.Disjoint batch'.batchKeys)
      ∧ (∀ task batch size, s.tasks task = .holding batch size →
          batch.batchKeys.Nodup ∧ batch.batchKeys.length ≤ size
          ∧ ∀ key ∈ batch.batchKeys, s.inner.pendingChunks key ≠ none)
      ∧ (∀ key, ¬ (key ∈ s.inner.rawCache.chunks.keys
          ∧ s.inner.pendingChunks key ≠ none))
      ∧ (∀ key, .insertedTwice key ∉ out)
      ∧ ∀ task, s.tasks task ≠ .panicked .notPending := by
  obtain ⟨c, rfl, hc, -, -⟩ := loadFromFile_spec hload
  obtain ⟨s, out, hrun, h⟩ := Machine.run_induction
    (fun s _ out => ExclusiveInv s out)
    (fun s _ out action h hasks => ⟨_, _, rfl, h.step hasks⟩)
    (Machine.stepsMeet_of CacheState.step (fun a ha _ => hasks a ha) _)
    (⟨cacheInv_ofRaw hc, nofun, nofun⟩ :
      ExclusiveInv (CacheState.ofRaw c) [])
  refine ⟨s, out, hrun, ?_, ?_, ?_, h.once, h.allPending⟩
  · intro task other batch batch' size size' hb hb' hne
    exact h.inv.disjoint hb hb' hne
  · intro task batch size hb
    have hheld := h.inv.held task batch size hb
    refine ⟨hheld.nodup, hheld.bounded, fun key hkey => ?_⟩
    rw [(hheld.pending key).2 hkey]
    exact Option.some_ne_none _
  · rintro key ⟨hcached, hpending⟩
    exact hpending (h.inv.apart key hcached)

/-- Three tasks after the same two chunks: the first fetches both and
puts them into the cache, the second waits, the third gives up a batch
of its own. -/
def threeTasks : List CacheAction :=
  [ .call 0 [blake3Sample [0], blake3Sample [0, 1], blake3Sample [0]] 512,
    .call 1 [blake3Sample [0]] 512,
    .call 2 [blake3Sample [0, 1], blake3Sample []] 1,
    .drop 2,
    .fulfill 0 [[0], [0, 1]],
    .close 0,
    .wake 1 ]

theorem exclusive_fetching_threeTasks :
    (∀ action ∈ threeTasks, action.AsksForSome)
    ∧ ∃ s out, Machine.run CacheState.step (.new 10) threeTasks
        = some (s, out)
      ∧ ∀ key, .insertedTwice key ∉ out := by
  have hasks : ∀ action ∈ threeTasks, action.AsksForSome := by
    simp [threeTasks, CacheAction.AsksForSome]
  obtain ⟨s, out, hrun, -, -, -, honce, -⟩ := exclusive_fetching blake3Sample
    10 none (.new 10) rfl threeTasks hasks
  exact ⟨hasks, s, out, hrun, honce⟩

-- ================================================================== waiting

/-- The entries used since `key`, its own included. -/
def sinceUse (key : ChunkKey) (entries : List (ChunkKey × Bytes)) :
    List (ChunkKey × Bytes) :=
  entries.dropWhile fun e => e.1 ≠ key

theorem sinceUse_suffix (key : ChunkKey)
    (entries : List (ChunkKey × Bytes)) :
    sinceUse key entries <:+ entries := List.dropWhile_suffix _

theorem mem_sinceUse {key : ChunkKey} {entries : List (ChunkKey × Bytes)}
    (h : key ∈ entries.map Prod.fst) :
    key ∈ (sinceUse key entries).map Prod.fst := by
  induction entries with
  | nil => exact h
  | cons e entries ih =>
      by_cases he : e.1 = key
      · simp [sinceUse, he]
      · have hrest : key ∈ entries.map Prod.fst :=
          (List.mem_cons.1 h).resolve_left (Ne.symm he)
        have hdrop : sinceUse key (e :: entries) = sinceUse key entries := by
          simp [sinceUse, he]
        rw [hdrop]
        exact ih hrest

/-- No chunk somebody waits for is pushed out: a batch that is fulfilled
fits into the limit together with all that was used since the chunk. -/
def KeepsWaited (s : CacheState) : CacheAction → Prop
  | .fulfill task chunks =>
      ∀ batch batchSize, s.tasks task = .holding batch batchSize →
        batch.batchKeys.length = chunks.length →
      ∀ waiter requests, s.tasks waiter = .waiting requests →
      ∀ request ∈ requests,
        bytesIn (sinceUse request.1 (s.inner.rawCache.chunks.entries
            ++ batch.batchKeys.zip chunks))
          ≤ s.inner.rawCache.maxSize.toNat
  | _ => True

/-- A key that is waited for is pending for its event, or cached. -/
def WaitInv (s : CacheState) : Prop :=
  ∀ task requests, s.tasks task = .waiting requests →
    ∀ request ∈ requests,
      s.inner.pendingChunks request.1 = some request.2
      ∨ request.1 ∈ s.inner.rawCache.chunks.keys

/-- Moves that leave the pending map and the cached keys alone. -/
theorem WaitInv.of_setTask {s' : CacheState} {task : Nat}
    {state : TaskState} (h : WaitInv s)
    (htasks : s'.tasks = (s.setTask task state).tasks)
    (hre : Reordered s.inner.rawCache s'.inner.rawCache)
    (hpending : s'.inner.pendingChunks = s.inner.pendingChunks)
    (hstate : ∀ requests, state = .waiting requests →
      ∀ request ∈ requests,
        s.inner.pendingChunks request.1 = some request.2) :
    WaitInv s' := by
  intro t requests ht request hr
  rw [htasks] at ht
  rw [hpending, hre.mem_keys]
  rcases CacheState.setTask_cases ht with ⟨-, hnew⟩ | ⟨-, hold⟩
  · exact Or.inl (hstate requests hnew request hr)
  · exact h t requests hold request hr

/-- Every move that keeps the chunks waited for keeps the invariant. -/
theorem WaitInv.move {s' : CacheState} (h : WaitInv s)
    (hkeeps : KeepsWaited s action) (hmove : CacheMove s action s') :
    WaitInv s' := by
  cases hmove with
  | quiet inner hre hpending =>
      intro t requests ht request hr
      show inner.pendingChunks _ = _ ∨ _ ∈ inner.rawCache.chunks.keys
      rw [hpending, hre.mem_keys]
      exact h t requests ht request hr
  | claim task batch batchSize inner hidle hbatch hre hpending =>
      intro t requests ht request hr
      rcases CacheState.setTask_cases ht with ⟨-, hnew⟩ | ⟨-, hold⟩
      · cases hnew
      · show inner.pendingChunks _ = _ ∨ _ ∈ inner.rawCache.chunks.keys
        rw [hpending, markPending_apply, hre.mem_keys]
        -- a key that is waited for is not free to be claimed
        by_cases hin : request.1 ∈ batch.batchKeys
        · rcases h t requests hold request hr with hpend | hcached
          · rw [hbatch.notPending _ hin] at hpend
            cases hpend
          · exact absurd hcached (hbatch.notCached _ hin)
        · rw [if_neg hin]
          exact h t requests hold request hr
  | wait task requests inner hidle hrequests hre hpending =>
      refine h.of_setTask rfl hre hpending ?_
      intro requests' heq
      cases heq
      exact hrequests
  | fulfill task batch batchSize chunks inner haction hheld hlen hinner =>
      subst haction
      intro t requests ht request hr
      have hkeys : (batch.batchKeys.zip chunks).map Prod.fst
          = batch.batchKeys := List.map_fst_zip hlen.le
      rcases CacheState.setTask_cases ht with ⟨-, hnew⟩ | ⟨-, hold⟩
      · cases hnew
      · show inner.pendingChunks _ = _ ∨ _ ∈ inner.rawCache.chunks.keys
        by_cases hthere : request.1 ∈ (s.inner.rawCache.chunks.entries
            ++ batch.batchKeys.zip chunks).map Prod.fst
        · -- cached before or inserted now: what fits stays
          have hfits := hkeeps batch batchSize hheld hlen t requests hold
            request hr
          have hkept := hinner.keeps _ (sinceUse_suffix ..) hfits
          exact Or.inr ((hkept.map Prod.fst).mem (mem_sinceUse hthere))
        · rw [List.map_append, hkeys, List.mem_append, not_or] at hthere
          rw [hinner.pending, hkeys, if_neg hthere.2]
          exact Or.inl ((h t requests hold request hr).resolve_right
            hthere.1)
  | close task event hclosing =>
      exact h.of_setTask rfl (Reordered.refl _) rfl nofun
  | leave task state inner poisoned hleaves hre hpending =>
      refine h.of_setTask rfl hre hpending ?_
      intro requests heq
      exact absurd heq (hleaves.free.2.2 requests)

/-- What a waiter whose events are all closed waits for is cached: nothing
is pending for a closed event. -/
theorem WaitInv.cached (h : WaitInv s) (hinv : CacheInv s) {task : Nat}
    {requests : List (ChunkKey × Nat)}
    (hwaiting : s.tasks task = .waiting requests)
    (hclosed : ∀ request ∈ requests, request.2 ∈ s.closed) :
    ∀ request ∈ requests, request.1 ∈ s.inner.rawCache.chunks.keys := by
  intro request hr
  rcases h task requests hwaiting request hr with hpend | hcached
  · exact absurd (Or.inl (hclosed request hr))
      (hinv.pendingOpen request.1 request.2 hpend)
  · exact hcached

/-- What holds in every state when no chunk waited for is pushed out. -/
structure WaiterInv (s : CacheState) : Prop where
  inv : CacheInv s
  waits : WaitInv s
  allFound : ∀ task, s.tasks task ≠ .panicked .notInCache

theorem WaiterInv.step (h : WaiterInv s) (hkeeps : KeepsWaited s action) :
    WaiterInv (s.act action).1 := by
  have hmove := (act_move h.inv action).1
  refine ⟨hmove.inv h.inv, h.waits.move hkeeps hmove, ?_⟩
  intro task hpanic
  rcases hmove.panicked hpanic with hold | hleaves
  · exact h.allFound task hold
  · obtain ⟨requests, hwaiting, hclosed, request, hr, hmissing⟩ :=
      hleaves.notInCache rfl
    exact hmissing (h.waits.cached h.inv hwaiting hclosed request hr)

/-- In every run in which no `fulfill` pushes out a chunk that somebody
waits for, a waiter whose events are all closed finds every chunk it
waited for, and none ever panicked for want of one. -/
theorem woken_waiter_finds_chunks (blake3 : Bytes → ChunkKey)
    (maxSize : UInt64) (file : Option Bytes) (start : CacheState)
    (hload : CacheState.loadFromFile blake3 maxSize file = .ok start)
    (actions : List CacheAction)
    (hkeeps : Machine.StepsMeet CacheState.step KeepsWaited start actions) :
    ∃ s out, Machine.run CacheState.step start actions = some (s, out)
      ∧ (∀ task requests, s.tasks task = .waiting requests →
          (∀ request ∈ requests, request.2 ∈ s.closed) →
          (takeWaited requests s.inner.rawCache).2.2 = true
          ∧ (takeWaited requests s.inner.rawCache).2.1.map Prod.fst
            = requests.map Prod.fst)
      ∧ ∀ task, s.tasks task ≠ .panicked .notInCache := by
  obtain ⟨c, rfl, hc, -, -⟩ := loadFromFile_spec hload
  obtain ⟨s, out, hrun, h⟩ := Machine.run_induction
    (fun s _ _ => WaiterInv s)
    (fun s _ _ action h hkeeps => ⟨_, _, rfl, h.step hkeeps⟩) hkeeps
    (⟨cacheInv_ofRaw hc, nofun, nofun⟩ : WaiterInv (CacheState.ofRaw c))
  refine ⟨s, out, hrun, ?_, h.allFound⟩
  intro task requests hwaiting hclosed
  exact (takeWaited_spec requests s.inner.rawCache).2.2
    (h.waits.cached h.inv hwaiting hclosed)

/-- With a limit the two chunks fit into, the second task is served. -/
theorem woken_waiter_finds_chunks_threeTasks :
    Machine.StepsMeet CacheState.step KeepsWaited (.new 10) threeTasks
    ∧ ∃ s out, Machine.run CacheState.step (.new 10) threeTasks
        = some (s, out)
      ∧ ∀ task, s.tasks task ≠ .panicked .notInCache := by
  have hkeeps : Machine.StepsMeet CacheState.step KeepsWaited (.new 10)
      threeTasks := by
    apply Machine.stepsMeet_cons rfl trivial
    apply Machine.stepsMeet_cons rfl trivial
    apply Machine.stepsMeet_cons rfl trivial
    apply Machine.stepsMeet_cons rfl trivial
    refine Machine.stepsMeet_cons rfl ?_ ?_
    · intro batch batchSize hheld _ _ _ _ request _
      cases hheld
      apply le_trans (bytesIn_suffix (sinceUse_suffix ..))
      decide
    · exact ⟨trivial, fun _ _ _ => ⟨trivial, fun _ _ _ => trivial⟩⟩
  obtain ⟨s, out, hrun, -, hall⟩ := woken_waiter_finds_chunks blake3Sample
    10 none (.new 10) rfl threeTasks hkeeps
  exact ⟨hkeeps, s, out, hrun, hall⟩

/-- With a limit of two bytes the second chunk of the batch pushes out
the first, and the second task panics and poisons the cache. -/
theorem evicted_before_waiter_wakes :
    ∃ s out, Machine.run CacheState.step (.new 2) threeTasks = some (s, out)
      ∧ s.tasks 1 = .panicked .notInCache ∧ s.poisoned = true :=
  ⟨_, _, rfl, rfl, rfl⟩

end FactoryCacher
