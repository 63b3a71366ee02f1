/-
What becomes of the keys of a batch.

A batch marks its keys as pending, and only `fulfill` takes the mark
away again: `BatchChunkRequest` has no destructor. A fetch that ends any
other way leaves its keys pending for an event that nobody will close.
Every later session that needs one of them waits for good
(`failed_fetch_leaks`).

# The condition

`Completes` says of an action that it does not end a fetch that way: a
session that holds a batch does not fail, and a response is one
`fulfill` accepts. Under it every pending key is in a held batch
(`AllHeld`), and it is exact: a key without a holder is never pending
with one again, so one failed fetch is visible in every later state
(`pending_held_iff`).

The argument is about the cache machine (`Loses`, `AllHeld`); sessions
only say which of its actions are taken (`FetcherState.act_cache`).
-/
import FactoryCacher.Common.Proofs.Sessions

namespace FactoryCacher

open RawChunkCache

-- ============================================================ on the cache

/-- Every pending key is in a batch somebody holds. -/
def AllHeld (s : CacheState) : Prop :=
  ∀ key event, s.inner.pendingChunks key = some event →
    ∃ task batch batchSize, s.tasks task = .holding batch batchSize
      ∧ key ∈ batch.batchKeys

/-- An action that takes a batch from its holder and does not fulfil
it. -/
def Loses (s : CacheState) : CacheAction → Prop
  | .drop task => ∃ batch batchSize, s.tasks task = .holding batch batchSize
  | .fulfill task chunks =>
      ∃ batch batchSize, s.tasks task = .holding batch batchSize
        ∧ (batch.batchKeys.length ≠ chunks.length ∨ s.poisoned = true)
  | _ => False

variable {s : CacheState} {action : CacheAction}

/-- Who leaves a batch loses it. -/
theorem Leaves.loses {task : Nat} {state : TaskState}
    (h : Leaves s action task state) {batch : BatchChunkRequest}
    {batchSize : Nat} (hheld : s.tasks task = .holding batch batchSize) :
    Loses s action := by
  rcases h.batch batch batchSize hheld with rfl | ⟨chunks, rfl, hwhy⟩
  · exact ⟨batch, batchSize, hheld⟩
  · exact ⟨batch, batchSize, hheld, hwhy⟩

/-- A holder that another task's move leaves alone. -/
theorem holding_setTask {task other : Nat} {state : TaskState}
    {batch : BatchChunkRequest} {batchSize : Nat}
    (hheld : s.tasks other = .holding batch batchSize)
    (hfree : ∀ batch batchSize, s.tasks task ≠ .holding batch batchSize) :
    (s.setTask task state).tasks other = .holding batch batchSize := by
  rw [CacheState.setTask_of_ne, hheld]
  rintro rfl
  exact hfree batch batchSize hheld

/-- An action that loses no batch leaves no key behind. -/
theorem AllHeld.move {s' : CacheState} (h : AllHeld s)
    (hkeeps : ¬ Loses s action) (hmove : CacheMove s action s') :
    AllHeld s' := by
  cases hmove with
  | quiet inner hre hpending =>
      intro key event hk
      exact h key event (hpending ▸ hk)
  | claim task batch batchSize inner hidle hbatch hre hpending =>
      intro key event hk
      have hk : inner.pendingChunks key = some event := hk
      rw [hpending, markPending_apply] at hk
      by_cases hin : key ∈ batch.batchKeys
      · exact ⟨task, batch, batchSize, CacheState.setTask_self .., hin⟩
      · rw [if_neg hin] at hk
        obtain ⟨t, b, n, hb, hkey⟩ := h key event hk
        exact ⟨t, b, n, holding_setTask hb (by simp [hidle]), hkey⟩
  | wait task requests inner hidle hrequests hre hpending =>
      intro key event hk
      obtain ⟨t, b, n, hb, hkey⟩ := h key event (hpending ▸ hk)
      exact ⟨t, b, n, holding_setTask hb (by simp [hidle]), hkey⟩
  | fulfill task batch batchSize chunks inner haction hheld hlen hinner =>
      intro key event hk
      have hk : inner.pendingChunks key = some event := hk
      rw [hinner.pending, List.map_fst_zip hlen.le] at hk
      by_cases hin : key ∈ batch.batchKeys
      · rw [if_pos hin] at hk
        cases hk
      · rw [if_neg hin] at hk
        obtain ⟨t, b, n, hb, hkey⟩ := h key event hk
        refine ⟨t, b, n, ?_, hkey⟩
        show (s.setTask task _).tasks t = _
        rw [CacheState.setTask_of_ne, hb]
        -- the key is in another batch
        rintro rfl
        rw [hheld] at hb
        cases hb
        exact hin hkey
  | close task event hclosing =>
      intro key event hk
      obtain ⟨t, b, n, hb, hkey⟩ := h key event hk
      exact ⟨t, b, n, holding_setTask hb (by simp [hclosing]), hkey⟩
  | leave task state inner poisoned hleaves hre hpending =>
      intro key event hk
      obtain ⟨t, b, n, hb, hkey⟩ := h key event (hpending ▸ hk)
      refine ⟨t, b, n, holding_setTask hb ?_, hkey⟩
      intro b' n' hb'
      exact hkeeps (hleaves.loses hb')

/-- The holders after a move: the old ones, and who claimed. -/
theorem CacheMove.holding {s' : CacheState} (hmove : CacheMove s action s')
    {task : Nat} {batch : BatchChunkRequest} {batchSize : Nat}
    (h : s'.tasks task = .holding batch batchSize) :
    s.tasks task = .holding batch batchSize
    ∨ ∀ key ∈ batch.batchKeys, s.inner.pendingChunks key = none := by
  cases hmove with
  | quiet => exact Or.inl h
  | claim t b n inner hidle hbatch hre hpending =>
      rcases CacheState.setTask_cases h with ⟨-, hnew⟩ | ⟨-, hold⟩
      · cases hnew
        exact Or.inr hbatch.notPending
      · exact Or.inl hold
  | wait | fulfill | close =>
      rcases CacheState.setTask_cases h with ⟨-, hnew⟩ | ⟨-, hold⟩
      · cases hnew
      · exact Or.inl hold
  | leave t state inner poisoned hleaves hre hpending =>
      rcases CacheState.setTask_cases h with ⟨-, hnew⟩ | ⟨-, hold⟩
      · exact absurd hnew (hleaves.free.1 batch batchSize)
      · exact Or.inl hold

/-- A pending key nobody holds stays pending. -/
theorem CacheMove.orphan {s' : CacheState}
    (hmove : CacheMove s action s') {key : ChunkKey} {event : Nat}
    (hk : s.inner.pendingChunks key = some event)
    (hnone : ∀ task batch batchSize,
      s.tasks task = .holding batch batchSize → key ∉ batch.batchKeys) :
    s'.inner.pendingChunks key = some event := by
  cases hmove with
  | quiet inner hre hpending => exact hpending ▸ hk
  | claim task batch batchSize inner hidle hbatch hre hpending =>
      show inner.pendingChunks key = _
      rw [hpending, markPending_apply, if_neg, hk]
      intro hin
      rw [hbatch.notPending key hin] at hk
      cases hk
  | wait task requests inner hidle hrequests hre hpending =>
      exact hpending ▸ hk
  | fulfill task batch batchSize chunks inner haction hheld hlen hinner =>
      show inner.pendingChunks key = _
      rw [hinner.pending, List.map_fst_zip hlen.le,
        if_neg (hnone task batch batchSize hheld), hk]
  | close => exact hk
  | leave task state inner poisoned hleaves hre hpending =>
      exact hpending ▸ hk

/-- What is left behind stays behind. -/
theorem not_allHeld_act (hinv : CacheInv s) (h : ¬ AllHeld s) :
    ¬ AllHeld (s.act action).1 := by
  have hmove := (act_move hinv action).1
  unfold AllHeld at h
  push Not at h
  obtain ⟨key, event, hk, hnone⟩ := h
  intro hall
  obtain ⟨task, batch, batchSize, hheld, hkey⟩ :=
    hall key event (hmove.orphan hk hnone)
  rcases hmove.holding hheld with hold | hfree
  · exact hnone task batch batchSize hold hkey
  · rw [hfree key hkey] at hk
    cases hk

/-- A batch taken from its holder leaves its keys behind. -/
theorem CacheInv.lost (hinv : CacheInv s) {task : Nat}
    {batch : BatchChunkRequest} {batchSize : Nat}
    (hheld : s.tasks task = .holding batch batchSize) {state : TaskState}
    (hstate : ∀ batch batchSize, state ≠ .holding batch batchSize) :
    ¬ AllHeld (s.setTask task state) := by
  intro hall
  have hb := hinv.held task batch batchSize hheld
  obtain ⟨key, hkey⟩ := List.exists_mem_of_ne_nil _ hb.nonempty
  obtain ⟨t, b, n, hb', hkey'⟩ := hall key _ ((hb.pending key).2 hkey)
  rcases CacheState.setTask_cases hb' with ⟨-, hnew⟩ | ⟨ht, hold⟩
  · exact hstate b n hnew
  · -- another holder of the key would share its event
    have hevent := ((hinv.held t b n hold).pending key).2 hkey'
    rw [(hb.pending key).2 hkey] at hevent
    exact ht (hinv.oneHolder t task b batch n batchSize hold hheld
      (Option.some.inj hevent).symm)

/-- `drop` on a held batch. -/
theorem act_drop {task : Nat} {batch : BatchChunkRequest} {batchSize : Nat}
    (hheld : s.tasks task = .holding batch batchSize) :
    s.act (.drop task) = (s.setTask task .idle, []) := by
  simp only [CacheState.act, hheld]

/-- A `fulfill` that panics. -/
theorem act_fulfill_panics {task : Nat} {batch : BatchChunkRequest}
    {batchSize : Nat} {chunks : List Bytes}
    (hheld : s.tasks task = .holding batch batchSize)
    (hwhy : batch.batchKeys.length ≠ chunks.length ∨ s.poisoned = true) :
    ∃ panic, s.act (.fulfill task chunks)
      = (s.setTask task (.panicked panic), []) := by
  simp only [CacheState.act, hheld, CacheState.actFulfill]
  by_cases hlen : batch.batchKeys.length = chunks.length
  · rw [if_neg (not_not.2 hlen),
      if_pos (hwhy.resolve_left (not_not.2 hlen))]
    exact ⟨_, rfl⟩
  · rw [if_pos hlen]
    exact ⟨_, rfl⟩

theorem not_allHeld_of_loses (hinv : CacheInv s) (h : Loses s action) :
    ¬ AllHeld (s.act action).1 := by
  cases action with
  | drop task =>
      obtain ⟨batch, batchSize, hheld⟩ := h
      rw [act_drop hheld]
      exact hinv.lost hheld nofun
  | fulfill task chunks =>
      obtain ⟨batch, batchSize, hheld, hwhy⟩ := h
      obtain ⟨panic, hact⟩ := act_fulfill_panics hheld hwhy
      rw [hact]
      exact hinv.lost hheld nofun
  | _ => exact h.elim

/-- From a state without orphans, an action keeps it so just when it
loses no batch. -/
theorem not_loses_iff (hinv : CacheInv s) (h : AllHeld s) :
    ¬ Loses s action ↔ AllHeld (s.act action).1 := by
  constructor
  · intro hkeeps
    exact h.move hkeeps (act_move hinv action).1
  · intro hall hloses
    exact not_allHeld_of_loses hinv hloses hall

-- ============================================================= on sessions

/-- An action that ends no fetch without its batch being fulfilled: a
session that holds a batch does not fail, and what it is sent in response
is as many chunks as it asked for, with the right hashes. -/
def Completes (blake3 : Bytes → ChunkKey) (s : FetcherState) :
    FetchAction → Prop
  | .fail i _ => ∀ batch batchSize,
      s.cache.tasks i ≠ .holding batch batchSize
  | .respond i chunks => ∀ batch batchSize,
      s.cache.tasks i = .holding batch batchSize →
        (∀ e ∈ batch.batchKeys.zip chunks, blake3 e.2 = e.1)
        ∧ batch.batchKeys.length = chunks.length
        ∧ s.cache.poisoned = false
  | _ => True

/-- Only a failure and a response can lose a batch. -/
theorem completes_iff {blake3 : Bytes → ChunkKey} {s : FetcherState}
    {action : FetchAction} :
    Completes blake3 s action ↔ ∀ cacheAction,
      s.cacheAction blake3 action = some cacheAction →
      ¬ Loses s.cache cacheAction := by
  cases action with
  | prefetch | wake | close | markDirty | snapshot =>
      refine iff_of_true trivial ?_
      intro cacheAction h
      cases h <;> exact id
  | fetch i =>
      refine iff_of_true trivial ?_
      intro cacheAction h
      rw [FetcherState.cacheAction] at h
      split at h
      · cases h
        exact id
      · cases h
  | fail i failure =>
      rw [Completes, FetcherState.cacheAction]
      cases htask : s.cache.tasks i with
      | holding batch batchSize =>
          simp [Loses, htask]
      | _ => simp [Loses, htask]
  | respond i chunks =>
      rw [Completes, FetcherState.cacheAction]
      cases htask : s.cache.tasks i with
      | holding batch batchSize =>
          dsimp only
          cases hcheck : (checkResponse blake3 (batch.batchKeys.zip chunks)
              (s.sessions i).localCache).2 with
          | some key =>
              have hwrong : ¬ ∀ e ∈ batch.batchKeys.zip chunks,
                  blake3 e.2 = e.1 := by
                rw [← checkResponse_eq_none_iff, hcheck]
                exact Option.some_ne_none _
              refine iff_of_false ?_ ?_
              · intro h
                exact hwrong (h batch batchSize rfl).1
              · intro h
                exact h _ rfl ⟨batch, batchSize, htask⟩
          | none =>
              have hright := checkResponse_eq_none_iff.1 hcheck
              constructor
              · rintro h _ ⟨⟩ ⟨b, n, hb, hwhy⟩
                rw [htask] at hb
                cases hb
                obtain ⟨-, hlen, hpoison⟩ := h batch batchSize rfl
                rcases hwhy with hwhy | hwhy
                · exact hwhy hlen
                · rw [hpoison] at hwhy
                  cases hwhy
              · intro h b n hb
                cases hb
                refine ⟨hright, ?_, ?_⟩
                · by_contra hlen
                  exact h _ rfl ⟨batch, batchSize, htask, Or.inl hlen⟩
                · by_contra hpoison
                  exact h _ rfl ⟨batch, batchSize, htask,
                    Or.inr (Bool.not_eq_false _ ▸ hpoison)⟩
      | _ => simp

/-- One action of the sessions, as the rule for exact conditions asks for
it. -/
theorem allHeld_step {blake3 : Bytes → ChunkKey} {s s' : FetcherState}
    {action : FetchAction} {out : List Empty} (hinv : CacheInv s.cache)
    (hstep : s.step blake3 action = some (s', out)) :
    CacheInv s'.cache
    ∧ (AllHeld s.cache → (Completes blake3 s action ↔ AllHeld s'.cache))
    ∧ (¬ AllHeld s.cache → ¬ AllHeld s'.cache) := by
  cases hstep
  refine ⟨FetcherState.inv_act hinv action, ?_, ?_⟩
  · intro hall
    rw [completes_iff, FetcherState.act_cache]
    cases s.cacheAction blake3 action with
    | none => exact iff_of_true nofun hall
    | some cacheAction =>
        rw [FetcherState.cacheAfter, ← not_loses_iff hinv hall]
        simp
  · intro hnot
    rw [FetcherState.act_cache]
    cases s.cacheAction blake3 action with
    | none => exact hnot
    | some cacheAction => exact not_allHeld_act hinv hnot

/-- Every pending key belongs to a batch that a running fetch still
holds, just when every fetch so far completed. -/
theorem pending_held_iff (blake3 : Bytes → ChunkKey) (maxSize : UInt64)
    (file : Option Bytes) (cache : CacheState)
    (hload : CacheState.loadFromFile blake3 maxSize file = .ok cache)
    (actions : List FetchAction) (s : FetcherState) (out : List Empty)
    (hrun : Machine.run (FetcherState.step blake3) (.ofCache cache) actions
      = some (s, out)) :
    Machine.StepsMeet (FetcherState.step blake3) (Completes blake3)
        (.ofCache cache) actions
      ↔ ∀ key event, s.cache.inner.pendingChunks key = some event →
          ∃ i batch batchSize, s.cache.tasks i = .holding batch batchSize
            ∧ key ∈ batch.batchKeys := by
  obtain ⟨c, rfl, hc, -, -⟩ := loadFromFile_spec hload
  have hnone : AllHeld (CacheState.ofRaw c) := nofun
  exact Machine.stepsMeet_iff_final
    (fun s action s' out => allHeld_step) (cacheInv_ofRaw hc) hnone hrun

/-- Two sessions after one chunk: the first fetches it, the second
waits. -/
def oneFetch : List FetchAction :=
  [ .prefetch 0 [blake3Sample [0]],
    .fetch 0,
    .prefetch 1 [blake3Sample [0]],
    .fetch 1,
    .respond 0 [[0]],
    .close 0,
    .wake 1 ]

theorem pending_held_iff_oneFetch :
    ∃ s out, Machine.run (FetcherState.step blake3Sample)
        (.ofCache (.new 10)) oneFetch = some (s, out)
      ∧ ∀ key event, s.cache.inner.pendingChunks key = some event →
          ∃ i batch batchSize, s.cache.tasks i = .holding batch batchSize
            ∧ key ∈ batch.batchKeys := by
  refine ⟨_, _, rfl, ?_⟩
  apply (pending_held_iff blake3Sample 10 none (.new 10) rfl oneFetch _ _
    rfl).1
  apply Machine.stepsMeet_cons rfl trivial
  apply Machine.stepsMeet_cons rfl trivial
  apply Machine.stepsMeet_cons rfl trivial
  apply Machine.stepsMeet_cons rfl trivial
  refine Machine.stepsMeet_cons rfl ?_ ?_
  · intro batch batchSize hheld
    cases hheld
    decide
  · exact ⟨trivial, fun _ _ _ => ⟨trivial, fun _ _ _ => trivial⟩⟩

/-- The first session cannot write its request and gives up. Its key
stays pending though nobody holds it, and the second session waits for
it, with nobody left to close the event. -/
theorem failed_fetch_leaks :
    ∃ s out, Machine.run (FetcherState.step blake3Sample)
        (.ofCache (.new 10))
        [ .prefetch 0 [blake3Sample [0]], .fetch 0, .fail 0 .writeRequest,
          .prefetch 1 [blake3Sample [0]], .fetch 1 ] = some (s, out)
      ∧ s.cache.inner.pendingChunks (blake3Sample [0]) = some 0
      ∧ s.cache.tasks 1 = .waiting [(blake3Sample [0], 0)]
      ∧ s.cache.closed = []
      ∧ ∀ i, i ≠ 1 → s.cache.tasks i = .idle := by
  refine ⟨_, _, rfl, rfl, rfl, rfl, ?_⟩
  intro i hi
  show Function.update (Function.update (Function.update
    (fun _ => TaskState.idle) 0 _) 0 .idle) 1 _ i = _
  rw [Function.update_of_ne hi]
  by_cases h0 : i = 0
  · rw [h0, Function.update_self]
  · rw [Function.update_of_ne h0, Function.update_of_ne h0]

end FactoryCacher
