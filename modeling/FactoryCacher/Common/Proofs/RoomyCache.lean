/-
A cache with room for everything.

# No eviction

Suppose that all the servers have, and all that was in the cache file,
fits into the cache together (`Covers`). The entries of the cache are
always among that and no two of them are the same, so the cache is never
over its limit and nothing is evicted (`Fulfilled.all`).

# What follows

A key is underway with an event while it is pending with it, and from
then on it is cached (`Underway`); without evictions that is for good
(`Roomy.grows`). Two things follow.

- A waiter waits for keys that are underway with the events it waits for.
  When these are closed the keys are not pending, so they are cached, and
  the waiter gets every chunk. The one panic that poisons the lock in
  orderly runs does not happen.
- A key that is underway is in no batch but that of its event. So a chunk
  is fetched once, by one session, for as long as the process runs.
-/
import FactoryCacher.Common.Proofs.TalkProgress

namespace FactoryCacher

-- ==================================================================== sizes

/-- Different entries out of a pool are no more than the pool. -/
theorem bytesIn_le_pool {entries pool : List (ChunkKey × Bytes)}
    (hnodup : entries.Nodup) (h : ∀ e ∈ entries, e ∈ pool) :
    bytesIn entries ≤ bytesIn pool := by
  obtain ⟨same, hperm, hsub⟩ := List.subperm_of_subset hnodup h
  rw [← bytesIn_perm hperm]
  exact bytesIn_sublist hsub

/-- A `fulfill` for which there is room. -/
theorem Fulfilled.all {inner inner' : ChunkCacheInner}
    {entries : List (ChunkKey × Bytes)}
    (h : Fulfilled inner entries inner')
    (hroom : bytesIn (inner.rawCache.chunks.entries ++ entries)
      ≤ inner.rawCache.maxSize.toNat) :
    inner'.rawCache.chunks.entries
      = inner.rawCache.chunks.entries ++ entries :=
  h.subset.eq_of_length_le (h.keeps _ List.suffix_rfl hroom).length_le

-- ================================================================= the cache

/-- The key is being fetched with this event, or has been fetched. -/
def Underway (inner : ChunkCacheInner) (key : ChunkKey) (event : Nat) :
    Prop :=
  key ∈ inner.rawCache.chunks.keys ∨ inner.pendingChunks key = some event

/-- There is room for the pool, and nothing else was cached. -/
structure Roomy (pool : List (ChunkKey × Bytes)) (s : CacheState) :
    Prop where
  pooled : ∀ e ∈ s.inner.rawCache.chunks.entries, e ∈ pool
  room : bytesIn pool ≤ s.inner.rawCache.maxSize.toNat
  waited : ∀ task requests, s.tasks task = .waiting requests →
    ∀ request ∈ requests, Underway s.inner request.1 request.2
  unharmed : ∀ task, s.tasks task ≠ .panicked .notInCache

/-- A step that loses nothing. -/
structure Grows (pool : List (ChunkKey × Bytes))
    (inner inner' : ChunkCacheInner) : Prop where
  entries : ∀ e ∈ inner.rawCache.chunks.entries,
    e ∈ inner'.rawCache.chunks.entries
  pooled : ∀ e ∈ inner'.rawCache.chunks.entries,
    e ∈ inner.rawCache.chunks.entries ∨ e ∈ pool
  maxSize : inner'.rawCache.maxSize = inner.rawCache.maxSize
  underway : ∀ key event, Underway inner key event →
    Underway inner' key event

/-- What is put into the cache is from the pool. -/
def FulfilsFrom (pool : List (ChunkKey × Bytes)) (s : CacheState)
    (action : CacheAction) : Prop :=
  ∀ task chunks batch batchSize, action = .fulfill task chunks →
    s.tasks task = .holding batch batchSize →
    ∀ e ∈ batch.batchKeys.zip chunks, e ∈ pool

section Cache

variable {pool : List (ChunkKey × Bytes)} {s s' : CacheState}
  {action : CacheAction}

theorem Grows.refl (inner : ChunkCacheInner) : Grows pool inner inner :=
  ⟨fun _ h => h, fun _ h => Or.inl h, rfl, fun _ _ h => h⟩

theorem Grows.trans {inner inner' inner'' : ChunkCacheInner}
    (h : Grows pool inner inner') (h' : Grows pool inner' inner'') :
    Grows pool inner inner'' where
  entries e he := h'.entries e (h.entries e he)
  pooled e he := by
    rcases h'.pooled e he with he | he
    · exact h.pooled e he
    · exact Or.inr he
  maxSize := h'.maxSize.trans h.maxSize
  underway key event hu := h'.underway key event (h.underway key event hu)

/-- Lookups move entries about and nothing else. -/
theorem RawChunkCache.Reordered.grows {inner inner' : ChunkCacheInner}
    (hre : Reordered inner.rawCache inner'.rawCache)
    (hpending : ∀ key event, inner.pendingChunks key = some event →
      inner'.pendingChunks key = some event) :
    Grows pool inner inner' where
  entries _ he := hre.mem_entries.2 he
  pooled _ he := Or.inl (hre.mem_entries.1 he)
  maxSize := hre.maxSize
  underway key event hu :=
    hu.imp hre.mem_keys.2 (hpending key event)

/-- What a session inserts is new. -/
theorem CacheInv.zip_new (hinv : CacheInv s) {task batchSize : Nat}
    {batch : BatchChunkRequest} {chunks : List Bytes}
    (hheld : s.tasks task = .holding batch batchSize)
    (hlen : batch.batchKeys.length = chunks.length) :
    (s.inner.rawCache.chunks.entries ++ batch.batchKeys.zip chunks).Nodup := by
  have hb := hinv.held task batch batchSize hheld
  have hkeys : (batch.batchKeys.zip chunks).map Prod.fst
      = batch.batchKeys := List.map_fst_zip hlen.le
  refine List.nodup_append'.2 ⟨LinkedMap.entries_nodup _,
    List.Nodup.of_map Prod.fst (hkeys.symm ▸ hb.nodup), ?_⟩
  intro e hcached hnew
  have hkey : e.1 ∈ batch.batchKeys :=
    hkeys ▸ List.mem_map_of_mem hnew
  rw [← hb.pending, hinv.apart e.1 (List.mem_map_of_mem hcached)] at hkey
  cases hkey

/-- In a cache with room nothing is lost. -/
theorem Roomy.grows (hinv : CacheInv s) (h : Roomy pool s)
    (hmove : CacheMove s action s') (hfrom : FulfilsFrom pool s action) :
    Grows pool s.inner s'.inner := by
  cases hmove with
  | quiet inner hre hpending | wait _ _ inner _ _ hre hpending
  | leave _ _ inner _ _ hre hpending =>
      apply hre.grows
      intro key event hevent
      rw [hpending, hevent]
  | close => exact Grows.refl _
  | claim task batch batchSize inner hidle hbatch hre hpending =>
      apply hre.grows
      intro key event hevent
      -- a key of the batch was not pending
      rw [hpending, markPending_apply, if_neg, hevent]
      intro hkey
      rw [hbatch.notPending key hkey] at hevent
      cases hevent
  | fulfill task batch batchSize chunks inner haction hheld hlen hinner =>
      have hnew := hfrom task chunks batch batchSize haction hheld
      have hroom : bytesIn (s.inner.rawCache.chunks.entries
          ++ batch.batchKeys.zip chunks)
          ≤ s.inner.rawCache.maxSize.toNat := by
        refine le_trans (bytesIn_le_pool (hinv.zip_new hheld hlen) ?_) h.room
        exact List.forall_mem_append.2 ⟨h.pooled, hnew⟩
      have hall := hinner.all hroom
      constructor
      case entries =>
        intro e he
        show e ∈ inner.rawCache.chunks.entries
        rw [hall]
        exact List.mem_append_left _ he
      case pooled =>
        intro e he
        have he : e ∈ inner.rawCache.chunks.entries := he
        rw [hall] at he
        exact (List.mem_append.1 he).imp_right (hnew e)
      case maxSize => exact hinner.maxSize
      case underway =>
        intro key event hu
        have hkeys : inner.rawCache.chunks.keys
            = s.inner.rawCache.chunks.keys
              ++ (batch.batchKeys.zip chunks).map Prod.fst := by
          rw [LinkedMap.keys, hall, List.map_append]
          rfl
        show key ∈ inner.rawCache.chunks.keys
          ∨ inner.pendingChunks key = some event
        rw [hkeys, hinner.pending key]
        rcases hu with hcached | hpending
        · exact Or.inl (List.mem_append_left _ hcached)
        · by_cases hkey : key ∈ (batch.batchKeys.zip chunks).map Prod.fst
          · exact Or.inl (List.mem_append_right _ hkey)
          · rw [if_neg hkey]
            exact Or.inr hpending

/-- A step. -/
theorem Roomy.move (hinv : CacheInv s) (h : Roomy pool s)
    (hmove : CacheMove s action s') (hfrom : FulfilsFrom pool s action) :
    Roomy pool s' := by
  have hgrows := h.grows hinv hmove hfrom
  constructor
  case pooled =>
    intro e he
    exact (hgrows.pooled e he).elim (h.pooled e) id
  case room =>
    rw [hgrows.maxSize]
    exact h.room
  case waited =>
    intro task requests hwaiting request hr
    rcases hmove.waiting hwaiting with hbefore | hpending
    · exact hgrows.underway _ _ (h.waited task requests hbefore request hr)
    · exact Or.inr (hpending request hr)
  case unharmed =>
    intro task hpanic
    rcases hmove.panicked hpanic with hbefore | hleaves
    · exact h.unharmed task hbefore
    · -- what it waited for is not pending any more, so it is there
      obtain ⟨requests, hwaiting, hclosed, request, hr, hmissing⟩ :=
        hleaves.notInCache rfl
      rcases h.waited task requests hwaiting request hr with
        hcached | hpending
      · exact hmissing hcached
      · exact hinv.pendingOpen _ _ hpending (Or.inl (hclosed request hr))

end Cache

-- ============================================================== the sessions

section Sessions

variable {pool : List (ChunkKey × Bytes)}

/-- An action of a session, whose response is from the pool. -/
theorem Roomy.act {blake3 : Bytes → ChunkKey} {s : FetcherState}
    {action : FetchAction} (hinv : CacheInv s.cache)
    (h : Roomy pool s.cache)
    (hfrom : ∀ i chunks batch batchSize, action = .respond i chunks →
      s.cache.tasks i = .holding batch batchSize →
      ∀ e ∈ batch.batchKeys.zip chunks, e ∈ pool) :
    Roomy pool (s.act blake3 action).cache
    ∧ Grows pool s.cache.inner (s.act blake3 action).cache.inner := by
  rw [FetcherState.act_cache]
  cases haction : s.cacheAction blake3 action with
  | none => exact ⟨h, Grows.refl _⟩
  | some cacheAction =>
      have hpool : FulfilsFrom pool s.cache cacheAction := by
        intro task chunks batch batchSize hfulfill hheld
        -- only a response is put into the cache
        refine hfrom task chunks batch batchSize ?_ hheld
        subst hfulfill
        cases action with
        | prefetch | wake | close | markDirty | snapshot => cases haction
        | fetch i =>
            rw [FetcherState.cacheAction] at haction
            split at haction <;> cases haction
        | fail i failure =>
            rw [FetcherState.cacheAction] at haction
            split at haction <;> cases haction
        | respond i chunks' =>
            rw [FetcherState.cacheAction] at haction
            split at haction
            case h_1 =>
              split at haction
              case h_1 => cases haction
              case h_2 =>
                cases haction
                rfl
            case h_2 => cases haction
      have hmove := (act_move hinv cacheAction).1
      exact ⟨h.move hinv hmove hpool, h.grows hinv hmove hpool⟩

/-- What an orderly action is to the sessions: nothing, or an action of
theirs; a response has the chunks of the server. -/
theorem Talk.act_orderly {setup : TalkSetup} (hsetup : setup.Honest)
    {s : Talk} (h : TalkInv setup s) {action : TalkAction}
    (horderly : action.Orderly setup) :
    (s.act setup action).fetcher = s.fetcher
    ∨ ∃ a, (s.act setup action).fetcher = s.fetcher.act setup.blake3 a
      ∧ ∀ i chunks, a = .respond i chunks → ∃ batch batchSize,
        s.fetcher.cache.tasks i = .holding batch batchSize
        ∧ ∀ e ∈ batch.batchKeys.zip chunks,
          (setup.chunks i).Written e.1 e.2 := by
  have hown : ∀ a, (∀ i chunks, a ≠ .respond i chunks) →
      (s.onFetcher setup a).fetcher = s.fetcher
      ∨ ∃ a', (s.onFetcher setup a).fetcher
          = s.fetcher.act setup.blake3 a'
        ∧ ∀ i chunks, a' = .respond i chunks → ∃ batch batchSize,
          s.fetcher.cache.tasks i = .holding batch batchSize
          ∧ ∀ e ∈ batch.batchKeys.zip chunks,
            (setup.chunks i).Written e.1 e.2 :=
    fun a hplain => Or.inr ⟨a, rfl, fun i chunks ha =>
      absurd ha (hplain i chunks)⟩
  cases hlink : action.linkOf with
  | none =>
      cases action with
      | hangUp => exact horderly.elim
      | request | requestArrives | serve | responseArrives | receive =>
          cases hlink
      | session a =>
          cases a with
          | respond => exact Or.inl rfl
          | _ => exact hown _ nofun
  | some i =>
      have hturn := linkTurn hsetup h hlink
      generalize s.act setup action = s' at hturn
      cases hturn with
      | stays | moves => exact Or.inl rfl
      | receives link batch batchSize response hheld hreply hphase =>
          refine Or.inr ⟨.respond i response.chunks, rfl, ?_⟩
          intro j chunks heq
          cases heq
          exact ⟨batch, batchSize, hheld, reply_chunks hreply⟩

end Sessions

-- ============================================================== the theorem

/-- Everything there is to be cached. -/
structure Covers (setup : TalkSetup) (cache : CacheState)
    (pool : List (ChunkKey × Bytes)) : Prop where
  cached : ∀ e ∈ cache.inner.rawCache.chunks.entries, e ∈ pool
  offered : ∀ i key chunk, (setup.chunks i).Written key chunk →
    (key, chunk) ∈ pool

/-- An orderly action of everybody. -/
theorem Roomy.actTalk {setup : TalkSetup} (hsetup : setup.Honest)
    {pool : List (ChunkKey × Bytes)} {s : Talk} {action : TalkAction}
    (hoffered : ∀ i key chunk, (setup.chunks i).Written key chunk →
      (key, chunk) ∈ pool)
    (hinv : TalkInv setup s) (h : Roomy pool s.fetcher.cache)
    (horderly : action.Orderly setup) :
    Roomy pool (s.act setup action).fetcher.cache
    ∧ Grows pool s.fetcher.cache.inner
      (s.act setup action).fetcher.cache.inner := by
  rcases Talk.act_orderly hsetup hinv horderly with
    hsame | ⟨a, hact, hresponse⟩
  · rw [hsame]
    exact ⟨h, Grows.refl _⟩
  · rw [hact]
    refine h.act hinv.integrity.inv ?_
    intro i chunks batch batchSize ha hheld e he
    obtain ⟨batch', size', hheld', hwritten⟩ := hresponse i chunks ha
    rw [hheld] at hheld'
    cases hheld'
    exact hoffered i e.1 e.2 (hwritten e he)

/-- Everybody, around a cache with room for all they have. -/
structure RoomyTalk (setup : TalkSetup) (pool : List (ChunkKey × Bytes))
    (s : Talk) : Prop where
  live : TalkLive setup s
  roomy : Roomy pool s.fetcher.cache

section Room

variable {setup : TalkSetup} {pool : List (ChunkKey × Bytes)} {s : Talk}

theorem RoomyTalk.act (hsetup : setup.Honest)
    (hoffered : ∀ i key chunk, (setup.chunks i).Written key chunk →
      (key, chunk) ∈ pool)
    (h : RoomyTalk setup pool s) {action : TalkAction}
    (horderly : action.Orderly setup) :
    RoomyTalk setup pool (s.act setup action) :=
  ⟨h.live.act hsetup horderly,
    (h.roomy.actTalk hsetup hoffered h.live.inv horderly).1⟩

/-- The lock is poisoned by waiters whose chunk was evicted, and there
are none. -/
theorem RoomyTalk.not_poisoned (h : RoomyTalk setup pool s) :
    ¬ s.Poisoned := by
  intro hpoisoned
  obtain ⟨i, hpanic⟩ := h.live.cause hpoisoned
  exact h.roomy.unharmed i hpanic

/-- After an orderly run with a cache that was loaded. -/
theorem roomyTalk_run (hsetup : setup.Honest) {maxSize : UInt64}
    {file : Option Bytes} {cache : CacheState}
    (hload : CacheState.loadFromFile setup.blake3 maxSize file = .ok cache)
    (hcovers : Covers setup cache pool)
    (hroom : bytesIn pool ≤ maxSize.toNat) {past : List TalkAction}
    (hpast : ∀ a ∈ past, a.Orderly setup) {out : List Empty}
    (hrun : Machine.run (Talk.step setup) (.ofCache cache) past
      = some (s, out)) : RoomyTalk setup pool s := by
  obtain ⟨c, rfl, hc, hintact, hmax⟩ := loadFromFile_spec hload
  refine orderly_run (fun _ _ h ha => h.act hsetup hcovers.offered ha) ?_
    hpast hrun
  exact ⟨talkLive_ofRaw setup hc hintact,
    hcovers.cached, hmax ▸ hroom, nofun, nofun⟩

/-- From one moment to a later one. -/
theorem RoomyTalk.later (hsetup : setup.Honest)
    (hoffered : ∀ i key chunk, (setup.chunks i).Written key chunk →
      (key, chunk) ∈ pool)
    (h : RoomyTalk setup pool s) {later : List TalkAction}
    (hlater : ∀ a ∈ later, a.Orderly setup) {s' : Talk} {out : List Empty}
    (hrun : Machine.run (Talk.step setup) s later = some (s', out)) :
    RoomyTalk setup pool s'
    ∧ Grows pool s.fetcher.cache.inner s'.fetcher.cache.inner := by
  refine orderly_run (K := fun t => RoomyTalk setup pool t
    ∧ Grows pool s.fetcher.cache.inner t.fetcher.cache.inner) ?_
    ⟨h, Grows.refl _⟩ hlater hrun
  intro t action ht ha
  exact ⟨ht.1.act hsetup hoffered ha, ht.2.trans
    (ht.1.roomy.actTalk hsetup hoffered ht.1.live.inv ha).2⟩

end Room

/-- With honest servers, and a cache with room for all they have and all
that was loaded: in every orderly run nobody panics and the lock is never
poisoned; what was cached stays so; and a chunk that was cached or being
fetched at some time is not fetched again later, by anybody. -/
theorem roomy_cache_fetches_once (setup : TalkSetup)
    (hsetup : setup.Honest) (maxSize : UInt64) (file : Option Bytes)
    (cache : CacheState)
    (hload : CacheState.loadFromFile setup.blake3 maxSize file = .ok cache)
    (pool : List (ChunkKey × Bytes)) (hcovers : Covers setup cache pool)
    (hroom : bytesIn pool ≤ maxSize.toNat) (past later : List TalkAction)
    (hpast : ∀ a ∈ past, a.Orderly setup)
    (hlater : ∀ a ∈ later, a.Orderly setup) (s s' : Talk)
    (out out' : List Empty)
    (hrun : Machine.run (Talk.step setup) (.ofCache cache) past
      = some (s, out))
    (hrun' : Machine.run (Talk.step setup) s later = some (s', out')) :
    s'.fetcher.cache.poisoned = false
    ∧ (∀ i panic, s'.fetcher.cache.tasks i ≠ .panicked panic)
    ∧ (∀ e ∈ s.fetcher.cache.inner.rawCache.chunks.entries,
        e ∈ s'.fetcher.cache.inner.rawCache.chunks.entries)
    ∧ ∀ j batch' batchSize', s'.fetcher.cache.tasks j
        = .holding batch' batchSize' → ∀ key ∈ batch'.batchKeys,
      key ∉ s.fetcher.cache.inner.rawCache.chunks.keys
      ∧ ∀ i batch batchSize, s.fetcher.cache.tasks i
          = .holding batch batchSize → key ∈ batch.batchKeys →
        batch.event = batch'.event := by
  have htalk := roomyTalk_run hsetup hload hcovers hroom hpast hrun
  obtain ⟨htalk', hgrows⟩ := htalk.later hsetup hcovers.offered hlater hrun'
  refine ⟨Bool.eq_false_iff.2 htalk'.not_poisoned, ?_, hgrows.entries, ?_⟩
  · intro i panic hpanic
    exact htalk'.not_poisoned (htalk'.live.panicked i panic hpanic)
  · intro j batch' batchSize' hheld' key hkey'
    have hinv' := htalk'.live.inv.integrity.inv
    have hpending' := ((hinv'.held j batch' batchSize' hheld').pending
      key).2 hkey'
    have huncached : key ∉ s'.fetcher.cache.inner.rawCache.chunks.keys := by
      intro hcached
      rw [hinv'.apart key hcached] at hpending'
      cases hpending'
    constructor
    · intro hcached
      obtain ⟨e, he, rfl⟩ := List.mem_map.1 hcached
      exact huncached (List.mem_map_of_mem (hgrows.entries e he))
    · intro i batch batchSize hheld hkey
      -- it was underway with that event, and still is
      have hpending := ((htalk.live.inv.integrity.inv.held i batch batchSize
        hheld).pending key).2 hkey
      have hstill := (hgrows.underway key _ (Or.inr hpending)).resolve_left
        huncached
      rw [hpending'] at hstill
      exact (Option.some.inj hstill).symm

/-- Two sessions after one chunk, with a cache of one byte: it is in the
pool of both, and there is room for it. -/
theorem roomy_cache_fetches_once_oneTalk :
    Covers oneChunkSetup (.new 1) [(blake3Sample [0], [0])]
    ∧ ∃ s s' out out',
      Machine.run (Talk.step oneChunkSetup) (.ofCache (.new 1))
        (oneTalk.take 9) = some (s, out)
      ∧ Machine.run (Talk.step oneChunkSetup) s (oneTalk.drop 9)
        = some (s', out')
      ∧ s'.fetcher.cache.poisoned = false
      ∧ ∀ i panic, s'.fetcher.cache.tasks i ≠ .panicked panic := by
  have hcovers : Covers oneChunkSetup (.new 1)
      [(blake3Sample [0], [0])] := by
    constructor
    · exact List.forall_mem_nil _
    · intro i key chunk hwritten
      obtain ⟨rfl, rfl⟩ := oneChunkSetup_written hwritten
      exact List.mem_singleton_self _
  have horderly : ∀ action ∈ oneTalk, action.Orderly oneChunkSetup := by
    have hoffers : ∀ i, oneChunkSetup.Offers i (blake3Sample [0]) :=
      fun _ => rfl
    simp [oneTalk, TalkAction.Orderly, hoffers]
  refine ⟨hcovers, _, _, _, _, rfl, rfl, ?_⟩
  obtain ⟨hsound, hpanics, -⟩ := roomy_cache_fetches_once oneChunkSetup
    oneChunkSetup_honest 1 none (.new 1) rfl _ hcovers (by decide)
    (oneTalk.take 9) (oneTalk.drop 9)
    (fun a ha => horderly a (List.mem_of_mem_take ha))
    (fun a ha => horderly a (List.mem_of_mem_drop ha)) _ _ _ _ rfl rfl
  exact ⟨hsound, hpanics⟩

end FactoryCacher
