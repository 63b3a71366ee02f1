/-
What a session has still to do, as a measure.

The list of chunks to ask for is not one: `prefetch` adds to it as often
as it likes, also keys that are in it. What bounds the calls of the
cache is that the far end offers only so many chunks, and that `prefetch`
leaves out what is in the local cache.

# The measure

In lexicographic order (`work`):

- `lacking`: the offered keys that the session neither has nor gets. It
  never grows, since a session that goes on loses nothing (`gets_act`);
- `stale`: the entries of the list that it has or gets already. While
  nothing new is got, `prefetch` adds no such entry.

A call of the cache for a list that is not empty makes it smaller
(`work_act_fetch`). It finds, batches or waits for at least one key. If
one of them was lacking, less is. If all of them were had already, the
call took every entry it took from the stale ones.
-/
import Mathlib.Data.Prod.Lex
import FactoryCacher.Common.Proofs.FetchProgress

namespace FactoryCacher

namespace FetcherState

variable {blake3 : Bytes → ChunkKey} {s s' : FetcherState} {i : Nat}
  {offered : List ChunkKey}

-- ============================================================= the measure

/-- How many of the keys that are offered a session neither has nor
gets. -/
def lacking (offered : List ChunkKey) (s : FetcherState) (i : Nat) : Nat :=
  (offered.filter fun key => ! decide (s.Gets i key)).length

/-- The keys of a list that a session has or gets. -/
def got (s : FetcherState) (i : Nat) (keys : List ChunkKey) :
    List ChunkKey :=
  keys.filter fun key => decide (s.Gets i key)

/-- How many entries of its list it need not ask for. -/
def stale (s : FetcherState) (i : Nat) : Nat :=
  (s.got i (s.sessions i).pendingChunks).length

/-- What it has still to do. -/
def work (offered : List ChunkKey) (s : FetcherState) (i : Nat) :
    Nat ×ₗ Nat :=
  toLex (s.lacking offered i, s.stale i)

-- ================================================= when nothing gets lost

section Kept

variable (hkept : ∀ key, s.Gets i key → s'.Gets i key)

include hkept

/-- What is lacking afterwards was lacking before. -/
theorem lacking_sublist :
    (offered.filter fun key => ! decide (s'.Gets i key)).Sublist
      (offered.filter fun key => ! decide (s.Gets i key)) := by
  apply List.monotone_filter_right
  intro key hlacks
  rw [Bool.not_eq_true', decide_eq_false_iff_not] at hlacks ⊢
  exact mt (hkept key) hlacks

/-- Nothing is lacking that was not. -/
theorem lacking_le : s'.lacking offered i ≤ s.lacking offered i :=
  (lacking_sublist hkept).length_le

/-- If as much is lacking as before, nothing offered is new. -/
theorem gets_of_lacking
    (hsame : s'.lacking offered i = s.lacking offered i) {key : ChunkKey}
    (hkey : key ∈ offered) (h : s'.Gets i key) : s.Gets i key := by
  by_contra hlacks
  have heq := (lacking_sublist hkept).eq_of_length hsame
  have hmem : key ∈ offered.filter fun key => ! decide (s.Gets i key) :=
    List.mem_filter.2 ⟨hkey, by simpa using hlacks⟩
  rw [← heq] at hmem
  have hlacks' := (List.mem_filter.1 hmem).2
  rw [Bool.not_eq_true', decide_eq_false_iff_not] at hlacks'
  exact hlacks' h

/-- And the stale entries are those by the state before. -/
theorem stale_of_lacking
    (hsame : s'.lacking offered i = s.lacking offered i)
    (hoffered : ∀ key ∈ (s'.sessions i).pendingChunks, key ∈ offered) :
    s'.stale i = (s.got i (s'.sessions i).pendingChunks).length := by
  rw [stale, got, got]
  congr 1
  apply List.filter_congr
  intro key hkey
  rw [decide_eq_decide]
  exact ⟨gets_of_lacking hkept hsame (hoffered key hkey), hkept key⟩

variable (hoffered : ∀ key ∈ (s'.sessions i).pendingChunks, key ∈ offered)

include hoffered

theorem work_le
    (hstale : (s.got i (s'.sessions i).pendingChunks).length ≤ s.stale i) :
    s'.work offered i ≤ s.work offered i := by
  rw [work, work, Prod.Lex.toLex_le_toLex]
  rcases (lacking_le hkept).lt_or_eq with hless | hsame
  · exact Or.inl hless
  · refine Or.inr ⟨hsame, ?_⟩
    rw [stale_of_lacking hkept hsame hoffered]
    exact hstale

theorem work_lt
    (h : (∃ key ∈ offered, ¬ s.Gets i key ∧ s'.Gets i key)
      ∨ (s.got i (s'.sessions i).pendingChunks).length < s.stale i) :
    s'.work offered i < s.work offered i := by
  rw [work, work, Prod.Lex.toLex_lt_toLex]
  rcases (lacking_le hkept).lt_or_eq with hless | hsame
  · exact Or.inl hless
  · refine Or.inr ⟨hsame, ?_⟩
    rw [stale_of_lacking hkept hsame hoffered]
    rcases h with ⟨key, hkey, hlacks, hgets⟩ | hstale
    · exact absurd (gets_of_lacking hkept hsame hkey hgets) hlacks
    · exact hstale

end Kept

-- ============================================================= the actions

/-- What `prefetch` adds the session does not have. -/
theorem got_act_prefetch (hready : s.Ready i) (keys : List ChunkKey) :
    (s.got i ((s.act blake3 (.prefetch i keys)).sessions i).pendingChunks)
      = s.got i (s.sessions i).pendingChunks := by
  rw [act, actPrefetch]
  simp only [hready.1, hready.2, setSession_self, got, List.filter_append]
  rw [List.append_right_eq_self, List.filter_eq_nil_iff]
  intro key hkey hgets
  have hnew := (List.mem_filter.1 hkey).2
  rw [(of_decide_eq_true hgets).has hready] at hnew
  cases hnew

/-- A call of the cache adds nothing. -/
theorem pending_act_fetch_sublist (hready : s.Ready i) :
    ((s.act blake3 (.fetch i)).sessions i).pendingChunks.Sublist
      (s.sessions i).pendingChunks := by
  rw [act, actFetch]
  simp only [hready.1, hready.2, onCache, setSession_self]
  exact getChunksBatched_sublist ..

/-- No action of anybody adds an entry that the session has. -/
theorem got_act_le (action : FetchAction) :
    (s.got i ((s.act blake3 action).sessions i).pendingChunks).length
      ≤ s.stale i := by
  by_cases hprefetch : ∃ keys, action = .prefetch i keys ∧ s.Ready i
  · obtain ⟨keys, rfl, hready⟩ := hprefetch
    rw [got_act_prefetch hready, stale]
  · by_cases hfetch : action = .fetch i ∧ s.Ready i
    · obtain ⟨rfl, hready⟩ := hfetch
      exact ((pending_act_fetch_sublist hready).filter _).length_le
    · rw [pending_act_of_ne (fun keys heq hready => hprefetch
        ⟨keys, heq, hready⟩) (fun heq hready => hfetch ⟨heq, hready⟩), stale]

/-- A call of the cache that takes only what the session had or gets
anyway takes it from the stale entries. -/
theorem got_remaining_lt {r : CallResult}
    (hr : getChunksBatched s.cache.inner (s.sessions i).pendingChunks
      fetchBatchSize s.cache.nextEvent = r)
    (houtcome : r.outcome ≠ .notPending)
    (hless : r.remaining.length < (s.sessions i).pendingChunks.length)
    (hold : ∀ key ∈ (s.sessions i).pendingChunks,
      key ∈ r.found.map Prod.fst ∨ key ∈ r.outcome.keys → s.Gets i key) :
    (s.got i r.remaining).length < s.stale i := by
  -- the others are left
  have hleft : (r.remaining.filter fun key => ! decide (s.Gets i key))
      = (s.sessions i).pendingChunks.filter
        fun key => ! decide (s.Gets i key) := by
    apply getChunksBatched_leaves hr houtcome
    intro key hkey htaken
    simpa using hold key hkey htaken
  have hall := r.remaining.length_eq_length_filter_add
    fun key => decide (s.Gets i key)
  have hall' := (s.sessions i).pendingChunks.length_eq_length_filter_add
    fun key => decide (s.Gets i key)
  rw [hleft] at hall
  rw [stale, got, got]
  omega

/-- A call of the cache gets a key that was lacking, or takes stale
entries away. -/
theorem act_fetch_takes (hready : s.Ready i)
    (hne : (s.sessions i).pendingChunks ≠ [])
    (hgoes : ¬ (s.act blake3 (.fetch i)).Stopped i) :
    (∃ key ∈ (s.sessions i).pendingChunks, ¬ s.Gets i key
      ∧ (s.act blake3 (.fetch i)).Gets i key)
    ∨ (s.got i ((s.act blake3 (.fetch i)).sessions i).pendingChunks).length
      < s.stale i := by
  by_cases hnew : ∃ key ∈ (s.sessions i).pendingChunks, ¬ s.Gets i key
      ∧ (s.act blake3 (.fetch i)).Gets i key
  · exact Or.inl hnew
  right
  obtain ⟨houtcome, hleft, hgets⟩ := act_fetch_spec hready rfl hgoes
  have hless := @pending_act_fetch blake3 s i hready hne
  rw [hleft] at hless ⊢
  apply got_remaining_lt rfl houtcome hless
  intro key hkey htaken
  by_contra hlacks
  exact hnew ⟨key, hkey, hlacks, hgets key htaken⟩

-- ================================================================= the steps

section Steps

variable (hinv : CacheInv s.cache)

include hinv

/-- No action of anybody makes more work for a session. -/
theorem work_act_le {action : FetchAction}
    (hgoes : ¬ (s.act blake3 action).Stopped i)
    (hoffered : ∀ key ∈ ((s.act blake3 action).sessions i).pendingChunks,
      key ∈ offered) :
    (s.act blake3 action).work offered i ≤ s.work offered i :=
  work_le (fun _ hgets => gets_act hinv hgets hgoes) hoffered
    (got_act_le action)

/-- And a call of the cache for some chunks leaves less. -/
theorem work_act_fetch (hready : s.Ready i)
    (hne : (s.sessions i).pendingChunks ≠ [])
    (hgoes : ¬ (s.act blake3 (.fetch i)).Stopped i)
    (hoffered : ∀ key ∈ (s.sessions i).pendingChunks, key ∈ offered) :
    (s.act blake3 (.fetch i)).work offered i < s.work offered i := by
  apply work_lt (fun _ hgets => gets_act hinv hgets hgoes)
  · exact fun key hkey => hoffered key
      ((pending_act_fetch_sublist hready).subset hkey)
  · rcases act_fetch_takes hready hne hgoes with ⟨key, hkey, hnew⟩ | hstale
    · exact Or.inl ⟨key, hoffered key hkey, hnew⟩
    · exact Or.inr hstale

end Steps

end FetcherState

end FactoryCacher
