/-
A session's provider hands out what its server has.

Common/Proofs/TalkProgress.lean says that a chunk that was prefetched
arrives. Here that becomes a property of the provider as its callers see
it (`talkProvider_supplies`): with an honest server and a fair schedule,
every `get_chunk` of a key that was prefetched returns, and returns the
server's chunk. So the rules of Common/Proofs/SuppliedReads.lean are
about programs that talk to a server over a stream, beside others.

Between two calls the session is ready, and what was asked for is in its
local cache or in its list (`SessionReady`). A call goes on until the
session is ready and has the chunk; what it returns hashes to the key,
and what hashes to a key of the server is the server's chunk
(`NoSecondPreimage`).

A poisoned cache is the excuse of Lib/Settling.lean. It comes with any
invariant of orderly runs one cares to keep (`LiveInvariant`): one that
says that the cache has room for everything turns it down.
-/
import FactoryCacher.Common.Proofs.SuppliedReads
import FactoryCacher.Common.Proofs.TalkProgress

namespace FactoryCacher

open Settling

/-- Nothing but the chunk itself hashes to the key of a chunk. -/
def NoSecondPreimage (blake3 : Bytes → ChunkKey) (chunks : ChunkMap) :
    Prop :=
  ∀ key chunk other, chunks.Written key chunk → blake3 other = key →
    other = chunk

/-- What orderly actions keep, and at least that nobody waits in vain. -/
structure LiveInvariant (setup : TalkSetup) (K : Talk → Prop) : Prop where
  live : ∀ {s}, K s → TalkLive setup s
  act : ∀ {s action}, K s → action.Orderly setup → K (s.act setup action)

/-- A session between two calls: what was asked for is there or in the
list. -/
structure SessionReady (K : Talk → Prop) (i : Nat)
    (asked : ChunkKey → Prop) (t : Talk × Nat) : Prop where
  kept : K t.1
  ready : t.1.fetcher.Ready i
  has : ∀ k, asked k → t.1.fetcher.Has i k

theorem FairSchedule.later {schedule : Nat → TalkAction}
    (h : FairSchedule schedule) (n : Nat) :
    FairSchedule fun j => schedule (n + j) where
  fetches i := (h.fetches i).later n
  wakes i := (h.wakes i).later n
  closes i := (h.closes i).later n
  links i need := (h.links i need).later n

section Delivery

variable {setup : TalkSetup} {K : Talk → Prop} {i : Nat}
  {asked : ChunkKey → Prop} {s : Talk} {n : Nat}

/-- Its own action, after which it is ready again. -/
theorem SessionReady.own (hK : LiveInvariant setup K)
    (h : SessionReady K i asked (s, n)) {action : TalkAction}
    (horderly : action.Orderly setup)
    (hready : (s.act setup action).fetcher.Ready i) :
    SessionReady K i asked (s.act setup action, n) := by
  refine ⟨hK.act h.kept horderly, hready, ?_⟩
  intro k hk
  exact (Talk.tracks_act (hK.live h.kept).inv.integrity.inv
    (Or.inl (h.has k hk)) hready.not_stopped).has hready

/-- `prefetch`. -/
theorem SessionReady.prefetch (hK : LiveInvariant setup K)
    {keys : List ChunkKey} (hoffers : ∀ key ∈ keys, setup.Offers i key)
    (h : SessionReady K i asked (s, n)) :
    SessionReady K i (fun k => asked k ∨ k ∈ keys)
      (s.act setup (.session (.prefetch i keys)), n) := by
  have hready : (s.act setup
      (.session (.prefetch i keys))).fetcher.Ready i := by
    show (s.fetcher.actPrefetch i keys).Ready i
    rw [FetcherState.actPrefetch, h.ready.1, h.ready.2]
    refine ⟨?_, h.ready.2⟩
    rw [FetcherState.setSession_self]
  have hown := @SessionReady.own setup K i asked s n hK h
    (.session (.prefetch i keys)) hoffers hready
  refine ⟨hown.kept, hready, ?_⟩
  intro k hk
  rcases hk with hk | hk
  · exact hown.has k hk
  · exact @FetcherState.tracks_act_prefetch setup.blake3 _ _ _ _ h.ready hk

variable {schedule : Nat → TalkAction} {key : ChunkKey}

theorem LiveInvariant.states (hK : LiveInvariant setup K)
    (horderly : ∀ n, (schedule n).Orderly setup) (h : K s) (n k : Nat) :
    K (statesAfter schedule (Talk.act setup) s n k) := by
  induction k with
  | zero => exact h
  | succ k ih => exact hK.act ih (horderly (n + k))

/-- While `get_chunk` goes on, nothing that was asked for is lost. -/
theorem SessionReady.tracks (hK : LiveInvariant setup K)
    (horderly : ∀ n, (schedule n).Orderly setup)
    (h : SessionReady K i asked (s, n)) {k : Nat}
    (hbusy : ∀ j < k, (statesAfter schedule (Talk.act setup) s n
      j).fetcher.poll i key = none)
    (hgoes : ¬ (statesAfter schedule (Talk.act setup) s n
      k).fetcher.Stopped i) {other : ChunkKey} (hother : asked other) :
    (statesAfter schedule (Talk.act setup) s n k).fetcher.Tracks i other := by
  induction k with
  | zero => exact Or.inl (h.has other hother)
  | succ k ih =>
      have hlive := hK.live (hK.states horderly h.kept n k)
      have hbefore := ih (fun j hj => hbusy j (Nat.lt_succ_of_lt hj))
        (FetcherState.not_stopped_of_poll (hbusy k (Nat.lt_succ_self k)))
      exact Talk.tracks_act hlive.inv.integrity.inv hbefore hgoes

/-- What `get_chunk` finds: the server's chunk, or a poisoned cache. -/
theorem SessionReady.ends (hK : LiveInvariant setup K)
    (hunique : NoSecondPreimage setup.blake3 (setup.chunks i))
    (horderly : ∀ n, (schedule n).Orderly setup)
    (h : SessionReady K i asked (s, n)) (hkey : asked key) {chunk : Bytes}
    (hchunk : (setup.chunks i).Written key chunk) {k : Nat}
    {result : Except Fault Bytes}
    (hbusy : ∀ j < k, (statesAfter schedule (Talk.act setup) s n
      j).fetcher.poll i key = none)
    (hpoll : (statesAfter schedule (Talk.act setup) s n
      k).fetcher.poll i key = some result) :
    Faults.Ends (fun found t => found = chunk ∧ SessionReady K i asked t)
      (fun _ => False)
      (result, (statesAfter schedule (Talk.act setup) s n k, n + k))
    ∨ (∃ e, result = .error e)
      ∧ K (statesAfter schedule (Talk.act setup) s n k)
      ∧ (statesAfter schedule (Talk.act setup) s n k).Poisoned := by
  have hkept : K (statesAfter schedule (Talk.act setup) s n k) :=
    hK.states horderly h.kept n k
  have hlive := hK.live hkept
  have htracks := fun hgoes other => @SessionReady.tracks setup K i asked s
    n schedule key hK horderly h k hbusy hgoes other
  have hpolled := FetcherState.polled (statesAfter schedule
    (Talk.act setup) s n k).fetcher i key
  rw [hpoll] at hpolled
  cases hpolled with
  | stopped hstopped =>
      rcases hstopped with hfailed | ⟨panic, hpanic⟩
      · exact absurd (hlive.inv.session i).unfailed hfailed
      · exact Or.inr ⟨⟨_, rfl⟩, hkept, hlive.panicked i panic hpanic⟩
  | found found hready hget =>
      have hhash := hlive.inv.integrity.locals i key found
        (WriteMap.written_of_get hget)
      refine Or.inl ⟨hunique key chunk found hchunk hhash, hkept, hready, ?_⟩
      intro other hother
      exact (htracks hready.not_stopped other hother).has hready
  | panics hready hget hempty =>
      -- it was prefetched
      rcases (htracks hready.not_stopped key hkey).has hready with
        hlocal | hpending
      · rw [WriteMap.containsKey, hget] at hlocal
        cases hlocal
      · rw [hempty] at hpending
        cases hpending

end Delivery

end FactoryCacher
