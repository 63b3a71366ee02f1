/-
What the critical sections of the chunk cache do.

One specification for each function of Common/ChunkCache.lean; the
machine's proofs use these and unfold none of them.

# Sizes

`Sized` ties the total size kept on `u64` to the entries. It is all the
eviction loop needs to stop before the map is empty: the loop goes on
only while the total is above the limit, and the total of nothing is 0.
It holds modulo 2^64, so no assumption on the sizes is made.

# What eviction keeps

Entries leave from the front only, so what a cache keeps of a list of
entries is always a suffix of it (`List.IsSuffix`). `insert_spec` and
`fulfillLoop_spec` say both sides of it: the entries afterwards are a
suffix of the old ones with the new ones behind, and every suffix of
those that fits into the limit is still there.
-/
import FactoryCacher.Lib.Lru
import FactoryCacher.Common.ChunkCache

namespace FactoryCacher

-- ==================================================================== sizes

/-- The bytes of a list of entries. -/
def bytesIn (entries : List (ChunkKey × Bytes)) : Nat :=
  Lru.weight List.length entries

@[simp] theorem bytesIn_nil : bytesIn [] = 0 := rfl

@[simp] theorem bytesIn_cons (e : ChunkKey × Bytes)
    (entries : List (ChunkKey × Bytes)) :
    bytesIn (e :: entries) = e.2.length + bytesIn entries := by
  simp [bytesIn, Lru.weight]

@[simp] theorem bytesIn_append (xs ys : List (ChunkKey × Bytes)) :
    bytesIn (xs ++ ys) = bytesIn xs + bytesIn ys :=
  Lru.weight_append ..

theorem bytesIn_sublist {xs ys : List (ChunkKey × Bytes)}
    (h : xs.Sublist ys) : bytesIn xs ≤ bytesIn ys := by
  induction h with
  | slnil => exact Nat.le_refl _
  | cons e _ ih =>
      rw [bytesIn_cons]
      omega
  | cons_cons e _ ih =>
      rw [bytesIn_cons, bytesIn_cons]
      omega

theorem bytesIn_suffix {xs ys : List (ChunkKey × Bytes)} (h : xs <:+ ys) :
    bytesIn xs ≤ bytesIn ys := bytesIn_sublist h.sublist

theorem bytesIn_perm {xs ys : List (ChunkKey × Bytes)} (h : xs.Perm ys) :
    bytesIn xs = bytesIn ys := (h.map _).sum_nat

namespace RawChunkCache

variable {c c' : RawChunkCache} {key : ChunkKey} {chunk : Bytes}

/-- The total size is that of the entries, as far as `u64` can say. -/
def Sized (c : RawChunkCache) : Prop :=
  c.totalSize = UInt64.ofNat (bytesIn c.chunks.entries)

theorem sized_new (maxSize : UInt64) : (new maxSize).Sized := rfl

-- ================================================================= evicting

/-- A total that fits is not over the limit. -/
theorem not_gt_of_fits {maxSize : UInt64} {n : Nat}
    (h : n ≤ maxSize.toNat) : ¬ UInt64.ofNat n > maxSize := by
  have hlt : n < UInt64.size := lt_of_le_of_lt h (UInt64.toNat_lt_size _)
  rw [gt_iff_lt, UInt64.lt_iff_toNat_lt, UInt64.toNat_ofNat_of_lt' hlt]
  omega

/-- The eviction loop stops, keeps a suffix of the entries, and keeps
every suffix that fits. -/
theorem evictLoop_spec (maxSize : UInt64) (turns : Nat)
    (chunks : LinkedMap ChunkKey Bytes) (hturns : chunks.len = turns) :
    ∃ chunks', evictLoop maxSize turns chunks
        (UInt64.ofNat (bytesIn chunks.entries))
        = some (chunks', UInt64.ofNat (bytesIn chunks'.entries))
      ∧ chunks'.entries <:+ chunks.entries
      ∧ ∀ kept, kept <:+ chunks.entries → bytesIn kept ≤ maxSize.toNat →
          kept <:+ chunks'.entries := by
  induction turns generalizing chunks with
  | zero =>
      have hnil : chunks.entries = [] := List.length_eq_zero_iff.1 hturns
      refine ⟨chunks, ?_, List.suffix_rfl, fun _ hk _ => hk⟩
      rw [evictLoop, if_neg]
      rw [hnil]
      exact not_gt_of_fits (Nat.zero_le _)
  | succ turns ih =>
      rw [evictLoop]
      by_cases hover : UInt64.ofNat (bytesIn chunks.entries) > maxSize
      · rw [if_pos hover]
        obtain ⟨entries, hnodup⟩ := chunks
        cases entries with
        | nil => cases hturns
        | cons evicted rest =>
            have hrest : UInt64.ofNat (bytesIn (evicted :: rest))
                - UInt64.ofNat evicted.2.length
                = UInt64.ofNat (bytesIn rest) := by
              rw [bytesIn_cons, UInt64.ofNat_add, UInt64.add_comm,
                UInt64.add_sub_cancel]
            have hlen : LinkedMap.len
                ⟨rest, (List.nodup_cons.1 hnodup).2⟩ = turns :=
              Nat.succ.inj hturns
            obtain ⟨chunks', hloop, hsub, hkept⟩ := ih _ hlen
            refine ⟨chunks', ?_, hsub.trans (List.suffix_cons ..), ?_⟩
            · rw [LinkedMap.popFront]
              dsimp only
              rw [hrest]
              exact hloop
            · intro kept hk hfits
              rcases List.suffix_cons_iff.1 hk with rfl | hk
              · exact absurd hover (not_gt_of_fits hfits)
              · exact hkept kept hk hfits
      · rw [if_neg hover]
        exact ⟨chunks, rfl, List.suffix_rfl, fun _ hk _ => hk⟩

/-- The total size `insert` hands to the loop is that of the entries. -/
theorem grownSize_eq (h : c.Sized) :
    grownSize c.totalSize chunk (c.chunks.find key)
      = UInt64.ofNat (bytesIn (c.chunks.putBack key chunk).entries) := by
  rw [h, LinkedMap.entries_putBack, bytesIn_append]
  cases hold : c.chunks.find key with
  | none =>
      rw [LinkedMap.find_eq_none_iff] at hold
      simp [grownSize, LinkedMap.others_of_not_mem hold, UInt64.ofNat_add]
  | some old =>
      have hperm := bytesIn_perm (LinkedMap.putBack_perm hold)
      rw [LinkedMap.entries_putBack, bytesIn_append] at hperm
      rw [← hperm]
      simp only [grownSize, bytesIn_cons, bytesIn_nil, Nat.add_zero,
        UInt64.ofNat_add]
      rw [UInt64.add_assoc, UInt64.add_comm (UInt64.ofNat old.length),
        ← UInt64.add_assoc, UInt64.add_sub_cancel]

/-- What an insertion does. -/
structure Inserted (c : RawChunkCache) (key : ChunkKey) (chunk : Bytes)
    (c' : RawChunkCache) : Prop where
  sized : c'.Sized
  maxSize : c'.maxSize = c.maxSize
  subset : c'.chunks.entries <:+ (c.chunks.putBack key chunk).entries
  keeps : ∀ kept, kept <:+ (c.chunks.putBack key chunk).entries →
    bytesIn kept ≤ c.maxSize.toNat → kept <:+ c'.chunks.entries

theorem insert_spec (h : c.Sized) (key : ChunkKey) (chunk : Bytes) :
    ∃ c', c.insert key chunk = some c' ∧ Inserted c key chunk c' := by
  obtain ⟨chunks', hloop, hsub, hkept⟩ := evictLoop_spec c.maxSize _
    (c.chunks.putBack key chunk) rfl
  refine ⟨{ c with
    chunks := chunks'
    totalSize := UInt64.ofNat (bytesIn chunks'.entries) }, ?_,
    ⟨rfl, rfl, hsub, hkept⟩⟩
  rw [insert, LinkedMap.insert]
  dsimp only
  rw [grownSize_eq h, hloop]

-- ================================================================ looking up

/-- The same cache with its entries in another order. -/
structure Reordered (c c' : RawChunkCache) : Prop where
  perm : c'.chunks.entries.Perm c.chunks.entries
  totalSize : c'.totalSize = c.totalSize
  maxSize : c'.maxSize = c.maxSize

theorem Reordered.refl (c : RawChunkCache) : Reordered c c :=
  ⟨List.Perm.refl _, rfl, rfl⟩

theorem Reordered.trans {c'' : RawChunkCache} (h : Reordered c c')
    (h' : Reordered c' c'') : Reordered c c'' where
  perm := h'.perm.trans h.perm
  totalSize := h'.totalSize.trans h.totalSize
  maxSize := h'.maxSize.trans h.maxSize

theorem Reordered.sized (h : Reordered c c') (hc : c.Sized) : c'.Sized := by
  rw [Sized, h.totalSize, hc, bytesIn_perm h.perm]

theorem Reordered.mem_entries (h : Reordered c c')
    {e : ChunkKey × Bytes} :
    e ∈ c'.chunks.entries ↔ e ∈ c.chunks.entries := h.perm.mem_iff

theorem Reordered.mem_keys (h : Reordered c c') :
    key ∈ c'.chunks.keys ↔ key ∈ c.chunks.keys := (h.perm.map _).mem_iff

theorem reordered_get (c : RawChunkCache) (key : ChunkKey) :
    Reordered c (c.get key).2 := by
  refine ⟨?_, rfl, rfl⟩
  show (c.chunks.toBack key).2.entries.Perm _
  rw [List.perm_ext_iff_of_nodup (LinkedMap.entries_nodup _)
    (LinkedMap.entries_nodup _)]
  exact fun e => LinkedMap.mem_toBack

/-- A lookup finds an entry or there is none. -/
theorem get_cases (c : RawChunkCache) (key : ChunkKey) :
    (∃ c' chunk, c.get key = (some chunk, c') ∧ Reordered c c'
      ∧ (key, chunk) ∈ c.chunks.entries)
    ∨ ∃ c', c.get key = (none, c') ∧ Reordered c c'
      ∧ key ∉ c.chunks.keys := by
  have hre := reordered_get c key
  have hfst : (c.get key).1 = c.chunks.find key := LinkedMap.toBack_fst ..
  rcases hget : c.get key with ⟨_ | chunk, c'⟩
  · rw [hget] at hre hfst
    exact Or.inr ⟨c', rfl, hre, LinkedMap.find_eq_none_iff.1 hfst.symm⟩
  · rw [hget] at hre hfst
    exact Or.inl ⟨c', chunk, rfl, hre, LinkedMap.mem_of_find hfst.symm⟩

end RawChunkCache

open RawChunkCache

-- ============================================================== first half

variable {pendingChunks : ChunkKey → Option Nat} {batchSize : Nat}

/-- What the `retain` does, from a cache and the batch so far. -/
structure Retained.Ok (pendingChunks : ChunkKey → Option Nat)
    (batchSize : Nat) (rawCache : RawChunkCache) (batch : List ChunkKey)
    (r : Retained) : Prop where
  reordered : Reordered rawCache r.rawCache
  grows : batch.length ≤ r.batch.length
  nodup : batch.Nodup → r.batch.Nodup
  bounded : batch.length ≤ batchSize → r.batch.length ≤ batchSize
  /-- what is batched is neither cached nor being fetched -/
  free : ∀ key ∈ r.batch, key ∈ batch
    ∨ (key ∉ rawCache.chunks.keys ∧ pendingChunks key = none)
  /-- what is retained is being fetched, or the batch is full -/
  retained : ∀ key ∈ r.remaining, pendingChunks key ≠ none
    ∨ batchSize ≤ r.batch.length
  found : ∀ e ∈ r.found, e ∈ rawCache.chunks.entries

/-- It does not matter in which order the cache had its entries. -/
theorem Retained.Ok.of_reordered {rawCache c' : RawChunkCache}
    {batch : List ChunkKey} {r : Retained} (hre : Reordered rawCache c')
    (h : r.Ok pendingChunks batchSize c' batch) :
    r.Ok pendingChunks batchSize rawCache batch := by
  refine { h with
    reordered := hre.trans h.reordered, free := ?_, found := ?_ }
  · intro key hkey
    rw [← hre.mem_keys]
    exact h.free key hkey
  · intro e he
    exact hre.mem_entries.1 (h.found e he)

/-- A key taken into the batch. -/
theorem Retained.Ok.of_batched {rawCache : RawChunkCache}
    {batch : List ChunkKey} {r : Retained} {key : ChunkKey}
    (hmiss : key ∉ rawCache.chunks.keys) (hfree : pendingChunks key = none)
    (hroom : batch.length < batchSize) (hnew : key ∉ batch)
    (h : r.Ok pendingChunks batchSize rawCache (batch ++ [key])) :
    r.Ok pendingChunks batchSize rawCache batch := by
  have hlen : (batch ++ [key]).length = batch.length + 1 := by simp
  refine { h with grows := ?_, nodup := ?_, bounded := ?_, free := ?_ }
  · have := h.grows
    omega
  · intro hb
    apply h.nodup
    simpa using hb.concat hnew
  · intro _
    exact h.bounded (by omega)
  · intro k hk
    rcases h.free k hk with hk | hk
    · rcases List.mem_append.1 hk with hk | hk
      · exact Or.inl hk
      · rw [List.mem_singleton.1 hk]
        exact Or.inr ⟨hmiss, hfree⟩
    · exact Or.inr hk

theorem retainLoop_spec (keys : List ChunkKey) (rawCache : RawChunkCache)
    (batch : List ChunkKey) :
    (retainLoop pendingChunks batchSize keys rawCache batch).Ok
      pendingChunks batchSize rawCache batch := by
  induction keys generalizing rawCache batch with
  | nil =>
      exact ⟨Reordered.refl _, le_refl _, id, id, fun _ => Or.inl,
        fun _ h => absurd h List.not_mem_nil,
        fun _ h => absurd h List.not_mem_nil⟩
  | cons key keys ih =>
      rw [retainLoop]
      rcases get_cases rawCache key with
        ⟨c', chunk, hget, hre, hmem⟩ | ⟨c', hget, hre, hmiss⟩
      · -- cached: the chunk is output
        rw [hget]
        have h := (ih c' batch).of_reordered hre
        refine { h with found := ?_ }
        intro e he
        rcases List.mem_cons.1 he with rfl | he
        · exact hmem
        · exact h.found e he
      · rw [hget]
        dsimp only
        by_cases hroom : pendingChunks key = none ∧ batch.length < batchSize
        · -- batched, once
          rw [if_pos hroom]
          by_cases hin : key ∈ batch
          · rw [if_pos hin]
            exact (ih c' batch).of_reordered hre
          · rw [if_neg hin]
            apply Retained.Ok.of_batched hmiss hroom.1 hroom.2 hin
            exact (ih c' _).of_reordered hre
        · -- retained
          rw [if_neg hroom]
          have h := (ih c' batch).of_reordered hre
          refine { h with retained := ?_ }
          intro k hk
          rcases List.mem_cons.1 hk with rfl | hk
          · by_cases hpend : pendingChunks k = none
            · have hfull : batchSize ≤ batch.length := by
                by_contra hlt
                exact hroom ⟨hpend, not_le.1 hlt⟩
              exact Or.inr (hfull.trans h.grows)
            · exact Or.inl hpend
          · exact h.retained k hk

/-- Where the keys of the `retain` go: each is found, batched or
retained, and one that was batched is gone from the list. -/
theorem retainLoop_covers (keys : List ChunkKey) (rawCache : RawChunkCache)
    (batch : List ChunkKey) {r : Retained}
    (hr : retainLoop pendingChunks batchSize keys rawCache batch = r) :
    (∀ key ∈ batch, key ∈ r.batch)
    ∧ (∀ key ∈ keys, key ∈ r.found.map Prod.fst ∨ key ∈ r.batch
        ∨ key ∈ r.remaining)
    ∧ r.remaining.length ≤ keys.length
    ∧ (r.remaining.length = keys.length → r.batch = batch) := by
  induction keys generalizing rawCache batch r with
  | nil =>
      subst hr
      exact ⟨fun _ => id, nofun, Nat.le_refl _, fun _ => rfl⟩
  | cons key keys ih =>
      rw [retainLoop] at hr
      rcases get_cases rawCache key with
        ⟨c', chunk, hget, -, -⟩ | ⟨c', hget, -, -⟩
      · rw [hget] at hr
        subst hr
        obtain ⟨hbatch, hall, hle, -⟩ := ih c' batch rfl
        refine ⟨hbatch, List.forall_mem_cons.2 ⟨?_, ?_⟩, ?_, ?_⟩
        · exact Or.inl (List.mem_cons_self ..)
        · exact fun k hk => (hall k hk).imp_left (List.mem_cons_of_mem _)
        · exact Nat.le_succ_of_le hle
        · exact fun heq => absurd heq (Nat.ne_of_lt (Nat.lt_succ_of_le hle))
      · rw [hget] at hr
        dsimp only at hr
        split at hr
        case isTrue =>
          -- batched, whether it was already or not
          have hin : key ∈ (if key ∈ batch then batch else batch ++ [key])
            := by
            split
            case isTrue h => exact h
            case isFalse => exact List.mem_append_right _ (by simp)
          have hsub : ∀ k ∈ batch,
              k ∈ (if key ∈ batch then batch else batch ++ [key]) := by
            intro k hk
            split
            case isTrue => exact hk
            case isFalse => exact List.mem_append_left _ hk
          obtain ⟨hbatch, hall, hle, -⟩ := ih c' _ hr
          refine ⟨fun k hk => hbatch k (hsub k hk),
            List.forall_mem_cons.2 ⟨?_, hall⟩, Nat.le_succ_of_le hle, ?_⟩
          · exact Or.inr (Or.inl (hbatch key hin))
          · exact fun heq => absurd heq (Nat.ne_of_lt (Nat.lt_succ_of_le hle))
        case isFalse =>
          subst hr
          obtain ⟨hbatch, hall, hle, hsame⟩ := ih c' batch rfl
          refine ⟨hbatch, List.forall_mem_cons.2 ⟨?_, ?_⟩,
            Nat.succ_le_succ hle, fun heq => hsame (Nat.succ.inj heq)⟩
          · exact Or.inr (Or.inr (List.mem_cons_self ..))
          · intro k hk
            exact (hall k hk).imp_right
              (Or.imp_right (List.mem_cons_of_mem _))

/-- What is retained stands in the list as before, and keys that are
neither found nor batched are all retained. -/
theorem retainLoop_leaves (p : ChunkKey → Bool) (keys : List ChunkKey)
    (rawCache : RawChunkCache) (batch : List ChunkKey) {r : Retained}
    (hr : retainLoop pendingChunks batchSize keys rawCache batch = r) :
    r.remaining.Sublist keys
    ∧ ((∀ key ∈ keys, key ∈ r.found.map Prod.fst ∨ key ∈ r.batch →
        p key = false) →
      r.remaining.filter p = keys.filter p) := by
  induction keys generalizing rawCache batch r with
  | nil =>
      subst hr
      exact ⟨List.Sublist.refl _, fun _ => rfl⟩
  | cons key keys ih =>
      rw [retainLoop] at hr
      rcases get_cases rawCache key with
        ⟨c', chunk, hget, -, -⟩ | ⟨c', hget, -, -⟩
      · rw [hget] at hr
        subst hr
        obtain ⟨hsub, hleaves⟩ := ih c' batch rfl
        refine ⟨hsub.cons key, fun htaken => ?_⟩
        obtain ⟨hkey, hrest⟩ := List.forall_mem_cons.1 htaken
        rw [List.filter_cons_of_neg (Bool.eq_false_iff.1
          (hkey (Or.inl (List.mem_cons_self ..))))]
        exact hleaves fun k hk htaken => hrest k hk
          (htaken.imp_left (List.mem_cons_of_mem _))
      · rw [hget] at hr
        dsimp only at hr
        split at hr
        case isTrue =>
          obtain ⟨hsub, hleaves⟩ := ih c' _ hr
          refine ⟨hsub.cons key, fun htaken => ?_⟩
          obtain ⟨hkey, hrest⟩ := List.forall_mem_cons.1 htaken
          have hin : key ∈ r.batch := by
            refine (retainLoop_covers keys c' _ hr).1 key ?_
            split
            case isTrue h => exact h
            case isFalse => exact List.mem_append_right _ (by simp)
          rw [List.filter_cons_of_neg (Bool.eq_false_iff.1
            (hkey (Or.inr hin)))]
          exact hleaves hrest
        case isFalse =>
          subst hr
          obtain ⟨hsub, hleaves⟩ := ih c' batch rfl
          refine ⟨hsub.cons_cons key, fun htaken => ?_⟩
          have hrest := hleaves (List.forall_mem_cons.1 htaken).2
          by_cases hp : p key = true
          · rw [List.filter_cons_of_pos hp, List.filter_cons_of_pos hp,
              hrest]
          · rw [List.filter_cons_of_neg hp, List.filter_cons_of_neg hp,
              hrest]

/-- And it makes no keys up. -/
theorem retainLoop_among (keys : List ChunkKey) (rawCache : RawChunkCache)
    (batch : List ChunkKey) {r : Retained}
    (hr : retainLoop pendingChunks batchSize keys rawCache batch = r) :
    (∀ key ∈ r.batch, key ∈ batch ∨ key ∈ keys)
    ∧ ∀ key ∈ r.remaining, key ∈ keys := by
  induction keys generalizing rawCache batch r with
  | nil =>
      subst hr
      exact ⟨fun _ => Or.inl, nofun⟩
  | cons key keys ih =>
      rw [retainLoop] at hr
      rcases get_cases rawCache key with
        ⟨c', chunk, hget, -, -⟩ | ⟨c', hget, -, -⟩
      · rw [hget] at hr
        subst hr
        obtain ⟨hbatch, hleft⟩ := ih c' batch rfl
        exact ⟨fun k hk => (hbatch k hk).imp_right (List.mem_cons_of_mem _),
          fun k hk => List.mem_cons_of_mem _ (hleft k hk)⟩
      · rw [hget] at hr
        dsimp only at hr
        split at hr
        case isTrue =>
          obtain ⟨hbatch, hleft⟩ := ih c' _ hr
          refine ⟨fun k hk => ?_,
            fun k hk => List.mem_cons_of_mem _ (hleft k hk)⟩
          rcases hbatch k hk with hold | hnew
          · split at hold
            case isTrue => exact Or.inl hold
            case isFalse =>
              rcases List.mem_append.1 hold with hold | hkey
              · exact Or.inl hold
              · rw [List.mem_singleton.1 hkey]
                exact Or.inr (List.mem_cons_self ..)
          · exact Or.inr (List.mem_cons_of_mem _ hnew)
        case isFalse =>
          subst hr
          obtain ⟨hbatch, hleft⟩ := ih c' batch rfl
          refine ⟨fun k hk => (hbatch k hk).imp_right
            (List.mem_cons_of_mem _), fun k hk => ?_⟩
          rcases List.mem_cons.1 hk with rfl | hk
          · exact List.mem_cons_self ..
          · exact List.mem_cons_of_mem _ (hleft k hk)

theorem markPending_apply (event : Nat) (batch : List ChunkKey)
    (pendingChunks : ChunkKey → Option Nat) (key : ChunkKey) :
    markPending event batch pendingChunks key
      = if key ∈ batch then some event else pendingChunks key := by
  unfold markPending
  induction batch generalizing pendingChunks with
  | nil => simp
  | cons k batch ih =>
      rw [List.foldl_cons, ih]
      by_cases hin : key ∈ batch
      · simp [hin]
      · by_cases hk : key = k
        · subst hk; simp
        · simp [hin, hk]

/-- What is pending afterwards is new or was pending. -/
theorem markPending_eq_some {event event' : Nat} {keys : List ChunkKey}
    {pending : ChunkKey → Option Nat} {key : ChunkKey}
    (h : markPending event keys pending key = some event') :
    key ∈ keys ∧ event = event' ∨ pending key = some event' := by
  rw [markPending_apply] at h
  by_cases hin : key ∈ keys
  · rw [if_pos hin] at h
    exact Or.inl ⟨hin, Option.some.inj h⟩
  · rw [if_neg hin] at h
    exact Or.inr h

/-- What is waited for is what was retained, each key with its event. -/
theorem collectPending_eq_some {keys : List ChunkKey}
    {requests : List (ChunkKey × Nat)}
    (h : collectPending pendingChunks keys = some requests) :
    requests.map Prod.fst = keys
      ∧ ∀ request ∈ requests, pendingChunks request.1 = some request.2 := by
  induction keys generalizing requests with
  | nil =>
      cases h
      exact ⟨rfl, fun _ h => absurd h List.not_mem_nil⟩
  | cons key keys ih =>
      rw [collectPending] at h
      cases hkey : pendingChunks key with
      | none =>
          rw [hkey] at h
          cases h
      | some event =>
          cases hrest : collectPending pendingChunks keys with
          | none =>
              rw [hkey, hrest] at h
              cases h
          | some rest =>
              rw [hkey, hrest] at h
              cases h
              obtain ⟨hfst, hall⟩ := ih hrest
              refine ⟨by rw [List.map_cons, hfst], ?_⟩
              intro request hr
              rcases List.mem_cons.1 hr with rfl | hr
              · exact hkey
              · exact hall request hr

/-- The panic is about a key that is not pending. -/
theorem collectPending_eq_none {keys : List ChunkKey}
    (h : collectPending pendingChunks keys = none) :
    ∃ key ∈ keys, pendingChunks key = none := by
  induction keys with
  | nil => cases h
  | cons key keys ih =>
      rw [collectPending] at h
      cases hkey : pendingChunks key with
      | none => exact ⟨key, List.mem_cons_self .., hkey⟩
      | some event =>
          cases hrest : collectPending pendingChunks keys with
          | none =>
              obtain ⟨k, hk, hnone⟩ := ih hrest
              exact ⟨k, List.mem_cons_of_mem _ hk, hnone⟩
          | some rest =>
              rw [hkey, hrest] at h
              cases h

/-- What is known of a batch that was just claimed. -/
structure Claimed (inner : ChunkCacheInner) (batchSize event : Nat)
    (batch : BatchChunkRequest) : Prop where
  event : batch.event = event
  nonempty : batch.batchKeys ≠ []
  nodup : batch.batchKeys.Nodup
  bounded : batch.batchKeys.length ≤ batchSize
  notCached : ∀ key ∈ batch.batchKeys, key ∉ inner.rawCache.chunks.keys
  notPending : ∀ key ∈ batch.batchKeys, inner.pendingChunks key = none

/-- The ways the first half of `get_chunks_batched` ends. -/
inductive CallEnds (inner : ChunkCacheInner) (batchSize event : Nat)
    (r : CallResult) : Prop
  | batch (batch : BatchChunkRequest) (houtcome : r.outcome = .batch batch)
      (hbatch : Claimed inner batchSize event batch)
      (hpending : r.inner.pendingChunks
        = markPending event batch.batchKeys inner.pendingChunks)
  | wait (requests : List (ChunkKey × Nat))
      (houtcome : r.outcome = .wait requests)
      (hrequests : ∀ request ∈ requests,
        inner.pendingChunks request.1 = some request.2)
      (hpending : r.inner.pendingChunks = inner.pendingChunks)
  | complete (houtcome : r.outcome = .complete)
      (hpending : r.inner.pendingChunks = inner.pendingChunks)
  | notPending (houtcome : r.outcome = .notPending)
      (hzero : batchSize = 0)
      (hpending : r.inner.pendingChunks = inner.pendingChunks)

/-- The first half of `get_chunks_batched`. -/
structure CallResult.Ok (inner : ChunkCacheInner) (batchSize event : Nat)
    (r : CallResult) : Prop where
  reordered : Reordered inner.rawCache r.inner.rawCache
  found : ∀ e ∈ r.found, e ∈ inner.rawCache.chunks.entries
  ends : CallEnds inner batchSize event r

theorem getChunksBatched_spec (inner : ChunkCacheInner)
    (chunksRequested : List ChunkKey) (batchSize event : Nat) :
    (getChunksBatched inner chunksRequested batchSize event).Ok inner
      batchSize event := by
  have h : (retainLoop inner.pendingChunks batchSize chunksRequested
      inner.rawCache []).Ok inner.pendingChunks batchSize inner.rawCache []
      := retainLoop_spec ..
  unfold getChunksBatched
  generalize retainLoop inner.pendingChunks batchSize chunksRequested
    inner.rawCache [] = r at h
  have hfree : ∀ key ∈ r.batch, key ∉ inner.rawCache.chunks.keys
      ∧ inner.pendingChunks key = none := by
    intro key hkey
    exact (h.free key hkey).resolve_left List.not_mem_nil
  by_cases hbatch : r.batch = []
  · rw [finishCall, if_neg (not_not.2 hbatch)]
    refine ⟨h.reordered, h.found, ?_⟩
    cases hcollect : collectPending inner.pendingChunks r.remaining with
    | none =>
        obtain ⟨key, hkey, hnone⟩ := collectPending_eq_none hcollect
        -- retained and not pending: the empty batch was full
        have hfull := (h.retained key hkey).resolve_left (absurd hnone)
        rw [hbatch] at hfull
        exact .notPending (by simp only) (Nat.le_zero.1 hfull) rfl
    | some requests =>
        cases requests with
        | nil => exact .complete (by simp only) rfl
        | cons request rest =>
            exact .wait _ (by simp only)
              (collectPending_eq_some hcollect).2 rfl
  · rw [finishCall, if_pos hbatch]
    refine ⟨h.reordered, h.found, .batch _ rfl ?_ rfl⟩
    exact ⟨rfl, hbatch, h.nodup List.nodup_nil, h.bounded (Nat.zero_le _),
      fun key hkey => (hfree key hkey).1, fun key hkey => (hfree key hkey).2⟩

/-- The keys a call leaves the task with. -/
def CallOutcome.keys : CallOutcome → List ChunkKey
  | .batch request => request.batchKeys
  | .wait pendingRequests => pendingRequests.map Prod.fst
  | .complete => []
  | .notPending => []

/-- A call that does not panic loses no key. -/
theorem getChunksBatched_covers {inner : ChunkCacheInner}
    {chunksRequested : List ChunkKey} {event : Nat} {r : CallResult}
    (hr : getChunksBatched inner chunksRequested batchSize event = r)
    (hok : r.outcome ≠ .notPending) :
    ∀ key ∈ chunksRequested, key ∈ r.found.map Prod.fst
      ∨ key ∈ r.outcome.keys ∨ key ∈ r.remaining := by
  obtain ⟨-, hall, -, -⟩ := retainLoop_covers chunksRequested inner.rawCache
    [] (rfl : retainLoop inner.pendingChunks batchSize _ _ _ = _)
  subst hr
  unfold getChunksBatched at hok ⊢
  generalize retainLoop inner.pendingChunks batchSize chunksRequested
    inner.rawCache [] = r at hall hok ⊢
  intro key hkey
  by_cases hbatch : r.batch = []
  · rw [finishCall, if_neg (not_not.2 hbatch)] at hok ⊢
    have hkeys := hall key hkey
    rw [hbatch] at hkeys
    cases hcollect : collectPending inner.pendingChunks r.remaining with
    | none => exact absurd (by simp only [hcollect]) hok
    | some requests =>
        rw [← (collectPending_eq_some hcollect).1] at hkeys
        rcases hkeys with hkey | hkey | hkey
        · exact Or.inl hkey
        · cases hkey
        · cases requests with
          | nil => cases hkey
          | cons => exact Or.inr (Or.inl hkey)
  · rw [finishCall, if_pos hbatch]
    exact hall key hkey

/-- A call for some keys leaves fewer to ask for. -/
theorem getChunksBatched_shortens {inner : ChunkCacheInner}
    {chunksRequested : List ChunkKey} {event : Nat}
    (hne : chunksRequested ≠ []) :
    (getChunksBatched inner chunksRequested batchSize event).remaining.length
      < chunksRequested.length := by
  obtain ⟨-, -, hle, hsame⟩ := retainLoop_covers chunksRequested
    inner.rawCache []
    (rfl : retainLoop inner.pendingChunks batchSize _ _ _ = _)
  unfold getChunksBatched
  generalize retainLoop inner.pendingChunks batchSize chunksRequested
    inner.rawCache [] = r at hle hsame
  by_cases hbatch : r.batch = []
  · rw [finishCall, if_neg (not_not.2 hbatch)]
    exact List.length_pos_of_ne_nil hne
  · rw [finishCall, if_pos hbatch]
    exact Nat.lt_of_le_of_ne hle (fun heq => hbatch (hsame heq))

/-- What a call leaves stands in the list as before. -/
theorem getChunksBatched_sublist (inner : ChunkCacheInner)
    (chunksRequested : List ChunkKey) (event : Nat) :
    (getChunksBatched inner chunksRequested batchSize
      event).remaining.Sublist chunksRequested := by
  have hsub := (retainLoop_leaves (fun _ => true) chunksRequested
    inner.rawCache []
    (rfl : retainLoop inner.pendingChunks batchSize _ _ _ = _)).1
  unfold getChunksBatched finishCall
  split
  case isTrue => exact hsub
  case isFalse => exact List.nil_sublist _

/-- Keys that a call neither finds nor fetches nor waits for are all
left. -/
theorem getChunksBatched_leaves {p : ChunkKey → Bool}
    {inner : ChunkCacheInner} {chunksRequested : List ChunkKey}
    {event : Nat} {r : CallResult}
    (hr : getChunksBatched inner chunksRequested batchSize event = r)
    (hok : r.outcome ≠ .notPending)
    (htaken : ∀ key ∈ chunksRequested,
      key ∈ r.found.map Prod.fst ∨ key ∈ r.outcome.keys → p key = false) :
    r.remaining.filter p = chunksRequested.filter p := by
  obtain ⟨hsub, hleaves⟩ := retainLoop_leaves p chunksRequested
    inner.rawCache []
    (rfl : retainLoop inner.pendingChunks batchSize _ _ _ = _)
  subst hr
  unfold getChunksBatched at hok htaken ⊢
  generalize retainLoop inner.pendingChunks batchSize chunksRequested
    inner.rawCache [] = r at hsub hleaves hok htaken ⊢
  by_cases hbatch : r.batch = []
  · rw [finishCall, if_neg (not_not.2 hbatch)] at hok htaken ⊢
    rw [hbatch] at hleaves
    rw [← hleaves fun key hkey hfound => htaken key hkey
      (Or.inl (hfound.resolve_right List.not_mem_nil))]
    -- everything that was retained is waited for
    refine (List.filter_eq_nil_iff.2 fun key hkey => ?_).symm
    have hasked := hsub.subset hkey
    cases hcollect : collectPending inner.pendingChunks r.remaining with
    | none => exact absurd (by simp only [hcollect]) hok
    | some requests =>
        rw [← (collectPending_eq_some hcollect).1] at hkey
        cases requests with
        | nil => cases hkey
        | cons request rest =>
            rw [hcollect] at htaken
            exact Bool.eq_false_iff.1 (htaken key hasked (Or.inr hkey))
  · rw [finishCall, if_pos hbatch] at htaken ⊢
    exact hleaves htaken

-- ============================================================= second half

/-- What a call fetches, waits for or leaves was asked for. -/
theorem getChunksBatched_among {inner : ChunkCacheInner}
    {chunksRequested : List ChunkKey} {event : Nat} {r : CallResult}
    (hr : getChunksBatched inner chunksRequested batchSize event = r) :
    (∀ key ∈ r.outcome.keys, key ∈ chunksRequested)
    ∧ ∀ key ∈ r.remaining, key ∈ chunksRequested := by
  obtain ⟨hbatched, hleft⟩ := retainLoop_among chunksRequested
    inner.rawCache []
    (rfl : retainLoop inner.pendingChunks batchSize _ _ _ = _)
  subst hr
  unfold getChunksBatched
  generalize retainLoop inner.pendingChunks batchSize chunksRequested
    inner.rawCache [] = r at hbatched hleft
  by_cases hbatch : r.batch = []
  · rw [finishCall, if_neg (not_not.2 hbatch)]
    refine ⟨?_, nofun⟩
    cases hcollect : collectPending inner.pendingChunks r.remaining with
    | none => exact nofun
    | some requests =>
        have hkeys := (collectPending_eq_some hcollect).1
        cases requests with
        | nil => exact nofun
        | cons request rest =>
            intro key hkey
            have hkey : key ∈ (request :: rest).map Prod.fst := hkey
            rw [hkeys] at hkey
            exact hleft key hkey
  · rw [finishCall, if_pos hbatch]
    exact ⟨fun key hkey => (hbatched key hkey).resolve_left
      List.not_mem_nil, hleft⟩

/-- A wait that did not fail found every chunk. -/
theorem takeWaited_all {requests : List (ChunkKey × Nat)}
    {rawCache : RawChunkCache}
    (h : (takeWaited requests rawCache).2.2 = true) :
    (takeWaited requests rawCache).2.1.map Prod.fst
      = requests.map Prod.fst := by
  induction requests generalizing rawCache with
  | nil => rfl
  | cons request requests ih =>
      obtain ⟨key, event⟩ := request
      rw [takeWaited] at h ⊢
      rcases hget : rawCache.get key with ⟨_ | chunk, c'⟩
      · rw [hget] at h
        cases h
      · rw [hget] at h
        exact congrArg (key :: ·) (ih h)

/-- After the wait: every chunk found is an entry, and if every key is
cached all are found. -/
theorem takeWaited_spec (requests : List (ChunkKey × Nat))
    (rawCache : RawChunkCache) :
    Reordered rawCache (takeWaited requests rawCache).1
    ∧ (∀ e ∈ (takeWaited requests rawCache).2.1,
        e ∈ rawCache.chunks.entries)
    ∧ ((∀ request ∈ requests, request.1 ∈ rawCache.chunks.keys) →
        (takeWaited requests rawCache).2.2 = true
        ∧ (takeWaited requests rawCache).2.1.map Prod.fst
          = requests.map Prod.fst) := by
  induction requests generalizing rawCache with
  | nil =>
      exact ⟨Reordered.refl _, fun _ h => absurd h List.not_mem_nil,
        fun _ => ⟨rfl, rfl⟩⟩
  | cons request requests ih =>
      obtain ⟨key, event⟩ := request
      rw [takeWaited]
      rcases get_cases rawCache key with
        ⟨c', chunk, hget, hre, hmem⟩ | ⟨c', hget, hre, hmiss⟩
      · rw [hget]
        obtain ⟨hre', hfound, hall⟩ := ih c'
        refine ⟨hre.trans hre', ?_, ?_⟩
        · intro e he
          rcases List.mem_cons.1 he with rfl | he
          · exact hmem
          · exact hre.mem_entries.1 (hfound e he)
        · intro hcached
          have hrest : ∀ request ∈ requests,
              request.1 ∈ c'.chunks.keys := by
            intro request hr
            exact hre.mem_keys.2
              (hcached request (List.mem_cons_of_mem _ hr))
          obtain ⟨hall, hkeys⟩ := hall hrest
          exact ⟨hall, congrArg (key :: ·) hkeys⟩
      · rw [hget]
        refine ⟨hre, fun _ h => absurd h List.not_mem_nil, ?_⟩
        intro hcached
        exact absurd (hcached (key, event) (List.mem_cons_self ..)) hmiss

-- ================================================================== fulfill

/-- What the loop of `fulfill` does with new entries. -/
structure Fulfilled (inner : ChunkCacheInner)
    (entries : List (ChunkKey × Bytes)) (inner' : ChunkCacheInner) : Prop
    where
  sized : inner'.rawCache.Sized
  maxSize : inner'.rawCache.maxSize = inner.rawCache.maxSize
  subset : inner'.rawCache.chunks.entries
    <:+ inner.rawCache.chunks.entries ++ entries
  keeps : ∀ kept, kept <:+ inner.rawCache.chunks.entries ++ entries →
    bytesIn kept ≤ inner.rawCache.maxSize.toNat →
    kept <:+ inner'.rawCache.chunks.entries
  pending : ∀ key, inner'.pendingChunks key
    = if key ∈ entries.map Prod.fst then none else inner.pendingChunks key

theorem fulfillLoop_spec (entries : List (ChunkKey × Bytes))
    (inner : ChunkCacheInner) (hsized : inner.rawCache.Sized)
    (hnodup : (entries.map Prod.fst).Nodup)
    (hnew : ∀ key ∈ entries.map Prod.fst,
      key ∉ inner.rawCache.chunks.keys) :
    ∃ inner', fulfillLoop entries inner = some (inner', [])
      ∧ Fulfilled inner entries inner' := by
  induction entries generalizing inner with
  | nil =>
      refine ⟨inner, rfl, hsized, rfl, ?_, ?_, fun _ => by simp⟩
      · exact ⟨[], (List.append_nil _).symm⟩
      · intro kept hk _
        rwa [List.append_nil] at hk
  | cons e entries ih =>
      obtain ⟨key, chunk⟩ := e
      obtain ⟨hkey, hnodup⟩ := List.nodup_cons.1 hnodup
      have hkeyNew : key ∉ inner.rawCache.chunks.keys :=
        hnew key (List.mem_cons_self ..)
      obtain ⟨c', hins, hc'⟩ := insert_spec hsized key chunk
      have hback : (inner.rawCache.chunks.putBack key chunk).entries
          = inner.rawCache.chunks.entries ++ [(key, chunk)] := by
        rw [LinkedMap.entries_putBack, LinkedMap.others_of_not_mem hkeyNew]
      have hnext : ∀ k ∈ entries.map Prod.fst, k ∉ c'.chunks.keys := by
        intro k hk hmem
        have hmem := (hc'.subset.map Prod.fst).mem hmem
        rw [hback, List.map_append, List.mem_append] at hmem
        rcases hmem with hmem | hmem
        · exact hnew k (List.mem_cons_of_mem _ hk) hmem
        · rw [List.mem_singleton.1 hmem] at hk
          exact hkey hk
      obtain ⟨inner', hloop, h⟩ := ih { inner with
        rawCache := c'
        pendingChunks := Function.update inner.pendingChunks key none }
        hc'.sized hnodup hnext
      refine ⟨inner', ?_, h.sized, h.maxSize.trans hc'.maxSize, ?_, ?_, ?_⟩
      · rw [fulfillLoop, hins]
        dsimp only
        rw [hloop]
        dsimp only
        rw [if_neg hkeyNew]
      · apply h.subset.trans
        rw [List.append_cons, ← hback]
        exact List.suffix_append_self_iff.2 hc'.subset
      · intro kept hk hfits
        apply h.keeps
        · rw [List.append_cons, ← hback] at hk
          rcases Lru.suffix_append_cases hk with hk | ⟨front, rfl, hfront⟩
          · exact hk.trans (List.suffix_append _ _)
          · rw [bytesIn_append] at hfits
            apply List.suffix_append_self_iff.2
            exact hc'.keeps front hfront (by omega)
        · exact hc'.maxSize ▸ hfits
      · intro k
        rw [h.pending k, List.map_cons]
        by_cases hk : k ∈ entries.map Prod.fst
        · rw [if_pos hk, if_pos (List.mem_cons_of_mem _ hk)]
        · rw [if_neg hk]
          by_cases heq : k = key
          · subst heq
            simp
          · simp [heq, hk]

-- ============================================================== cache files

/-- Every entry hashes to its key. -/
def RawChunkCache.Intact (blake3 : Bytes → ChunkKey) (c : RawChunkCache) :
    Prop :=
  ∀ e ∈ c.chunks.entries, blake3 e.2 = e.1

theorem intact_new (blake3 : Bytes → ChunkKey) (maxSize : UInt64) :
    (new maxSize).Intact blake3 := fun _ h => absurd h List.not_mem_nil

theorem RawChunkCache.Inserted.intact {blake3 : Bytes → ChunkKey}
    {c c' : RawChunkCache} {key : ChunkKey} {chunk : Bytes}
    (h : Inserted c key chunk c') (hc : c.Intact blake3)
    (hkey : blake3 chunk = key) :
    c'.Intact blake3 := by
  intro e he
  rcases LinkedMap.mem_putBack.1 (h.subset.mem he) with ⟨he, -⟩ | rfl
  · exact hc e he
  · exact hkey

/-- A cache file adds entries to a cache, all of them checked. -/
theorem readCacheEntries_spec {blake3 : Bytes → ChunkKey} {n : Nat}
    {contents : Bytes} {c c' : RawChunkCache} (hsized : c.Sized)
    (hintact : c.Intact blake3)
    (h : readCacheEntries blake3 n contents c = .ok c') :
    c'.Sized ∧ c'.Intact blake3 ∧ c'.maxSize = c.maxSize := by
  induction n generalizing contents c with
  | zero =>
      cases h
      exact ⟨hsized, hintact, rfl⟩
  | succ n ih =>
      rw [readCacheEntries] at h
      cases hentry : readCacheEntry contents with
      | error e =>
          rw [hentry] at h
          cases h
      | ok entry =>
          obtain ⟨⟨key, data⟩, rest⟩ := entry
          rw [hentry] at h
          dsimp only at h
          by_cases hkey : blake3 data = key
          · obtain ⟨c₁, hins, hc₁⟩ := insert_spec hsized key data
            rw [if_pos hkey, hins] at h
            obtain ⟨h₁, h₂, hmax⟩ :=
              ih hc₁.sized (hc₁.intact hintact hkey) h
            exact ⟨h₁, h₂, hmax.trans hc₁.maxSize⟩
          · rw [if_neg hkey] at h
            exact ih hsized hintact h

/-- What a cache starts as, whatever the cache file has. -/
theorem loadFromFile_spec {blake3 : Bytes → ChunkKey} {maxSize : UInt64}
    {file : Option Bytes} {s : CacheState}
    (h : CacheState.loadFromFile blake3 maxSize file = .ok s) :
    ∃ c, s = CacheState.ofRaw c ∧ c.Sized ∧ c.Intact blake3
      ∧ c.maxSize = maxSize := by
  cases file with
  | none =>
      cases h
      exact ⟨_, rfl, sized_new maxSize, intact_new blake3 maxSize, rfl⟩
  | some contents =>
      rw [CacheState.loadFromFile] at h
      cases hread : readChunkCache blake3 contents (new maxSize) with
      | error e =>
          rw [hread] at h
          cases h
      | ok c =>
          rw [hread] at h
          cases h
          rw [readChunkCache] at hread
          cases hcount : tryGetU32Le contents with
          | error e =>
              rw [hcount] at hread
              cases hread
          | ok count =>
              rw [hcount] at hread
              exact ⟨c, rfl, readCacheEntries_spec (sized_new maxSize)
                (intact_new blake3 maxSize) hread⟩

end FactoryCacher
