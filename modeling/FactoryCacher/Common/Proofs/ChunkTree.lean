/-
The chunk tree round trip: what `chunkData` and `minimizeChunkList` put
into a shared chunk map, `reconstructData` reads back, byte for byte.

# The argument

The meaning of a chunk list over a chunk map is the list of data chunks
below it (`Means`, the content-tree meaning at this program's types).
Building only ever adds to the map, so meanings are stable while the
tree grows. The invariant of the chunking loop (`LevelsMean`) reads the
unfinished levels from the top down: the chunks below the highest level,
then those below the next, and so on to level 0, are exactly the chunks
consumed so far, in order. A split moves what level `i` stands for to
the end of level `i + 1`; the finishing pass does the same without a
split check and skips a level that stands for nothing.

No level ever exceeds `maxChunksInList` keys when it is serialized, so
the key count fits its `u32` and every stored node decodes to itself.

Reading is by induction on the meaning of the root. Only here does
collision-freedom enter: the newest blob stored under a key is the one
the tree was built with.
-/
import FactoryCacher.Lib.Faults
import FactoryCacher.Common.Dedup

namespace FactoryCacher

-- ==================================================== nodes and their text

/-- The keys of a list read back. -/
theorem ChunkList.run_decodeKeys (ks : List ChunkKey) (rest : Bytes) :
    ChunkList.decodeKeys ks.length (ks.flatMap ChunkKey.bytes ++ rest)
      = .ok (ks, rest) := by
  induction ks with
  | nil => rfl
  | cons k ks ih =>
      rw [List.length_cons, ChunkList.decodeKeys, List.flatMap_cons,
        List.append_assoc, Get.run_bind_ok (run_tryGetKey_append k _),
        Get.run_bind_ok ih]
      rfl

/-- A list whose key count fits its field decodes to itself. -/
theorem ChunkList.decode_serialized {l : ChunkList}
    (h : l.chunks.length < 2 ^ 32) :
    ChunkList.decode l.serialized = .ok l := by
  have hcount : (UInt32.ofNat l.chunks.length).toNat = l.chunks.length :=
    UInt32.toNat_ofNat_of_lt' h
  have hkeys := ChunkList.run_decodeKeys l.chunks []
  rw [List.append_nil] at hkeys
  unfold ChunkList.decode ChunkList.decodeBuf ChunkList.serialized
  rw [Get.run_bind_ok (run_tryGetU8_cons _ _),
    Get.run_bind_ok (run_tryGetU32_append _ _), hcount,
    Get.run_bind_ok hkeys]
  obtain ⟨isLeaf, chunks⟩ := l
  cases isLeaf <;> rfl

/-- The parser of inner nodes, as `reconstruct_data` decodes them. -/
def parseList (blob : Bytes) : Option (Node ChunkKey) :=
  match ChunkList.decode blob with
  | .error _ => none
  | .ok l => some ⟨l.isLeaf, l.chunks⟩

theorem parseList_serialized {l : ChunkList}
    (h : l.chunks.length < 2 ^ 32) :
    parseList l.serialized = some ⟨l.isLeaf, l.chunks⟩ := by
  simp [parseList, ChunkList.decode_serialized h]

-- ==================================================== meanings and growth

/-- The data chunks below a list, over everything a map was written. -/
def Means (chunks : ChunkMap) (l : ChunkList) (data : List Bytes) : Prop :=
  Denotes chunks.Written parseList l.isLeaf l.chunks data

/-- The data chunks below the unfinished levels, lowest level first; the
highest level holds the oldest data. -/
def LevelsMean (chunks : ChunkMap) :
    Bool → List ChunkList → List Bytes → Prop
  | _, [], data => data = []
  | leaf, cur :: above, data =>
      cur.isLeaf = leaf ∧ ∃ lo hi, Means chunks cur lo
        ∧ LevelsMean chunks false above hi ∧ data = hi ++ lo

variable {blake3 : Bytes → ChunkKey}

/-- `chunks'` is `chunks` with blobs added, each under its own hash. -/
structure Grown (blake3 : Bytes → ChunkKey) (chunks chunks' : ChunkMap) :
    Prop where
  keep : ∀ k b, chunks.Written k b → chunks'.Written k b
  hashed : ∀ k b, chunks'.Written k b → chunks.Written k b ∨ k = blake3 b

theorem Grown.refl (chunks : ChunkMap) : Grown blake3 chunks chunks :=
  ⟨fun _ _ h => h, fun _ _ h => Or.inl h⟩

theorem Grown.trans {a b c : ChunkMap} (h₁ : Grown blake3 a b)
    (h₂ : Grown blake3 b c) : Grown blake3 a c := by
  refine ⟨fun k x h => h₂.keep k x (h₁.keep k x h), fun k x h => ?_⟩
  rcases h₂.hashed k x h with h | h
  · exact h₁.hashed k x h
  · exact Or.inr h

/-- Storing a blob under its hash. -/
theorem Grown.insert (blake3 : Bytes → ChunkKey) (chunks : ChunkMap)
    (blob : Bytes) : Grown blake3 chunks
      (chunks.insert (blake3 blob) blob) := by
  refine ⟨fun k b h => ?_, fun k b h => ?_⟩
  · exact (WriteMap.written_insert ..).2 (Or.inr h)
  · rcases (WriteMap.written_insert ..).1 h with ⟨rfl, rfl⟩ | h
    · exact Or.inr rfl
    · exact Or.inl h

theorem written_insert_self (chunks : ChunkMap) (k : ChunkKey)
    (blob : Bytes) : (chunks.insert k blob).Written k blob :=
  (WriteMap.written_insert ..).2 (Or.inl ⟨rfl, rfl⟩)

theorem Means.mono {chunks chunks' : ChunkMap}
    (hg : Grown blake3 chunks chunks') {l : ChunkList} {data : List Bytes}
    (h : Means chunks l data) : Means chunks' l data :=
  Denotes.mono hg.keep h

theorem LevelsMean.mono {chunks chunks' : ChunkMap}
    (hg : Grown blake3 chunks chunks') :
    ∀ {levels : List ChunkList} {leaf : Bool} {data : List Bytes},
      LevelsMean chunks leaf levels data →
      LevelsMean chunks' leaf levels data := by
  intro levels
  induction levels with
  | nil => intro leaf data h; exact h
  | cons cur above ih =>
      rintro leaf data ⟨hleaf, lo, hi, hlo, hhi, rfl⟩
      exact ⟨hleaf, lo, hi, hlo.mono hg, ih hhi, rfl⟩

theorem Means.empty (chunks : ChunkMap) (leaf : Bool) :
    Means chunks (ChunkList.newEmpty leaf) [] := Denotes.nil leaf

/-- A data chunk pushed on a leaf. -/
theorem Means.pushData {chunks : ChunkMap} {l : ChunkList}
    {data : List Bytes} (h : Means chunks l data) (hleaf : l.isLeaf = true)
    (blake3 : Bytes → ChunkKey) (chunk : Bytes) :
    Means (chunks.insert (blake3 chunk) chunk)
      (l.pushChunk (blake3 chunk)) (data ++ [chunk]) := by
  have hm := h.mono (Grown.insert blake3 chunks chunk)
  unfold Means at hm ⊢
  rw [hleaf] at hm
  show Denotes _ _ l.isLeaf (l.chunks ++ [blake3 chunk]) _
  rw [hleaf]
  exact hm.snocLeaf (written_insert_self ..)

/-- A finished node stored and its key pushed on the level above. -/
theorem Means.pushNode {chunks : ChunkMap} {cur next : ChunkList}
    {lo hi : List Bytes} (hcur : Means chunks cur lo)
    (blake3 : Bytes → ChunkKey) (hnext : Means chunks next hi)
    (hleaf : next.isLeaf = false) (hlen : cur.chunks.length < 2 ^ 32) :
    Means (chunks.insert (blake3 cur.serialized) cur.serialized)
      (next.pushChunk (blake3 cur.serialized)) (hi ++ lo) := by
  have hg := Grown.insert blake3 chunks cur.serialized
  have hm := hnext.mono hg
  have hc := hcur.mono hg
  unfold Means at hm hc ⊢
  rw [hleaf] at hm
  show Denotes _ _ next.isLeaf (next.chunks ++ [_]) _
  rw [hleaf]
  exact hm.snocInner (written_insert_self ..) (parseList_serialized hlen) hc

/-- A node no longer than `maxChunksInList` is serialized. -/
theorem ChunkList.encode_of_le {l : ChunkList}
    (h : l.chunks.length ≤ maxChunksInList) :
    l.encode = some l.serialized ∧ l.chunks.length < 2 ^ 32 := by
  have hlt : l.chunks.length < 2 ^ 32 := by
    simp only [maxChunksInList] at h
    omega
  exact ⟨if_pos hlt, hlt⟩

@[simp] theorem ChunkList.length_pushChunk (l : ChunkList) (k : ChunkKey) :
    (l.pushChunk k).chunks.length = l.chunks.length + 1 := by
  simp [ChunkList.pushChunk]

-- ======================================================= the chunking loop

/-- Every unfinished node is below the size that forces a split. -/
def Short (levels : List ChunkList) : Prop :=
  ∀ l ∈ levels, l.chunks.length < maxChunksInList

/-- What the split loop leaves behind: the levels stand for the same
chunks, moved upward, and are short again. -/
structure SplitDone (blake3 : Bytes → ChunkKey) (chunks : ChunkMap)
    (leaf : Bool) (data : List Bytes) (levels : List ChunkList)
    (chunks' : ChunkMap) : Prop where
  grown : Grown blake3 chunks chunks'
  means : LevelsMean chunks' leaf levels data
  short : Short levels
  ne_nil : levels ≠ []

/-- A node that is not complete is short. -/
theorem short_of_not_split {hash : ChunkKey} {n : Nat}
    (h : ¬ isSplitPoint hash n = true) : n < maxChunksInList := by
  by_contra hge
  apply h
  have hmin : ¬ n < minChunksInList := by
    simp only [minChunksInList, maxChunksInList] at hge ⊢
    omega
  rw [isSplitPoint, if_neg hmin, if_pos (not_lt.1 hge)]

/-- One turn of the split loop: with the node stored and its key pushed,
what the loop does from the next level on completes it. -/
theorem SplitDone.step {chunks chunks' : ChunkMap} {cur next : ChunkList}
    {rest : List ChunkList} {data : List Bytes}
    (hlevel : next.isLeaf = false)
    (h : SplitDone blake3
      (chunks.insert (blake3 cur.serialized) cur.serialized)
      next.isLeaf data rest chunks') :
    SplitDone blake3 chunks cur.isLeaf data
      (ChunkList.newEmpty cur.isLeaf :: rest) chunks' := by
  refine ⟨(Grown.insert blake3 _ _).trans h.grown, ?_, ?_,
    List.cons_ne_nil _ _⟩
  · refine ⟨rfl, [], data, Means.empty _ _, ?_, (List.append_nil _).symm⟩
    have hm := h.means
    rwa [hlevel] at hm
  · intro l hl
    rcases List.mem_cons.1 hl with rfl | hl
    · exact (by decide : 0 < maxChunksInList)
    · exact h.short l hl

/-- The loop exits at a node that is not complete. -/
theorem splitLevels_of_not_split {hash : ChunkKey} {cur : ChunkList}
    {above : List ChunkList} {chunks : ChunkMap}
    (h : ¬ isSplitPoint hash cur.chunks.length = true) :
    splitLevels blake3 hash cur above chunks
      = some (cur :: above, chunks) := by
  rw [splitLevels, dif_neg h]

/-- What the loop leaves where it exits at once. -/
theorem SplitDone.exit {hash : ChunkKey} {cur : ChunkList}
    {above : List ChunkList} {chunks : ChunkMap} {lo hi : List Bytes}
    (h : ¬ isSplitPoint hash cur.chunks.length = true)
    (hcur : Means chunks cur lo)
    (habove : LevelsMean chunks false above hi) (hshort : Short above) :
    SplitDone blake3 chunks cur.isLeaf (hi ++ lo) (cur :: above)
      chunks := by
  refine ⟨Grown.refl _, ⟨rfl, lo, hi, hcur, habove, rfl⟩, ?_,
    List.cons_ne_nil _ _⟩
  intro l hl
  rcases List.mem_cons.1 hl with rfl | hl
  · exact short_of_not_split h
  · exact hshort l hl

/-- One key is no split point. -/
theorem not_split_one (hash k : ChunkKey) (leaf : Bool) :
    ¬ isSplitPoint hash
      ((ChunkList.newEmpty leaf).pushChunk k).chunks.length = true := by
  simp [ChunkList.newEmpty, isSplitPoint, minChunksInList]

/-- The split loop ends, without a panic, with the same chunks below the
levels in the same order. -/
theorem splitLevels_spec (above : List ChunkList) :
    ∀ (hash : ChunkKey) (cur : ChunkList) (chunks : ChunkMap)
      (lo hi : List Bytes), Means chunks cur lo →
      cur.chunks.length ≤ maxChunksInList →
      LevelsMean chunks false above hi → Short above →
      ∃ levels chunks', splitLevels blake3 hash cur above chunks
          = some (levels, chunks')
        ∧ SplitDone blake3 chunks cur.isLeaf (hi ++ lo) levels
            chunks' := by
  induction above with
  | nil =>
      intro hash cur chunks lo hi hcur hlen habove hshort
      by_cases hsplit : isSplitPoint hash cur.chunks.length = true
      · obtain ⟨hencode, hlt⟩ := ChunkList.encode_of_le hlen
        obtain rfl : hi = [] := habove
        -- the level added just now holds one key, where the loop exits
        have hnext := hcur.pushNode blake3 (Means.empty chunks false) rfl hlt
        have hone := not_split_one (blake3 cur.serialized)
          (blake3 cur.serialized) false
        have hnone : LevelsMean (chunks.insert (blake3 cur.serialized)
            cur.serialized) false [] [] := rfl
        refine ⟨_, _, ?_, SplitDone.step rfl
          (SplitDone.exit hone hnext hnone hshort)⟩
        rw [splitLevels, dif_pos hsplit, hencode]
        dsimp only
        rw [splitLevels_of_not_split hone]
      · exact ⟨_, _, splitLevels_of_not_split hsplit,
          SplitDone.exit hsplit hcur habove hshort⟩
  | cons next above ih =>
      intro hash cur chunks lo hi hcur hlen habove hshort
      by_cases hsplit : isSplitPoint hash cur.chunks.length = true
      · obtain ⟨hencode, hlt⟩ := ChunkList.encode_of_le hlen
        obtain ⟨hleaf, mid, top, hmid, htop, rfl⟩ := habove
        have hnext := hcur.pushNode blake3 hmid hleaf hlt
        have hnlen : next.chunks.length < maxChunksInList :=
          hshort next (List.mem_cons_self ..)
        obtain ⟨rest, chunks', heq, hdone⟩ := ih (blake3 cur.serialized)
          _ _ _ _ hnext (by rw [ChunkList.length_pushChunk]; omega)
          (htop.mono (Grown.insert blake3 _ _))
          (fun l hl => hshort l (List.mem_cons_of_mem _ hl))
        refine ⟨ChunkList.newEmpty cur.isLeaf :: rest, chunks', ?_, ?_⟩
        · rw [splitLevels, dif_pos hsplit, hencode]
          dsimp only
          rw [heq]
        · rw [List.append_assoc]
          exact SplitDone.step hleaf hdone
      · exact ⟨_, _, splitLevels_of_not_split hsplit,
          SplitDone.exit hsplit hcur habove hshort⟩

/-- The state of the chunking loop after the chunks in `done`: started
from the map `start`, the levels stand for `done` and are short. -/
structure LoopInv (blake3 : Bytes → ChunkKey) (start : ChunkMap)
    (done : List Bytes) (state : List ChunkList × ChunkMap) : Prop where
  grown : Grown blake3 start state.2
  means : LevelsMean state.2 true state.1 done
  short : Short state.1
  ne_nil : state.1 ≠ []

/-- The loop starts with an empty leaf. -/
theorem loopInv_start (start : ChunkMap) :
    LoopInv blake3 start [] ([ChunkList.newEmpty true], start) := by
  refine ⟨Grown.refl _, ⟨rfl, [], [], Means.empty _ _, rfl, rfl⟩, ?_,
    List.cons_ne_nil _ _⟩
  intro l hl
  rw [List.mem_singleton.1 hl]
  exact (by decide : 0 < maxChunksInList)

/-- One chunk through the loop. -/
theorem addChunk_spec {start : ChunkMap} {done : List Bytes}
    {state : List ChunkList × ChunkMap}
    (hinv : LoopInv blake3 start done state) (chunk : Bytes) :
    ∃ state', addChunk blake3 state chunk = some state'
      ∧ LoopInv blake3 start (done ++ [chunk]) state' := by
  obtain ⟨levels, chunks⟩ := state
  cases levels with
  | nil => exact absurd rfl hinv.ne_nil
  | cons leaf above =>
      obtain ⟨hleaf, lo, hi, hlo, hhi, rfl⟩ := hinv.means
      have hlen : leaf.chunks.length < maxChunksInList :=
        hinv.short leaf (List.mem_cons_self ..)
      have hg := Grown.insert blake3 chunks chunk
      have hpush := hlo.pushData hleaf blake3 chunk
      obtain ⟨levels', chunks', heq, hdone⟩ := splitLevels_spec above
        (blake3 chunk) _ _ _ _ hpush
        (by rw [ChunkList.length_pushChunk]; omega) (hhi.mono hg)
        (fun l hl => hinv.short l (List.mem_cons_of_mem _ hl))
      refine ⟨(levels', chunks'), heq, ?_, ?_, hdone.short, hdone.ne_nil⟩
      · exact (hinv.grown.trans hg).trans hdone.grown
      · have hm := hdone.means
        rw [show (leaf.pushChunk (blake3 chunk)).isLeaf = leaf.isLeaf
          from rfl, hleaf, ← List.append_assoc] at hm
        exact hm

/-- All chunks through the loop. -/
theorem foldlM_addChunk_spec {start : ChunkMap} (todo : List Bytes)
    {done : List Bytes} {state : List ChunkList × ChunkMap}
    (hinv : LoopInv blake3 start done state) :
    ∃ state', todo.foldlM (addChunk blake3) state = some state'
      ∧ LoopInv blake3 start (done ++ todo) state' :=
  Faults.foldlM_history (LoopInv blake3 start)
    (fun _ _ chunk h => addChunk_spec h chunk) todo hinv

-- ========================================================= finishing a tree

/-- What a finished root is: it stands for the data, and fits a node. -/
structure RootDone (blake3 : Bytes → ChunkKey) (chunks : ChunkMap)
    (data : List Bytes) (root : ChunkList) (chunks' : ChunkMap) :
    Prop where
  grown : Grown blake3 chunks chunks'
  means : Means chunks' root data
  len : root.chunks.length ≤ maxChunksInList

/-- The finishing pass gathers the levels into one root. -/
theorem finishTree_spec (above : List ChunkList) :
    ∀ (cur : ChunkList) (chunks : ChunkMap) (lo hi : List Bytes),
      Means chunks cur lo → cur.chunks.length ≤ maxChunksInList →
      LevelsMean chunks false above hi → Short above →
      ∃ root chunks', finishTree blake3 cur above chunks
          = some (root, chunks')
        ∧ RootDone blake3 chunks (hi ++ lo) root chunks' := by
  induction above with
  | nil =>
      intro cur chunks lo hi hcur hlen habove _
      obtain rfl : hi = [] := habove
      exact ⟨cur, chunks, rfl, Grown.refl _, hcur, hlen⟩
  | cons next above ih =>
      intro cur chunks lo hi hcur hlen habove hshort
      obtain ⟨hleaf, mid, top, hmid, htop, rfl⟩ := habove
      have hnlen : next.chunks.length < maxChunksInList :=
        hshort next (List.mem_cons_self ..)
      have hrest : Short above :=
        fun l hl => hshort l (List.mem_cons_of_mem _ hl)
      rw [finishTree]
      split
      case isTrue hemp =>
        -- an empty level stands for nothing
        have hnil : cur.chunks = [] := List.isEmpty_iff.1 hemp
        have hlo : lo = [] := by
          unfold Means at hcur
          rw [hnil] at hcur
          exact hcur.eq_nil
        subst hlo
        rw [List.append_nil]
        exact ih next chunks mid top hmid (by omega) htop hrest
      case isFalse =>
        obtain ⟨hencode, hlt⟩ := ChunkList.encode_of_le hlen
        have hg := Grown.insert blake3 chunks cur.serialized
        have hnext := hcur.pushNode blake3 hmid hleaf hlt
        obtain ⟨root, chunks', heq, hdone⟩ := ih _ _ _ _ hnext
          (by rw [ChunkList.length_pushChunk]; omega) (htop.mono hg) hrest
        rw [hencode]
        refine ⟨root, chunks', heq, hg.trans hdone.grown, ?_, hdone.len⟩
        rw [List.append_assoc]
        exact hdone.means

/-- `chunk_data` returns a root that stands for the chunks of its data. -/
theorem chunkData_spec (blake3 : Bytes → ChunkKey) (data : Bytes)
    (chunks : ChunkMap) :
    ∃ root chunks', chunkData blake3 data chunks = some (root, chunks')
      ∧ RootDone blake3 chunks (chunksOf data) root chunks' := by
  obtain ⟨⟨levels, mid⟩, hloop, hinv⟩ :=
    foldlM_addChunk_spec (chunksOf data) (loopInv_start chunks)
  rw [List.nil_append] at hinv
  unfold chunkData
  rw [hloop]
  cases levels with
  | nil => exact absurd rfl hinv.ne_nil
  | cons leaf above =>
      obtain ⟨-, lo, hi, hlo, hhi, hdata⟩ := hinv.means
      have hlen := hinv.short leaf (List.mem_cons_self ..)
      obtain ⟨root, chunks', heq, hdone⟩ := finishTree_spec above leaf mid
        lo hi hlo (Nat.le_of_lt hlen) hhi
        (fun l hl => hinv.short l (List.mem_cons_of_mem _ hl))
      rw [hdata]
      exact ⟨root, chunks', heq, hinv.grown.trans hdone.grown,
        hdone.means, hdone.len⟩

/-- `minimize_chunk_list` returns a root that stands for the same
chunks. -/
theorem minimizeChunkList_spec {root : ChunkList} {chunks : ChunkMap}
    {data : List Bytes} (hmeans : Means chunks root data)
    (hlen : root.chunks.length ≤ maxChunksInList) :
    ∃ root' chunks', minimizeChunkList blake3 root chunks
        = some (root', chunks')
      ∧ RootDone blake3 chunks data root' chunks' := by
  unfold minimizeChunkList
  split
  case isTrue => exact ⟨root, chunks, rfl, Grown.refl _, hmeans, hlen⟩
  case isFalse =>
    obtain ⟨hencode, hlt⟩ := ChunkList.encode_of_le hlen
    rw [hencode]
    refine ⟨_, _, rfl, Grown.insert blake3 _ _, ?_, ?_⟩
    · exact hmeans.pushNode blake3 (Means.empty chunks false) rfl hlt
    · simp [ChunkList.newEmpty, maxChunksInList]

-- ============================================== roots, whatever the map

/-- The split loop does not read the map. -/
theorem splitLevels_any_map (above : List ChunkList) :
    ∀ {hash : ChunkKey} {cur : ChunkList} {chunks chunks₁ : ChunkMap}
      {levels : List ChunkList},
      splitLevels blake3 hash cur above chunks = some (levels, chunks₁) →
      ∀ chunks', ∃ chunks₂, splitLevels blake3 hash cur above chunks'
        = some (levels, chunks₂) := by
  induction above with
  | nil =>
      intro hash cur chunks chunks₁ levels h chunks'
      by_cases hsplit : isSplitPoint hash cur.chunks.length = true
      · rw [splitLevels, dif_pos hsplit] at h ⊢
        cases hencode : cur.encode with
        | none =>
            rw [hencode] at h
            cases h
        | some text =>
            have hone := not_split_one (blake3 text) (blake3 text) false
            simp only [hencode, splitLevels_of_not_split hone,
              Option.some.injEq, Prod.mk.injEq] at h ⊢
            exact ⟨_, h.1, rfl⟩
      · rw [splitLevels_of_not_split hsplit] at h ⊢
        cases h
        exact ⟨_, rfl⟩
  | cons next above ih =>
      intro hash cur chunks chunks₁ levels h chunks'
      by_cases hsplit : isSplitPoint hash cur.chunks.length = true
      · rw [splitLevels, dif_pos hsplit] at h ⊢
        cases hencode : cur.encode with
        | none =>
            rw [hencode] at h
            cases h
        | some text =>
            simp only [hencode] at h ⊢
            cases hrest : splitLevels blake3 (blake3 text)
                (next.pushChunk (blake3 text)) above
                (chunks.insert (blake3 text) text) with
            | none =>
                rw [hrest] at h
                cases h
            | some out =>
                obtain ⟨rest, mid⟩ := out
                rw [hrest] at h
                cases h
                obtain ⟨chunks₂, hrest'⟩ :=
                  ih hrest (chunks'.insert (blake3 text) text)
                rw [hrest']
                exact ⟨_, rfl⟩
      · rw [splitLevels_of_not_split hsplit] at h ⊢
        cases h
        exact ⟨_, rfl⟩

/-- Nor does the loop over the chunks. -/
theorem foldlM_addChunk_any_map (todo : List Bytes) :
    ∀ {start levels : List ChunkList} {chunks chunks₁ : ChunkMap},
      todo.foldlM (addChunk blake3) (start, chunks)
        = some (levels, chunks₁) →
      ∀ chunks', ∃ chunks₂, todo.foldlM (addChunk blake3) (start, chunks')
        = some (levels, chunks₂) := by
  induction todo with
  | nil =>
      intro start levels chunks chunks₁ h chunks'
      cases h
      exact ⟨_, rfl⟩
  | cons chunk todo ih =>
      intro start levels chunks chunks₁ h chunks'
      rw [List.foldlM_cons, Option.bind_eq_bind, Option.bind_eq_some_iff] at h
      obtain ⟨⟨mid, chunks₃⟩, hadd, hrest⟩ := h
      cases start with
      | nil => cases hadd
      | cons leaf above =>
          obtain ⟨chunks₄, hadd'⟩ := splitLevels_any_map above hadd
            (chunks'.insert (blake3 chunk) chunk)
          obtain ⟨chunks₂, hrest'⟩ := ih hrest chunks₄
          refine ⟨chunks₂, ?_⟩
          rw [List.foldlM_cons, Option.bind_eq_bind,
            Option.bind_eq_some_iff]
          exact ⟨_, hadd', hrest'⟩

/-- Nor does the finishing pass. -/
theorem finishTree_any_map (above : List ChunkList) :
    ∀ {cur root : ChunkList} {chunks chunks₁ : ChunkMap},
      finishTree blake3 cur above chunks = some (root, chunks₁) →
      ∀ chunks', ∃ chunks₂, finishTree blake3 cur above chunks'
        = some (root, chunks₂) := by
  induction above with
  | nil =>
      intro cur root chunks chunks₁ h chunks'
      cases h
      exact ⟨_, rfl⟩
  | cons next above ih =>
      intro cur root chunks chunks₁ h chunks'
      rw [finishTree] at h ⊢
      split at h
      case isTrue hemp =>
        rw [if_pos hemp]
        exact ih h chunks'
      case isFalse hne =>
        rw [if_neg hne]
        cases hencode : cur.encode with
        | none =>
            rw [hencode] at h
            cases h
        | some text =>
            simp only [hencode] at h ⊢
            exact ih h _

/-- The root `chunk_data` returns for some data, into whatever map. -/
def rootOf (blake3 : Bytes → ChunkKey) (data : Bytes) : ChunkList :=
  match chunkData blake3 data WriteMap.empty with
  | some (root, _) => root
  | none => ChunkList.newEmpty true

/-- `chunk_data` always returns that root, and it stands for the chunks
of the data. -/
theorem chunkData_rootOf (blake3 : Bytes → ChunkKey) (data : Bytes)
    (chunks : ChunkMap) :
    ∃ chunks', chunkData blake3 data chunks
        = some (rootOf blake3 data, chunks')
      ∧ RootDone blake3 chunks (chunksOf data) (rootOf blake3 data)
        chunks' := by
  obtain ⟨root, chunks', hdata, hdone⟩ := chunkData_spec blake3 data chunks
  have hroot : rootOf blake3 data = root := by
    have hdata' := hdata
    unfold chunkData at hdata'
    cases hloop : (chunksOf data).foldlM (addChunk blake3)
        ([ChunkList.newEmpty true], chunks) with
    | none =>
        rw [hloop] at hdata'
        cases hdata'
    | some state =>
        obtain ⟨_ | ⟨leaf, above⟩, mid⟩ := state
        · rw [hloop] at hdata'
          cases hdata'
        · rw [hloop] at hdata'
          obtain ⟨mid', hloop'⟩ :=
            foldlM_addChunk_any_map _ hloop WriteMap.empty
          obtain ⟨final, hfinish⟩ :=
            finishTree_any_map above hdata' mid'
          simp only [rootOf, chunkData, hloop', hfinish]
  rw [hroot]
  exact ⟨chunks', hdata, hdone⟩

-- ============================================================ reading back

/-- A parsed node is a decoded list. -/
theorem decode_of_parseList {blob : Bytes} {node : Node ChunkKey}
    (h : parseList blob = some node) :
    ChunkList.decode blob = .ok ⟨node.leaf, node.keys⟩ := by
  unfold parseList at h
  cases hdecode : ChunkList.decode blob with
  | error e =>
      rw [hdecode] at h
      cases h
  | ok l =>
      rw [hdecode] at h
      cases h
      rfl

/-- A provider that has every stored blob at hand. -/
structure Answers {m : Type → Type} [Monad m]
    (store : ChunkKey → Bytes → Prop) (provider : ChunkProvider m) : Prop
    where
  prefetch : ∀ keys, provider.prefetch keys = pure ()
  getChunk : ∀ k b, store k b → provider.getChunk k = pure b

/-- A chunk map in which the newest blob under a key is the only one. -/
theorem answers_map {m : Type → Type} [Monad m] [MonadExceptOf Fault m]
    {chunks : ChunkMap}
    (hget : ∀ k b, chunks.Written k b → chunks.get k = some b) :
    Answers chunks.Written (mapProvider (m := m) chunks) where
  prefetch _ := rfl
  getChunk k b hw := by simp only [mapProvider, hget k b hw]

/-- A provider under a consumer answers as before. -/
theorem Answers.liftState {m : Type → Type} [Monad m] [LawfulMonad m]
    {store : ChunkKey → Bytes → Prop} {provider : ChunkProvider m}
    (h : Answers store provider) (ρ : Type) :
    Answers store (provider.liftState ρ) where
  prefetch keys := by
    funext state
    show provider.prefetch keys >>= _ = _
    rw [h.prefetch, pure_bind]
    rfl
  getChunk k b hw := by
    funext state
    show provider.getChunk k >>= _ = _
    rw [h.getChunk k b hw, pure_bind]
    rfl

/-- The keys of a list that stands for `data`: whatever the monad and the
consumer, the stream yields `data` in order, given depth. -/
theorem reconstructKeys_eq {store : ChunkKey → Bytes → Prop} {leaf : Bool}
    {ks : List ChunkKey} {data : List Bytes}
    (h : Denotes store parseList leaf ks data) :
    ∃ depth, ∀ {m : Type → Type} [Monad m] [LawfulMonad m]
      [MonadExceptOf Fault m] {provider : ChunkProvider m}
      (yield : Bytes → m Unit) (fuel : Nat),
      Answers store provider → depth ≤ fuel →
      reconstructKeys provider yield (reconstructData provider yield fuel)
        leaf ks = forM data yield := by
  induction h with
  | nil leaf =>
      refine ⟨0, ?_⟩
      intro m _ _ _ provider yield fuel _ _
      rfl
  | @leafCons k b ks bs hs _ ih =>
      obtain ⟨depth, hrest⟩ := ih
      refine ⟨depth, ?_⟩
      intro m _ _ _ provider yield fuel hprovider hfuel
      rw [reconstructKeys, hprovider.getChunk k b hs, pure_bind,
        if_pos rfl, hrest yield fuel hprovider hfuel, List.forM_cons]
  | @innerCons k b node ks bs below hs hp _ _ ihb ih =>
      -- the child needs one level of depth more than its own keys
      obtain ⟨childDepth, hchild⟩ := ihb
      obtain ⟨depth, hrest⟩ := ih
      refine ⟨max depth (childDepth + 1), ?_⟩
      intro m _ _ _ provider yield fuel hprovider hfuel
      obtain ⟨fuel, rfl⟩ : ∃ f, fuel = f + 1 := ⟨fuel - 1, by omega⟩
      rw [reconstructKeys, hprovider.getChunk k b hs, pure_bind,
        if_neg Bool.false_ne_true, decode_of_parseList hp]
      dsimp only
      rw [reconstructData, hprovider.prefetch, pure_bind,
        hchild yield fuel hprovider (by omega),
        hrest yield (fuel + 1) hprovider (by omega), List.forM_append]

/-- A root that stands for `data` yields `data` to any consumer. -/
theorem reconstructData_eq {store : ChunkKey → Bytes → Prop}
    {root : ChunkList} {data : List Bytes}
    (h : Denotes store parseList root.isLeaf root.chunks data) :
    ∃ depth, ∀ {m : Type → Type} [Monad m] [LawfulMonad m]
      [MonadExceptOf Fault m] {provider : ChunkProvider m}
      (yield : Bytes → m Unit) (fuel : Nat),
      Answers store provider → depth ≤ fuel →
      reconstructData provider yield fuel root = forM data yield := by
  obtain ⟨depth, hkeys⟩ := reconstructKeys_eq h
  refine ⟨depth + 1, ?_⟩
  intro m _ _ _ provider yield fuel hprovider hfuel
  obtain ⟨fuel, rfl⟩ : ∃ f, fuel = f + 1 := ⟨fuel - 1, by omega⟩
  rw [reconstructData, hprovider.prefetch, pure_bind]
  exact hkeys yield fuel hprovider (by omega)

section Prefetch

variable {m : Type → Type} [Monad m] [LawfulMonad m]
  [MonadExceptOf Fault m] {provider : ChunkProvider m}
  {store : ChunkKey → Bytes → Prop}

/-- The lists below one list's keys. -/
theorem childLists_eq (hprovider : Answers store provider) {n : Nat}
    {ks : List ChunkKey}
    (h : ∀ k ∈ ks, ∃ b node, store k b ∧ parseList b = some node
      ∧ Within store parseList n node.leaf node.keys) :
    ∃ lists, childLists provider ks = pure lists
      ∧ ∀ l ∈ lists, Within store parseList n l.isLeaf l.chunks := by
  induction ks with
  | nil => exact ⟨[], rfl, fun l hl => absurd hl List.not_mem_nil⟩
  | cons k ks ih =>
      obtain ⟨b, node, hs, hp, hwithin⟩ := h k List.mem_cons_self
      obtain ⟨lists, hlists, hall⟩ :=
        ih fun k hk => h k (List.mem_cons_of_mem _ hk)
      refine ⟨⟨node.leaf, node.keys⟩ :: lists, ?_,
        List.forall_mem_cons.mpr ⟨hwithin, hall⟩⟩
      rw [childLists, hprovider.getChunk k b hs, pure_bind,
        decode_of_parseList hp]
      simp only [hlists, pure_bind]

/-- The lists below one level. -/
theorem nextLevel_eq (hprovider : Answers store provider) {n : Nat}
    {lists : List ChunkList}
    (h : ∀ l ∈ lists, Within store parseList (n + 1) l.isLeaf l.chunks) :
    ∃ level, nextLevel provider lists = pure level
      ∧ ∀ l ∈ level, Within store parseList n l.isLeaf l.chunks := by
  induction lists with
  | nil => exact ⟨[], rfl, fun l hl => absurd hl List.not_mem_nil⟩
  | cons chunkList lists ih =>
      obtain ⟨hfirst, hlists⟩ := List.forall_mem_cons.mp h
      obtain ⟨level, hlevel, hall⟩ := ih hlists
      rw [nextLevel]
      split
      case isTrue => exact ⟨level, hlevel, hall⟩
      case isFalse hinner =>
        obtain ⟨children, hchildren, hbelow⟩ := childLists_eq hprovider
          (hfirst (Bool.eq_false_of_not_eq_true hinner))
        refine ⟨children ++ level, ?_,
          List.forall_mem_append.mpr ⟨hbelow, hall⟩⟩
        simp only [hchildren, hlevel, pure_bind]

omit [LawfulMonad m] in
/-- Nothing is below a level of leaves. -/
theorem nextLevel_leaves {lists : List ChunkList}
    (h : ∀ l ∈ lists, l.isLeaf = true) :
    nextLevel provider lists = pure [] := by
  induction lists with
  | nil => rfl
  | cons l lists ih =>
      obtain ⟨hleaf, hrest⟩ := List.forall_mem_cons.mp h
      rw [nextLevel, if_pos hleaf, ih hrest]

/-- Over a provider that has everything, the metadata pass ends and
changes nothing. -/
theorem prefetchMetadataChunks_eq (hprovider : Answers store provider)
    {n fuel : Nat} {lists : List ChunkList}
    (h : ∀ l ∈ lists, Within store parseList n l.isLeaf l.chunks)
    (hfuel : n + 2 ≤ fuel) :
    prefetchMetadataChunks provider fuel lists = pure () := by
  induction n generalizing fuel lists with
  | zero =>
      obtain ⟨fuel, rfl⟩ : ∃ f, fuel = f + 2 := ⟨fuel - 2, by omega⟩
      cases lists with
      | nil => rfl
      | cons l lists =>
          rw [prefetchMetadataChunks, hprovider.prefetch, pure_bind,
            nextLevel_leaves h, pure_bind]
          rfl
  | succ n ih =>
      obtain ⟨fuel, rfl⟩ : ∃ f, fuel = f + 1 := ⟨fuel - 1, by omega⟩
      cases lists with
      | nil => rfl
      | cons l lists =>
          obtain ⟨level, hlevel, hall⟩ := nextLevel_eq hprovider h
          rw [prefetchMetadataChunks, hprovider.prefetch, pure_bind, hlevel,
            pure_bind]
          exact ih hall (by omega)

end Prefetch

/-- A consumer that keeps what it is given. -/
theorem run_forM_keepChunk (data yielded : List Bytes) :
    (forM data keepChunk).run yielded = (.ok (), yielded ++ data) := by
  induction data generalizing yielded with
  | nil =>
      rw [List.append_nil]
      rfl
  | cons chunk data ih =>
      have hkeep : (keepChunk chunk).run yielded
          = (.ok (), yielded ++ [chunk]) := rfl
      rw [List.forM_cons, Faults.run_bind_ok hkeep]
      simpa using ih (yielded ++ [chunk])

/-- A root that stands for `data` reads back as `data`. -/
theorem reconstructFromMap_of_means {chunks : ChunkMap}
    (hget : ∀ k b, chunks.Written k b → chunks.get k = some b)
    {root : ChunkList} {data : List Bytes} (h : Means chunks root data) :
    ∃ depth, ∀ fuel, depth ≤ fuel →
      reconstructFromMap chunks fuel root = (.ok (), data) := by
  obtain ⟨depth, hread⟩ := reconstructData_eq h
  refine ⟨depth, fun fuel hfuel => ?_⟩
  rw [reconstructFromMap, hread keepChunk fuel (answers_map hget) hfuel]
  exact run_forM_keepChunk data []

/-- A consumer that collects bytes. -/
theorem forM_collect {m : Type → Type} [Monad m] [LawfulMonad m]
    (data : List Bytes) (buf : Bytes) :
    (forM data fun chunk => (modify fun buf => buf ++ chunk :
      StateT Bytes m Unit)).run buf = pure ((), buf ++ data.flatten) := by
  induction data generalizing buf with
  | nil =>
      rw [List.flatten_nil, List.append_nil]
      rfl
  | cons chunk data ih =>
      rw [List.forM_cons, List.flatten_cons, ← List.append_assoc, ← ih]
      show pure _ >>= _ = _
      rw [pure_bind]
      rfl

/-- A root that stands for `data` is collected into its bytes. -/
theorem collectData_eq {store : ChunkKey → Bytes → Prop}
    {root : ChunkList} {data : List Bytes}
    (h : Denotes store parseList root.isLeaf root.chunks data) :
    ∃ depth, ∀ {σ : Type}
      {provider : ChunkProvider (ExceptT Fault (StateM σ))} (fuel : Nat),
      Answers store provider → depth ≤ fuel →
      collectData provider fuel root = pure data.flatten := by
  obtain ⟨depth, hread⟩ := reconstructData_eq h
  refine ⟨depth, ?_⟩
  intro σ provider fuel hprovider hfuel
  rw [collectData, hread _ fuel (hprovider.liftState _) hfuel, forM_collect,
    pure_bind]
  rfl

-- ============================================================ the round trip

/-- One byte string chunked into a map, its root passed through
`minimize_chunk_list` where the flag says so. -/
def chunkOne (blake3 : Bytes → ChunkKey) (input : Bytes × Bool)
    (chunks : ChunkMap) : Option (ChunkList × ChunkMap) :=
  match chunkData blake3 input.1 chunks with
  | none => none
  | some (root, chunks) =>
      if input.2 then minimizeChunkList blake3 root chunks
      else some (root, chunks)

/-- Several byte strings chunked in turn into one map. -/
def chunkAll (blake3 : Bytes → ChunkKey) :
    List (Bytes × Bool) → ChunkMap → Option (List ChunkList × ChunkMap)
  | [], chunks => some ([], chunks)
  | input :: inputs, chunks =>
      match chunkOne blake3 input chunks with
      | none => none
      | some (root, chunks) =>
          match chunkAll blake3 inputs chunks with
          | none => none
          | some (roots, chunks) => some (root :: roots, chunks)

/-- No two different blobs a map was written have one hash. Every blob
the chunking hashes is written to its map, so over the map a run leaves
behind this is collision-freedom among the blobs hashed. -/
def CollisionFree (blake3 : Bytes → ChunkKey) (chunks : ChunkMap) : Prop :=
  Set.InjOn blake3 {blob | ∃ key, chunks.Written key blob}

/-- Then every blob is found under its key. -/
theorem CollisionFree.get {chunks : ChunkMap}
    (hfree : CollisionFree blake3 chunks)
    (hg : Grown blake3 WriteMap.empty chunks) :
    ∀ k b, chunks.Written k b → chunks.get k = some b := by
  have hkey : ∀ k b, chunks.Written k b → k = blake3 b := by
    intro k b h
    rcases hg.hashed k b h with h | h
    · exact absurd h (WriteMap.written_empty k b)
    · exact h
  intro k b h
  refine WriteMap.get_of_written (fun w hw => ?_) h
  exact hfree ⟨k, hw⟩ ⟨k, h⟩ ((hkey k w hw).symm.trans (hkey k b h))

/-- One input, chunked and perhaps minimized. -/
theorem chunkOne_spec (blake3 : Bytes → ChunkKey) (input : Bytes × Bool)
    (chunks : ChunkMap) :
    ∃ root chunks', chunkOne blake3 input chunks = some (root, chunks')
      ∧ RootDone blake3 chunks (chunksOf input.1) root chunks' := by
  obtain ⟨data, minimize⟩ := input
  obtain ⟨root, chunks₁, hdata, hroot⟩ :=
    chunkData_spec blake3 data chunks
  unfold chunkOne
  rw [hdata]
  cases minimize with
  | false => exact ⟨root, chunks₁, rfl, hroot⟩
  | true =>
      obtain ⟨root', chunks', hmin, hroot'⟩ :=
        minimizeChunkList_spec hroot.means hroot.len
      exact ⟨root', chunks', hmin, hroot.grown.trans hroot'.grown,
        hroot'.means, hroot'.len⟩

/-- Chunking several inputs never panics, and every root stands for the
chunks of its input over the final map. -/
theorem chunkAll_spec (blake3 : Bytes → ChunkKey)
    (inputs : List (Bytes × Bool)) :
    ∀ chunks : ChunkMap, ∃ roots chunks',
      chunkAll blake3 inputs chunks = some (roots, chunks')
        ∧ Grown blake3 chunks chunks'
        ∧ List.Forall₂ (fun input root =>
            Means chunks' root (chunksOf input.1)) inputs roots := by
  induction inputs with
  | nil =>
      intro chunks
      exact ⟨[], chunks, rfl, Grown.refl _, List.Forall₂.nil⟩
  | cons input inputs ih =>
      intro chunks
      obtain ⟨root, chunks₁, hone, hroot⟩ :=
        chunkOne_spec blake3 input chunks
      obtain ⟨roots, chunks', hrest, hg, hall⟩ := ih chunks₁
      refine ⟨root :: roots, chunks', ?_, hroot.grown.trans hg,
        List.Forall₂.cons (hroot.means.mono hg) hall⟩
      rw [chunkAll, hone]
      dsimp only
      rw [hrest]

/-- The chunk tree round trip. Any byte strings, chunked in turn into one
shared map and optionally minimized, are all read back from the final
map: every key asked for is found, every inner node decodes, and the
chunks yielded concatenate to the input. -/
theorem chunk_tree_round_trip (blake3 : Bytes → ChunkKey)
    (inputs : List (Bytes × Bool)) :
    ∃ roots chunks,
      chunkAll blake3 inputs WriteMap.empty = some (roots, chunks)
        ∧ (CollisionFree blake3 chunks →
          List.Forall₂ (fun input root => ∃ depth, ∀ fuel, depth ≤ fuel →
            (reconstructFromMap chunks fuel root).1 = .ok ()
              ∧ (reconstructFromMap chunks fuel root).2.flatten
                = input.1) inputs roots) := by
  obtain ⟨roots, chunks, hrun, hg, hall⟩ :=
    chunkAll_spec blake3 inputs WriteMap.empty
  refine ⟨roots, chunks, hrun, fun hfree => ?_⟩
  have hget := hfree.get hg
  refine hall.imp fun input root hmeans => ?_
  obtain ⟨depth, hread⟩ := reconstructFromMap_of_means hget hmeans
  refine ⟨depth, fun fuel hfuel => ?_⟩
  rw [hread fuel hfuel]
  exact ⟨rfl, flatten_chunksOf input.1⟩

/-- The tree of one short chunk is one leaf with one key. -/
theorem chunkData_of_short {data : Bytes} (hne : data ≠ [])
    (hlen : data.length ≤ minChunkSize) (chunks : ChunkMap) :
    chunkData blake3 data chunks
      = some ({ isLeaf := true, chunks := [blake3 data] },
          chunks.insert (blake3 data) data) := by
  have hone := not_split_one (blake3 data) (blake3 data) true
  unfold chunkData
  rw [chunksOf_of_short hne hlen]
  simp only [List.foldlM_cons, List.foldlM_nil, addChunk,
    splitLevels_of_not_split hone, Option.bind_eq_bind, Option.bind_some,
    Option.pure_def, finishTree]
  rfl

/-- The map of two short byte strings, which the sample hash keeps
apart. -/
theorem collisionFree_sample : CollisionFree blake3Sample
    ⟨[(blake3Sample [0, 1], [0, 1]), (blake3Sample [0], [0])]⟩ := by
  rintro a ⟨ka, ha⟩ b ⟨kb, hb⟩ hab
  simp only [WriteMap.Written, List.mem_cons, Prod.mk.injEq,
    List.not_mem_nil, or_false] at ha hb
  rcases ha with ⟨-, rfl⟩ | ⟨-, rfl⟩ <;>
    rcases hb with ⟨-, rfl⟩ | ⟨-, rfl⟩
  · rfl
  · exact absurd hab (by decide)
  · exact absurd hab (by decide)
  · rfl

/-- The round trip at two byte strings, the second one minimized. -/
theorem chunk_tree_round_trip_two :
    ∃ roots chunks,
      chunkAll blake3Sample [([0], false), ([0, 1], true)] WriteMap.empty
          = some (roots, chunks)
        ∧ CollisionFree blake3Sample chunks
        ∧ List.Forall₂ (fun input root => ∃ depth, ∀ fuel, depth ≤ fuel →
            (reconstructFromMap chunks fuel root).1 = .ok ()
              ∧ (reconstructFromMap chunks fuel root).2.flatten
                = input.1)
          [([0], false), ([0, 1], true)] roots := by
  obtain ⟨roots, chunks, hrun, hread⟩ := chunk_tree_round_trip
    blake3Sample [([0], false), ([0, 1], true)]
  have heval : chunkAll blake3Sample [([0], false), ([0, 1], true)]
      WriteMap.empty = some
        ([{ isLeaf := true, chunks := [blake3Sample [0]] },
          { isLeaf := true, chunks := [blake3Sample [0, 1]] }],
        ⟨[(blake3Sample [0, 1], [0, 1]), (blake3Sample [0], [0])]⟩) := by
    simp only [chunkAll, chunkOne,
      chunkData_of_short (by decide : ([0] : Bytes) ≠ []) (by decide),
      chunkData_of_short (by decide : ([0, 1] : Bytes) ≠ []) (by decide)]
    rfl
  rw [heval] at hrun
  injection hrun with hrun
  injection hrun with hroots hchunks
  subst hroots hchunks
  exact ⟨_, _, heval, collisionFree_sample, hread collisionFree_sample⟩

end FactoryCacher
