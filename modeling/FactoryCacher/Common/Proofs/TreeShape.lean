/-
The shape of the trees that `chunk_data` builds.

The tree is the one of Lib/LevelTree.lean: the lists of a level have the
keys of the lists of the level below, in order, and the lowest level has
the keys of the chunks. That these are the lists the program built, and
not just some lists, is said of the map: besides what was in it before,
it was given the chunks and these lists, and nothing else (`Gives`).

The loop over the chunks keeps `Growing`: pushing a key makes the lowest
list one longer, and the cascade of splits completes a list and pushes
its key one level up, for as long as there is something to split
(`splitLevels_growing`, by induction on the levels above). What is left
is closed by the finishing pass, which pushes one key more on a list
without looking at its size; up to there the list has at most 511 keys.
-/
import FactoryCacher.Lib.LevelTree
import FactoryCacher.Common.Proofs.ChunkTree

namespace FactoryCacher

variable {blake3 : Bytes → ChunkKey} {start : ChunkMap}

-- ============================================================ lists as nodes

/-- A chunk list as a node: its name is the hash of its text. -/
def listView (blake3 : Bytes → ChunkKey) : NodeView ChunkKey ChunkList where
  leaf := ChunkList.isLeaf
  keys := ChunkList.chunks
  name l := blake3 l.serialized

/-- The texts of the lists of some levels. -/
def texts (levels : List (List ChunkList)) : List Bytes :=
  levels.flatten.map ChunkList.serialized

/-- `start` with some blobs added, each under its hash, and nothing
else. -/
def Gives (blake3 : Bytes → ChunkKey) (start : ChunkMap)
    (blobs : List Bytes) (chunks : ChunkMap) : Prop :=
  ∀ key blob, chunks.Written key blob ↔ start.Written key blob
    ∨ blob ∈ blobs ∧ key = blake3 blob

/-- One blob more. -/
theorem Gives.insert {chunks : ChunkMap} {blobs blobs' : List Bytes}
    (h : Gives blake3 start blobs chunks) (blob : Bytes)
    (hmem : ∀ b, b ∈ blobs' ↔ b = blob ∨ b ∈ blobs) :
    Gives blake3 start blobs' (chunks.insert (blake3 blob) blob) := by
  intro key b
  rw [WriteMap.written_insert, h key b, hmem b]
  constructor
  · intro hwritten
    rcases hwritten with ⟨hkey, hb⟩ | hold | ⟨hb, hkey⟩
    · exact Or.inr ⟨Or.inl hb, by rw [hkey, hb]⟩
    · exact Or.inl hold
    · exact Or.inr ⟨Or.inr hb, hkey⟩
  · intro hgiven
    rcases hgiven with hold | ⟨hb | hb, hkey⟩
    · exact Or.inr (Or.inl hold)
    · exact Or.inl ⟨by rw [hkey, hb], hb⟩
    · exact Or.inr (Or.inr ⟨hb, hkey⟩)

/-- A list more on a level. -/
theorem mem_texts_snoc {before : List Bytes} {done : List ChunkList}
    {dones : List (List ChunkList)} {l : ChunkList} (b : Bytes) :
    b ∈ (before ++ texts [done ++ [l]]) ++ texts dones
      ↔ b = l.serialized ∨ b ∈ before ++ texts (done :: dones) := by
  unfold texts
  simp only [List.flatten_cons, List.flatten_nil, List.append_nil,
    List.map_append, List.mem_append, List.map_cons, List.map_nil,
    List.mem_singleton]
  tauto

/-- A level more. -/
theorem texts_cons (before : List Bytes) (lists : List ChunkList)
    (levels : List (List ChunkList)) :
    before ++ texts (lists :: levels)
      = (before ++ texts [lists]) ++ texts levels := by
  simp [texts]

-- ======================================================= the chunking loop

/-- The tree that grows in `chunk_data`. -/
abbrev GrowingLists (blake3 : Bytes → ChunkKey) :=
  Growing (listView blake3) 32 512

theorem not_split_lt {hash : ChunkKey} {n : Nat}
    (h : ¬ isSplitPoint hash n = true) : n ≤ 511 := by
  have hlt := short_of_not_split h
  simp only [maxChunksInList] at hlt
  omega

theorem le_of_split {hash : ChunkKey} {n : Nat}
    (h : isSplitPoint hash n = true) : 32 ≤ n := by
  by_contra hlt
  have hmin : n < minChunksInList := not_le.1 hlt
  rw [isSplitPoint, if_pos hmin] at h
  cases h

/-- A level added just now. -/
theorem growing_one (key : ChunkKey) :
    GrowingLists blake3 false 511 [key]
      [(ChunkList.newEmpty false).pushChunk key] [[]] := by
  have hlen : ((listView blake3).keys
      ((ChunkList.newEmpty false).pushChunk key)).length ≤ 511 :=
    show 1 ≤ 511 by decide
  exact Growing.top rfl hlen

/-- A list is complete: a fresh one takes its place. -/
theorem growing_split {leaf : Bool} {keys : List ChunkKey} {cur : ChunkList}
    {above rest done : List ChunkList} {dones dones' : List (List ChunkList)}
    (h : GrowingLists blake3 leaf 512 keys (cur :: above) (done :: dones))
    (hmin : 32 ≤ cur.chunks.length)
    (hrest : GrowingLists blake3 false 511
      ((done ++ [cur]).map (listView blake3).name) rest dones') :
    GrowingLists blake3 leaf 511 keys
      (ChunkList.newEmpty cur.isLeaf :: rest) ((done ++ [cur]) :: dones') :=
  have hfresh : (listView blake3).keys (ChunkList.newEmpty cur.isLeaf) = [] :=
    rfl
  h.complete hmin h.cur_spec.1 hfresh hrest

/-- The split loop: the tree goes on growing, over the same keys. -/
theorem splitLevels_growing (above : List ChunkList) :
    ∀ (hash : ChunkKey) (cur : ChunkList) (chunks : ChunkMap) (leaf : Bool)
      (keys : List ChunkKey) (dones : List (List ChunkList))
      (before : List Bytes),
      GrowingLists blake3 leaf 512 keys (cur :: above) dones →
      Gives blake3 start (before ++ texts dones) chunks →
      ∃ levels chunks' dones',
        splitLevels blake3 hash cur above chunks = some (levels, chunks')
        ∧ GrowingLists blake3 leaf 511 keys levels dones'
        ∧ Gives blake3 start (before ++ texts dones') chunks' := by
  induction above with
  | nil =>
      intro hash cur chunks leaf keys dones before hgrow hgives
      obtain ⟨hleaf, hmost⟩ := hgrow.cur_spec
      by_cases hsplit : isSplitPoint hash cur.chunks.length = true
      · obtain ⟨-, rfl⟩ := hgrow.close_top
        have hone := not_split_one (blake3 cur.serialized)
          (blake3 cur.serialized) false
        refine ⟨_, chunks.insert (blake3 cur.serialized) cur.serialized, _,
          ?_, growing_split hgrow (le_of_split hsplit)
            (growing_one (blake3 cur.serialized)), ?_⟩
        · rw [splitLevels, dif_pos hsplit,
            (ChunkList.encode_of_le hmost).1]
          dsimp only
          rw [splitLevels_of_not_split hone]
        · rw [texts_cons]
          exact hgives.insert _ mem_texts_snoc
      · exact ⟨_, _, _, splitLevels_of_not_split hsplit,
          hgrow.narrow (not_split_lt hsplit), hgives⟩
  | cons next above ih =>
      intro hash cur chunks leaf keys dones before hgrow hgives
      obtain ⟨hleaf, hmost⟩ := hgrow.cur_spec
      by_cases hsplit : isSplitPoint hash cur.chunks.length = true
      · obtain ⟨done, upper, rfl, habove⟩ := hgrow.above_spec
        have hnext : GrowingLists blake3 false 512
            ((done ++ [cur]).map (listView blake3).name)
            (next.pushChunk (blake3 cur.serialized) :: above) upper := by
          rw [List.map_append]
          exact habove.push rfl rfl
        obtain ⟨rest, chunks', upper', hloop, hrest, hgives'⟩ :=
          ih (blake3 cur.serialized) _ _ false _ upper
            (before ++ texts [done ++ [cur]]) hnext
            (hgives.insert _ mem_texts_snoc)
        refine ⟨_, chunks', _, ?_,
          growing_split hgrow (le_of_split hsplit) hrest, ?_⟩
        · rw [splitLevels, dif_pos hsplit, (ChunkList.encode_of_le hmost).1]
          dsimp only
          rw [hloop]
        · rw [texts_cons]
          exact hgives'
      · exact ⟨_, _, _, splitLevels_of_not_split hsplit,
          hgrow.narrow (not_split_lt hsplit), hgives⟩

/-- The state of the chunking loop after the chunks in `seen`. -/
def LoopShape (blake3 : Bytes → ChunkKey) (start : ChunkMap)
    (seen : List Bytes) (state : List ChunkList × ChunkMap) : Prop :=
  ∃ dones, GrowingLists blake3 true 511 (seen.map blake3) state.1 dones
    ∧ Gives blake3 start (seen ++ texts dones) state.2

/-- One chunk through the loop. -/
theorem addChunk_shape {seen : List Bytes}
    {state : List ChunkList × ChunkMap}
    (h : LoopShape blake3 start seen state) (chunk : Bytes) :
    ∃ state', addChunk blake3 state chunk = some state'
      ∧ LoopShape blake3 start (seen ++ [chunk]) state' := by
  obtain ⟨levels, chunks⟩ := state
  obtain ⟨dones, hgrow, hgives⟩ := h
  cases levels with
  | nil => exact absurd hgrow.length_pos (Nat.lt_irrefl 0)
  | cons leaf above =>
      have hpush : GrowingLists blake3 true 512
          ((seen ++ [chunk]).map blake3)
          (leaf.pushChunk (blake3 chunk) :: above) dones := by
        rw [List.map_append]
        exact hgrow.push rfl rfl
      have hmem : ∀ b, b ∈ (seen ++ [chunk]) ++ texts dones
          ↔ b = chunk ∨ b ∈ seen ++ texts dones := by
        intro b
        simp only [List.mem_append, List.mem_singleton]
        tauto
      obtain ⟨levels', chunks', dones', hloop, hgrow', hgives'⟩ :=
        splitLevels_growing above (blake3 chunk) _ _ true _ dones
          (seen ++ [chunk]) hpush (hgives.insert chunk hmem)
      exact ⟨(levels', chunks'), hloop, dones', hgrow', hgives'⟩

/-- The loop starts with an empty leaf. -/
theorem loopShape_start (start : ChunkMap) :
    LoopShape blake3 start [] ([ChunkList.newEmpty true], start) := by
  have hlen : ((listView blake3).keys (ChunkList.newEmpty true)).length
      ≤ 511 := Nat.zero_le _
  refine ⟨[[]], Growing.top rfl hlen, ?_⟩
  intro key blob
  simp [texts]

-- ========================================================= finishing a tree

/-- The finishing pass closes the tree, level by level. What it stores
are the lists of all levels but the root's. -/
theorem finishTree_shape (above : List ChunkList) :
    ∀ (cur : ChunkList) (chunks : ChunkMap) (leaf : Bool)
      (keys : List ChunkKey) (dones : List (List ChunkList))
      (before : List Bytes),
      GrowingLists blake3 leaf 512 keys (cur :: above) dones →
      Gives blake3 start (before ++ texts dones) chunks →
      ∃ root chunks' levels,
        finishTree blake3 cur above chunks = some (root, chunks')
        ∧ Growing.Closed (listView blake3) 32 512 leaf keys levels root
        ∧ levels.length = above.length + 1
        ∧ Gives blake3 start (before ++ texts levels.dropLast)
            chunks' := by
  induction above with
  | nil =>
      intro cur chunks leaf keys dones before hgrow hgives
      obtain ⟨hclosed, rfl⟩ := hgrow.close_top
      exact ⟨cur, chunks, [[cur]], rfl, hclosed, rfl, hgives⟩
  | cons next above ih =>
      intro cur chunks leaf keys dones before hgrow hgives
      obtain ⟨done, upper, rfl, habove⟩ := hgrow.above_spec
      by_cases hempty : cur.chunks = []
      · -- the level is finished as it is
        rw [texts_cons] at hgives
        obtain ⟨root, chunks', levels, hfinish, hclosed, hlen, hgives'⟩ :=
          ih next chunks false _ upper (before ++ texts [done])
            (habove.raise (by decide)) hgives
        refine ⟨root, chunks', done :: levels, ?_,
          hgrow.close_empty (List.cons_ne_nil _ _) hempty hclosed, ?_, ?_⟩
        · rw [finishTree, if_pos (List.isEmpty_iff.2 hempty), hfinish]
        · rw [List.length_cons, hlen, List.length_cons]
        · rw [List.dropLast_cons_of_ne_nil
            (List.ne_nil_of_length_eq_add_one hlen), texts_cons]
          exact hgives'
      · have hnext : GrowingLists blake3 false 512
            ((done ++ [cur]).map (listView blake3).name)
            (next.pushChunk (blake3 cur.serialized) :: above) upper := by
          rw [List.map_append]
          exact habove.push rfl rfl
        obtain ⟨root, chunks', levels, hfinish, hclosed, hlen, hgives'⟩ :=
          ih _ _ false _ upper (before ++ texts [done ++ [cur]]) hnext
            (hgives.insert _ mem_texts_snoc)
        refine ⟨root, chunks', (done ++ [cur]) :: levels, ?_,
          hgrow.close_level hclosed, ?_, ?_⟩
        · have hne : ¬ cur.chunks.isEmpty = true := by
            rwa [List.isEmpty_iff]
          rw [finishTree, if_neg hne,
            (ChunkList.encode_of_le hgrow.cur_spec.2).1]
          exact hfinish
        · rw [List.length_cons, hlen, List.length_cons]
        · rw [List.dropLast_cons_of_ne_nil
            (List.ne_nil_of_length_eq_add_one hlen), texts_cons]
          exact hgives'

/-- `chunk_data` builds a finished tree over the hashes of the chunks,
and stores the chunks and its lists. -/
theorem chunkData_closed (blake3 : Bytes → ChunkKey) (data : Bytes)
    (start : ChunkMap) :
    ∃ root chunks levels, chunkData blake3 data start = some (root, chunks)
      ∧ Growing.Closed (listView blake3) 32 512 true
          ((chunksOf data).map blake3) levels root
      ∧ Gives blake3 start (chunksOf data ++ texts levels.dropLast) chunks
      ∧ (levels.length ≠ 1 →
          32 ^ (levels.length - 1) ≤ (chunksOf data).length) := by
  obtain ⟨⟨unfinished, mid⟩, hloop, dones, hgrow, hgives⟩ :=
    Faults.foldlM_history (LoopShape blake3 start)
      (fun _ _ chunk h => addChunk_shape h chunk) (chunksOf data)
      (loopShape_start start)
  rw [List.nil_append] at hgrow hgives
  dsimp only at hgrow hgives
  cases unfinished with
  | nil => exact absurd hgrow.length_pos (Nat.lt_irrefl 0)
  | cons leaf above =>
      obtain ⟨root, chunks, levels, hfinish, hclosed, hlen, hstored⟩ :=
        finishTree_shape above leaf mid true _ dones (chunksOf data)
          (hgrow.raise (by decide)) hgives
      refine ⟨root, chunks, levels, ?_, hclosed, hstored, ?_⟩
      · unfold chunkData
        rw [hloop]
        exact hfinish
      · intro hlevels
        have hpow := hgrow.pow_le fun hone => absurd (hlen.trans hone) hlevels
        rwa [List.length_map, List.length_cons, ← hlen] at hpow

/-- The shape of the tree that `chunk_data` builds. Its levels are given
from the lists over the data chunks up to the root; `chunk_data` returns,
so its loop over the levels has ended after every chunk, and what it
stored are the chunks of the data and the lists of the tree below the
root, each under its hash.

The lists over data chunks are all on the lowest level, and only they
have the flag. No list has more than 512 keys, and none but the last of
a level fewer than 32. Only for empty data is the root empty, and there
are at least `32 ^ t` data chunks where there are `t` levels below the
root. -/
theorem chunk_tree_shape (blake3 : Bytes → ChunkKey) (data : Bytes)
    (start : ChunkMap) :
    ∃ root chunks levels, chunkData blake3 data start = some (root, chunks)
      ∧ LevelTree (listView blake3) ((chunksOf data).map blake3) levels root
      ∧ Gives blake3 start (chunksOf data ++ texts levels.dropLast) chunks
      ∧ (∀ i lists, levels[i]? = some lists →
          ∀ l ∈ lists, (l.isLeaf = true ↔ i = 0))
      ∧ (∀ lists ∈ levels, ∀ l ∈ lists, l.chunks.length ≤ 512)
      ∧ (∀ lists ∈ levels, ∀ l ∈ lists.dropLast, 32 ≤ l.chunks.length)
      ∧ (data ≠ [] → root.chunks ≠ [])
      ∧ (∀ t, levels.length = t + 1 → 1 ≤ t →
          32 ^ t ≤ (chunksOf data).length) := by
  obtain ⟨root, chunks, levels, hrun, hclosed, hgives, hpow⟩ :=
    chunkData_closed blake3 data start
  refine ⟨root, chunks, levels, hrun, hclosed.tree, hgives, ?_,
    hclosed.shaped.most, hclosed.shaped.least, ?_, ?_⟩
  · intro i lists hi l hl
    have hflag : l.isLeaf = (true && i == 0) :=
      hclosed.shaped.flags i lists hi l hl
    simp [hflag]
  · intro hne
    refine hclosed.nonempty ?_
    rw [ne_eq, List.map_eq_nil_iff]
    exact chunksOf_ne_nil hne
  · intro t ht hpos
    have hheight := hpow (by omega)
    rwa [ht, Nat.add_sub_cancel] at hheight

end FactoryCacher
