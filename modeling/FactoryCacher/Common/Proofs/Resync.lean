/-
After an edit the chunks are the same again.

The chunker and level 0 of the tree both cut a sequence where a test on
what was read since the last cut says so: the bytes into chunks, the
keys of the chunks into lists. Both are instances of Lib/Segments.lean
(`chunksOf_eq_segments`; `leafLists`, with `LevelZero` for the loop of
`chunk_data`), and what is claimed of them is what is true of any such
cutting: behind a boundary nothing before it matters.

A list that is complete is stored right away. The last, incomplete one
is stored by the finishing pass, but only if the tree has a second
level; it has one as soon as any list was completed (`LevelZero.level`).
-/
import FactoryCacher.Lib.Segments
import FactoryCacher.Common.Proofs.ChunkerSpec
import FactoryCacher.Common.Proofs.ChunkTree

namespace FactoryCacher

open Segments

-- ============================================================ level-0 lists

/-- Whether a level-0 list is complete with these keys. -/
def listEnds (keys : List ChunkKey) : Bool :=
  match keys.getLast? with
  | none => false
  | some hash => isSplitPoint hash keys.length

theorem listEnds_snoc (keys : List ChunkKey) (hash : ChunkKey) :
    listEnds (keys ++ [hash]) = isSplitPoint hash (keys.length + 1) := by
  simp [listEnds]

section Lists

variable (blake3 : Bytes → ChunkKey)

/-- The keys of some chunks cut into lists: the complete ones, and the
keys of the incomplete one. -/
def leafCut (chunks : List Bytes) : List (List ChunkKey) × List ChunkKey :=
  cut listEnds [] (chunks.map blake3)

/-- The lists that stand on level 0 one after another while the loop of
`chunk_data` takes the chunks; the last one only if it has keys. A list
is complete when a fresh one is in its place. -/
def levelZeroLists (state : List ChunkList × ChunkMap) :
    List Bytes → List ChunkList
  | [] =>
      match state.1 with
      | [] => []
      | leaf :: _ => if leaf.chunks.isEmpty then [] else [leaf]
  | chunk :: rest =>
      match state.1, addChunk blake3 state chunk with
      | leaf :: _, some state' =>
          if state'.1.head? = some (ChunkList.newEmpty true) then
            leaf.pushChunk (blake3 chunk) :: levelZeroLists state' rest
          else levelZeroLists state' rest
      | _, _ => []

/-- The level-0 lists that `chunk_data` builds. -/
def builtLists (data : Bytes) (start : ChunkMap) : List ChunkList :=
  levelZeroLists blake3 ([ChunkList.newEmpty true], start) (chunksOf data)

/-- A level-0 list. -/
def leafList (keys : List ChunkKey) : ChunkList :=
  { isLeaf := true, chunks := keys }

/-- The level-0 lists of data. -/
def leafLists (data : Bytes) : List ChunkList :=
  (segments listEnds ((chunksOf data).map blake3)).map leafList

end Lists

variable {blake3 : Bytes → ChunkKey}

/-- One chunk more. -/
theorem leafCut_snoc (chunks : List Bytes) (chunk : Bytes) :
    leafCut blake3 (chunks ++ [chunk])
      = if isSplitPoint (blake3 chunk) ((leafCut blake3 chunks).2.length + 1)
        then ((leafCut blake3 chunks).1
          ++ [(leafCut blake3 chunks).2 ++ [blake3 chunk]], [])
        else ((leafCut blake3 chunks).1,
          (leafCut blake3 chunks).2 ++ [blake3 chunk]) := by
  unfold leafCut
  rw [List.map_append, cut_append, List.map_singleton, cut, cut,
    listEnds_snoc]
  split
  case isTrue => rfl
  case isFalse => simp [cut]

-- ========================================================= what is stored

/-- A blob was put into a map under its hash, and is found there if no
other blob was. -/
structure Stored (blake3 : Bytes → ChunkKey) (chunks : ChunkMap)
    (blob : Bytes) : Prop where
  written : chunks.Written (blake3 blob) blob
  found : (∀ other, chunks.Written (blake3 blob) other → other = blob) →
    chunks.get (blake3 blob) = some blob

theorem Stored.of_written {chunks : ChunkMap} {blob : Bytes}
    (h : chunks.Written (blake3 blob) blob) : Stored blake3 chunks blob :=
  ⟨h, fun honly => WriteMap.get_of_written honly h⟩

/-- A blob that is put in stays. -/
theorem Stored.of_insert {chunks chunks' : ChunkMap} {blob : Bytes}
    (hg : Grown blake3 (chunks.insert (blake3 blob) blob) chunks') :
    Stored blake3 chunks' blob :=
  .of_written (hg.keep _ _ (written_insert_self ..))

theorem Stored.mono {chunks chunks' : ChunkMap} {blob : Bytes}
    (hg : Grown blake3 chunks chunks') (h : Stored blake3 chunks blob) :
    Stored blake3 chunks' blob :=
  .of_written (hg.keep _ _ h.written)

/-- A turn of the split loop at a complete node: it is stored, and the
loop goes on one level up. -/
theorem splitLevels_of_split {hash : ChunkKey} {cur : ChunkList}
    {above levels : List ChunkList} {chunks chunks' : ChunkMap}
    (hsplit : isSplitPoint hash cur.chunks.length = true)
    (h : splitLevels blake3 hash cur above chunks = some (levels, chunks')) :
    ∃ text next rest, cur.encode = some text
      ∧ levels = ChunkList.newEmpty cur.isLeaf :: rest
      ∧ splitLevels blake3 (blake3 text) next above.tail
          (chunks.insert (blake3 text) text) = some (rest, chunks') := by
  rw [splitLevels, dif_pos hsplit] at h
  cases hencode : cur.encode with
  | none =>
      rw [hencode] at h
      cases h
  | some text =>
      simp only [hencode] at h
      cases above with
      | nil =>
          dsimp only at h
          split at h
          case h_1 => cases h
          case h_2 rest mid hrest =>
            cases h
            exact ⟨text, _, rest, rfl, rfl, hrest⟩
      | cons next above =>
          dsimp only at h
          split at h
          case h_1 => cases h
          case h_2 rest mid hrest =>
            cases h
            exact ⟨text, _, rest, rfl, rfl, hrest⟩

theorem splitLevels_grown {hash : ChunkKey} {cur : ChunkList}
    {above levels : List ChunkList} {chunks chunks' : ChunkMap}
    (h : splitLevels blake3 hash cur above chunks = some (levels, chunks')) :
    Grown blake3 chunks chunks' ∧ levels ≠ [] := by
  fun_induction splitLevels blake3 hash cur above chunks
    generalizing levels with
  | case1 => cases h
  | case2 => cases h
  | case3 _ _ chunks _ text _ _ _ _ _ hrest =>
      rename_i ih
      cases h
      exact ⟨(Grown.insert blake3 chunks text).trans (ih hrest).1,
        List.cons_ne_nil _ _⟩
  | case4 => cases h
  | case5 _ _ chunks _ text _ _ _ _ _ _ _ hrest =>
      rename_i ih
      cases h
      exact ⟨(Grown.insert blake3 chunks text).trans (ih hrest).1,
        List.cons_ne_nil _ _⟩
  | case6 =>
      cases h
      exact ⟨Grown.refl _, List.cons_ne_nil _ _⟩

theorem ChunkList.encode_eq_some {l : ChunkList} {text : Bytes}
    (h : l.encode = some text) : text = l.serialized := by
  rw [ChunkList.encode] at h
  split at h
  case isTrue => exact (Option.some.inj h).symm
  case isFalse => cases h

/-- The loop of `chunk_data` after some chunks: level 0 has the keys of
the incomplete list, and the chunks and the complete lists are stored. -/
structure LevelZero (blake3 : Bytes → ChunkKey) (seen : List Bytes)
    (state : List ChunkList × ChunkMap) : Prop where
  level : ∃ above, state.1 = leafList (leafCut blake3 seen).2 :: above
    ∧ ((leafCut blake3 seen).1 ≠ [] → above ≠ [])
  chunks : ∀ chunk ∈ seen, Stored blake3 state.2 chunk
  lists : ∀ keys ∈ (leafCut blake3 seen).1,
    Stored blake3 state.2 (leafList keys).serialized

/-- One chunk more. -/
theorem LevelZero.step {seen : List Bytes} {chunk : Bytes}
    {state state' : List ChunkList × ChunkMap}
    (h : LevelZero blake3 seen state)
    (hadd : addChunk blake3 state chunk = some state') :
    LevelZero blake3 (seen ++ [chunk]) state' := by
  obtain ⟨levels, chunks⟩ := state
  obtain ⟨levels', chunks'⟩ := state'
  obtain ⟨above, hlevels, habove⟩ := h.level
  cases hlevels
  change splitLevels _ _ _ _ _ = _ at hadd
  have hgrown := (Grown.insert blake3 chunks chunk).trans
    (splitLevels_grown hadd).1
  have hchunks : ∀ c ∈ seen ++ [chunk], Stored blake3 chunks' c := by
    intro c hc
    rcases List.mem_append.mp hc with hc | hc
    · exact (h.chunks c hc).mono hgrown
    · rw [List.mem_singleton.mp hc]
      exact .of_insert (splitLevels_grown hadd).1
  have hlen : ((leafList (leafCut blake3 seen).2).pushChunk
      (blake3 chunk)).chunks.length = (leafCut blake3 seen).2.length + 1 :=
    ChunkList.length_pushChunk ..
  by_cases hsplit : isSplitPoint (blake3 chunk)
      ((leafCut blake3 seen).2.length + 1) = true
  · obtain ⟨text, next, rest, htext, hlevels', hrest⟩ :=
      splitLevels_of_split (hlen ▸ hsplit) hadd
    cases hlevels'
    obtain ⟨hrestGrown, hrestNe⟩ := splitLevels_grown hrest
    refine ⟨⟨rest, ?_, fun _ => hrestNe⟩, hchunks, ?_⟩
    · rw [leafCut_snoc, if_pos hsplit]
      rfl
    · rw [leafCut_snoc, if_pos hsplit]
      intro keys hkeys
      rcases List.mem_append.mp hkeys with hkeys | hkeys
      · exact (h.lists keys hkeys).mono hgrown
      · rw [List.mem_singleton.mp hkeys]
        rw [ChunkList.encode_eq_some htext] at hrestGrown
        exact .of_insert hrestGrown
  · rw [splitLevels_of_not_split (hlen ▸ hsplit)] at hadd
    cases hadd
    refine ⟨⟨above, ?_, ?_⟩, hchunks, ?_⟩
    · rw [leafCut_snoc, if_neg hsplit]
      rfl
    · rwa [leafCut_snoc, if_neg hsplit]
    · rw [leafCut_snoc, if_neg hsplit]
      exact fun keys hkeys => (h.lists keys hkeys).mono hgrown

/-- All of them. -/
theorem LevelZero.run {seen todo : List Bytes}
    {state state' : List ChunkList × ChunkMap}
    (h : LevelZero blake3 seen state)
    (hrun : todo.foldlM (addChunk blake3) state = some state') :
    LevelZero blake3 (seen ++ todo) state' := by
  induction todo generalizing seen state with
  | nil =>
      cases hrun
      rwa [List.append_nil]
  | cons chunk todo ih =>
      rw [List.foldlM_cons, Option.bind_eq_bind,
        Option.bind_eq_some_iff] at hrun
      obtain ⟨mid, hadd, hrest⟩ := hrun
      have hall := ih (h.step hadd) hrest
      rwa [List.append_assoc, List.singleton_append] at hall

theorem levelZero_start (chunks : ChunkMap) :
    LevelZero blake3 [] ([ChunkList.newEmpty true], chunks) :=
  ⟨⟨[], rfl, fun h => absurd rfl h⟩, nofun, nofun⟩

/-- The lists of the loop, from where it stands. -/
theorem LevelZero.lists_eq {start : ChunkMap} {seen : List Bytes}
    {state : List ChunkList × ChunkMap} (h : LevelZero blake3 seen state)
    (hinv : LoopInv blake3 start seen state) (todo : List Bytes) :
    levelZeroLists blake3 state todo
      = ((cut listEnds (leafCut blake3 seen).2 (todo.map blake3)).1
        ++ closeLast (cut listEnds (leafCut blake3 seen).2
            (todo.map blake3)).2).map leafList := by
  induction todo generalizing seen state with
  | nil =>
      obtain ⟨above, hlevels, -⟩ := h.level
      simp only [levelZeroLists, hlevels, List.map_nil, cut]
      cases (leafCut blake3 seen).2 <;> rfl
  | cons chunk todo ih =>
      obtain ⟨state', hadd, hinv'⟩ := addChunk_spec hinv chunk
      obtain ⟨above, hlevels, -⟩ := h.level
      have hstep := h.step hadd
      obtain ⟨above', hlevels', -⟩ := hstep.level
      have hrest := ih hstep hinv'
      rw [leafCut_snoc] at hlevels' hrest
      rw [levelZeroLists, hlevels, hadd, List.map_cons, cut, listEnds_snoc]
      by_cases hsplit : isSplitPoint (blake3 chunk)
          ((leafCut blake3 seen).2.length + 1) = true
      · rw [if_pos hsplit] at hlevels' hrest
        have hfresh : state'.1.head? = some (ChunkList.newEmpty true) := by
          rw [hlevels']
          rfl
        rw [if_pos hsplit]
        simp only [if_pos hfresh, hrest]
        rfl
      · rw [if_neg hsplit] at hlevels' hrest
        have hfresh : state'.1.head? ≠ some (ChunkList.newEmpty true) := by
          simp [hlevels', leafList, ChunkList.newEmpty]
        rw [if_neg hsplit]
        simp only [if_neg hfresh, hrest]

/-- The level-0 lists that are built are those of the data. -/
theorem builtLists_eq (data : Bytes) (start : ChunkMap) :
    builtLists blake3 data start = leafLists blake3 data :=
  (levelZero_start start).lists_eq (loopInv_start start) (chunksOf data)

/-- The finishing pass stores level 0, unless it is empty or the
root. -/
theorem finishTree_stores {above : List ChunkList} {cur root : ChunkList}
    {chunks chunks' : ChunkMap}
    (h : finishTree blake3 cur above chunks = some (root, chunks')) :
    Grown blake3 chunks chunks'
      ∧ (above ≠ [] → cur.chunks ≠ [] →
        Stored blake3 chunks' cur.serialized) := by
  induction above generalizing cur chunks with
  | nil =>
      cases h
      exact ⟨Grown.refl _, fun hnil => absurd rfl hnil⟩
  | cons next above ih =>
      rw [finishTree] at h
      split at h
      case isTrue hemp =>
        exact ⟨(ih h).1, fun _ hne =>
          absurd (List.isEmpty_iff.mp hemp) hne⟩
      case isFalse =>
        split at h
        case h_1 => cases h
        case h_2 text htext =>
          have hgrown := (ih h).1
          refine ⟨(Grown.insert blake3 chunks text).trans hgrown, ?_⟩
          intro _ _
          rw [ChunkList.encode_eq_some htext] at hgrown
          exact .of_insert hgrown

/-- What `chunk_data` stores: the chunks, and the level-0 lists if any of
them was completed. -/
theorem chunkData_stores {data : Bytes} {start chunks : ChunkMap}
    {root : ChunkList}
    (h : chunkData blake3 data start = some (root, chunks)) :
    (∀ chunk ∈ chunksOf data, Stored blake3 chunks chunk)
    ∧ ((leafCut blake3 (chunksOf data)).1 ≠ [] →
      ∀ l ∈ leafLists blake3 data, Stored blake3 chunks l.serialized) := by
  unfold chunkData at h
  split at h
  case h_1 leaf above mid hloop =>
    have hzero := (levelZero_start start).run hloop
    rw [List.nil_append] at hzero
    obtain ⟨above', hlevels, habove⟩ := hzero.level
    cases hlevels
    obtain ⟨hgrown, hlast⟩ := finishTree_stores h
    refine ⟨fun chunk hc => (hzero.chunks chunk hc).mono hgrown, ?_⟩
    intro hclosed l hl
    obtain ⟨keys, hkeys, rfl⟩ := List.mem_map.mp hl
    rcases List.mem_append.mp hkeys with hkeys | hkeys
    · exact (hzero.lists keys hkeys).mono hgrown
    · obtain ⟨hne, rfl⟩ := mem_closeLast.mp hkeys
      exact hlast (habove hclosed) hne
  case h_2 => cases h

-- ============================================================ the statement

/-- A chunk ends `n` bytes into the data. -/
def Boundary (data : Bytes) (n : Nat) : Prop :=
  ∃ front, front <+: chunksOf data ∧ front.flatten.length = n

/-- And with it a level-0 list: after the chunks up to there the loop of
`chunk_data` has a fresh list on level 0. -/
def ClosesList (blake3 : Bytes → ChunkKey) (data : Bytes) (n : Nat) :
    Prop :=
  ∃ front above chunks, front <+: chunksOf data ∧ front.flatten.length = n
    ∧ front ≠ []
    ∧ front.foldlM (addChunk blake3)
        ([ChunkList.newEmpty true], WriteMap.empty)
      = some (ChunkList.newEmpty true :: above, chunks)

section Edit

variable {p s : Bytes}

/-- The chunks in front of a boundary and behind it. -/
theorem chunksOf_append (h : Boundary (p ++ s) p.length) :
    chunksOf (p ++ s) = chunksOf p ++ chunksOf s := by
  obtain ⟨front, hfront, hlen⟩ := h
  rw [chunksOf_eq_segments] at hfront
  rw [chunksOf_eq_segments, chunksOf_eq_segments, chunksOf_eq_segments]
  exact segments_append_of_boundary hfront hlen

/-- In front of it some lists are complete, and none is not. -/
theorem leafCut_of_closes (hchunks : chunksOf (p ++ s)
      = chunksOf p ++ chunksOf s)
    (h : ClosesList blake3 (p ++ s) p.length) :
    (leafCut blake3 (chunksOf p)).1 ≠ []
      ∧ (leafCut blake3 (chunksOf p)).2 = [] := by
  obtain ⟨front, above, chunks, hfront, hlen, hne, hrun⟩ := h
  have hnil : [] ∉ chunksOf (p ++ s) := by
    rw [chunksOf_eq_segments]
    exact nil_notMem_segments _
  obtain rfl : front = chunksOf p := by
    refine eq_of_length_flatten hnil hfront ?_ ?_
    · rw [hchunks]
      exact List.prefix_append _ _
    · rw [hlen, flatten_chunksOf]
  obtain ⟨above', hlevels, -⟩ := ((levelZero_start _).run hrun).level
  rw [List.nil_append] at hlevels
  have hopen : (leafCut blake3 (chunksOf p)).2 = [] :=
    (congrArg ChunkList.chunks (List.cons.inj hlevels).1).symm
  refine ⟨fun hclosed => ?_, hopen⟩
  -- its chunks are somewhere
  have hflatten : (leafCut blake3 (chunksOf p)).1.flatten
      ++ (leafCut blake3 (chunksOf p)).2 = [] ++ (chunksOf p).map blake3 :=
    flatten_cut [] _
  rw [hclosed, hopen, List.nil_append] at hflatten
  exact hne (List.map_eq_nil_iff.mp hflatten.symm)

/-- The lists in front of it and behind it. -/
theorem leafLists_append (hchunks : chunksOf (p ++ s)
      = chunksOf p ++ chunksOf s)
    (hclosed : (leafCut blake3 (chunksOf p)).2 = []) :
    leafLists blake3 (p ++ s) = leafLists blake3 p ++ leafLists blake3 s := by
  unfold leafLists
  rw [hchunks, List.map_append, segments_append_of_closed hclosed,
    List.map_append]

/-- What is behind it is stored. -/
theorem chunkData_stores_rest (hchunks : chunksOf (p ++ s)
      = chunksOf p ++ chunksOf s)
    (h : ClosesList blake3 (p ++ s) p.length) (start : ChunkMap) :
    ∃ root chunks, chunkData blake3 (p ++ s) start = some (root, chunks)
      ∧ (∀ chunk ∈ chunksOf s, Stored blake3 chunks chunk)
      ∧ ∀ l ∈ leafLists blake3 s, Stored blake3 chunks l.serialized := by
  obtain ⟨hsome, hclosed⟩ := leafCut_of_closes hchunks h
  obtain ⟨root, chunks, hdata, -⟩ := chunkData_spec blake3 (p ++ s) start
  obtain ⟨hstored, hlists⟩ := chunkData_stores hdata
  refine ⟨root, chunks, hdata, ?_, ?_⟩
  · intro chunk hc
    refine hstored chunk ?_
    rw [hchunks]
    exact List.mem_append_right _ hc
  · intro l hl
    refine hlists ?_ l ?_
    · rw [hchunks, leafCut, List.map_append, cut_append]
      exact List.append_ne_nil_of_left_ne_nil hsome _
    · rw [leafLists_append hchunks hclosed]
      exact List.mem_append_right _ hl

end Edit

/-- Two byte strings with a common rest that both have a chunk boundary
in front of it have the same chunks from there on, those of the rest. If
a level-0 list ends there in both, they have the same level-0 lists from
there on, and every chunk and every level-0 list of the rest is stored
under the same key by both. -/
theorem resynchronisation (blake3 : Bytes → ChunkKey) {p₁ p₂ s : Bytes}
    (h₁ : Boundary (p₁ ++ s) p₁.length) (h₂ : Boundary (p₂ ++ s) p₂.length) :
    chunksOf (p₁ ++ s) = chunksOf p₁ ++ chunksOf s
    ∧ chunksOf (p₂ ++ s) = chunksOf p₂ ++ chunksOf s
    ∧ (ClosesList blake3 (p₁ ++ s) p₁.length →
      ClosesList blake3 (p₂ ++ s) p₂.length →
      ∀ start₁ start₂ start,
        builtLists blake3 (p₁ ++ s) start₁
          = builtLists blake3 p₁ start₁ ++ builtLists blake3 s start
        ∧ builtLists blake3 (p₂ ++ s) start₂
          = builtLists blake3 p₂ start₂ ++ builtLists blake3 s start
        ∧ ∃ root₁ chunks₁ root₂ chunks₂,
          chunkData blake3 (p₁ ++ s) start₁ = some (root₁, chunks₁)
          ∧ chunkData blake3 (p₂ ++ s) start₂ = some (root₂, chunks₂)
          ∧ (∀ chunk ∈ chunksOf s, Stored blake3 chunks₁ chunk
            ∧ Stored blake3 chunks₂ chunk)
          ∧ ∀ l ∈ builtLists blake3 s start,
            Stored blake3 chunks₁ l.serialized
            ∧ Stored blake3 chunks₂ l.serialized) := by
  have hchunks₁ := chunksOf_append h₁
  have hchunks₂ := chunksOf_append h₂
  refine ⟨hchunks₁, hchunks₂, ?_⟩
  intro hcloses₁ hcloses₂ start₁ start₂ start
  simp only [builtLists_eq]
  obtain ⟨root₁, chunks₁, hdata₁, hstored₁, hlists₁⟩ :=
    chunkData_stores_rest hchunks₁ hcloses₁ start₁
  obtain ⟨root₂, chunks₂, hdata₂, hstored₂, hlists₂⟩ :=
    chunkData_stores_rest hchunks₂ hcloses₂ start₂
  refine ⟨?_, ?_, root₁, chunks₁, root₂, chunks₂, hdata₁, hdata₂, ?_, ?_⟩
  · exact leafLists_append hchunks₁ (leafCut_of_closes hchunks₁ hcloses₁).2
  · exact leafLists_append hchunks₂ (leafCut_of_closes hchunks₂ hcloses₂).2
  · exact fun chunk hc => ⟨hstored₁ chunk hc, hstored₂ chunk hc⟩
  · exact fun l hl => ⟨hlists₁ l hl, hlists₂ l hl⟩

-- =================================================== a chunk again and again

/-- Data of the minimum size and two bytes, behind which the hash closes
the chunk, is a chunk wherever it starts. -/
theorem chunksOf_closed (c : UInt8) {b₁ b₂ : UInt8}
    (hopen : (RabinKarpHash.new.update b₁).hash &&& chunkMask ≠ 0)
    (hclosed : ((RabinKarpHash.new.update b₁).update b₂).hash &&& chunkMask
      = 0) (rest : Bytes) :
    chunksOf ((List.replicate minChunkSize c ++ [b₁, b₂]) ++ rest)
      = (List.replicate minChunkSize c ++ [b₁, b₂]) :: chunksOf rest := by
  have hdata : (List.replicate minChunkSize c ++ [b₁, b₂]) ++ rest
      = List.replicate minChunkSize c ++ b₁ :: b₂ :: rest :=
    List.append_assoc ..
  have hne : List.replicate minChunkSize c ++ b₁ :: b₂ :: rest ≠ [] :=
    List.append_ne_nil_of_right_ne_nil _ (List.cons_ne_nil _ _)
  have hmin : min minChunkSize
      (List.replicate minChunkSize c ++ b₁ :: b₂ :: rest).length
        = minChunkSize := by
    rw [List.length_append, List.length_replicate]
    omega
  have hsize : (Chunker.new (List.replicate minChunkSize c
      ++ b₁ :: b₂ :: rest)).scanData.2
        = (List.replicate minChunkSize c ++ [b₁, b₂]).length := by
    rw [Chunker.scanData]
    simp only [Chunker.new]
    rw [hmin, List.drop_left' List.length_replicate, Chunker.scan,
      if_neg (not_or_intro hopen (by decide)), Chunker.scan,
      if_pos (Or.inl hclosed), List.length_append, List.length_replicate]
    rfl
  rw [hdata, chunksOf_cons hne, hsize, ← hdata, List.take_left,
    List.drop_left]

/-- Such a chunk again and again. -/
theorem chunksOf_replicate {u : Bytes}
    (hu : ∀ rest, chunksOf (u ++ rest) = u :: chunksOf rest) (n : Nat)
    (rest : Bytes) :
    chunksOf ((List.replicate n u).flatten ++ rest)
      = List.replicate n u ++ chunksOf rest := by
  induction n with
  | zero => rfl
  | succ n ih =>
      rw [List.replicate_succ, List.flatten_cons, List.append_assoc, hu, ih,
        List.cons_append]

/-- A chunk, wherever it starts: the hash closes it behind its last
byte. -/
def unitChunk : Bytes := List.replicate minChunkSize 17 ++ [17, 241]

/-- Its hash, which is a split point. -/
def unitKey : ChunkKey where
  bytes := [198, 180, 166, 0, 111, 234, 227, 16, 53, 206, 72, 243, 62, 235,
    96, 221, 206, 202, 240, 36, 54, 114, 58, 50, 161, 115, 214, 11, 103, 109,
    17, 233]
  len := rfl

/-- A hash function that is blake3's on this chunk. -/
def blake3Unit (blob : Bytes) : ChunkKey :=
  if blob = unitChunk then unitKey else blake3Sample blob

theorem blake3Unit_unitChunk : blake3Unit unitChunk = unitKey := if_pos rfl

/-- The chunk some times over. -/
def units (n : Nat) : Bytes := (List.replicate n unitChunk).flatten

theorem chunksOf_units (n : Nat) (rest : Bytes) :
    chunksOf (units n ++ rest)
      = List.replicate n unitChunk ++ chunksOf rest :=
  chunksOf_replicate (chunksOf_closed 17 (by decide) (by decide)) n rest

theorem boundary_units (n : Nat) (rest : Bytes) :
    Boundary (units n ++ rest) (units n).length :=
  ⟨List.replicate n unitChunk, chunksOf_units n rest ▸ List.prefix_append _ _,
    rfl⟩

theorem closesList_units {n : Nat} (hn : n ≠ 0) (rest : Bytes)
    (hclosed : (cut listEnds [] (List.replicate n unitKey)).2 = []) :
    ClosesList blake3Unit (units n ++ rest) (units n).length := by
  obtain ⟨⟨levels, chunks⟩, hrun, -⟩ := foldlM_addChunk_spec
    (List.replicate n unitChunk)
    (loopInv_start WriteMap.empty : LoopInv blake3Unit _ _ _)
  obtain ⟨above, hlevels, -⟩ := ((levelZero_start _).run hrun).level
  rw [List.nil_append, leafCut, List.map_replicate, blake3Unit_unitChunk,
    hclosed] at hlevels
  cases hlevels
  exact ⟨List.replicate n unitChunk, above, chunks,
    chunksOf_units n rest ▸ List.prefix_append _ _, rfl,
    mt (List.replicate_eq_nil_iff _).mp hn, hrun⟩

theorem chunksOf_zero : chunksOf [0] = [[0]] :=
  chunksOf_of_short (List.cons_ne_nil _ _) (by decide)

/-- One complete list or two in front of a byte. -/
theorem resynchronisation_units :
    chunksOf (units 32 ++ [0]) = chunksOf (units 32) ++ chunksOf [0]
    ∧ chunksOf (units 64 ++ [0]) = chunksOf (units 64) ++ chunksOf [0]
    ∧ ∃ root₁ chunks₁ root₂ chunks₂,
        chunkData blake3Unit (units 32 ++ [0]) WriteMap.empty
          = some (root₁, chunks₁)
        ∧ chunkData blake3Unit (units 64 ++ [0]) WriteMap.empty
          = some (root₂, chunks₂)
        ∧ (Stored blake3Unit chunks₁ [0] ∧ Stored blake3Unit chunks₂ [0])
        ∧ Stored blake3Unit chunks₁ (leafList [blake3Unit [0]]).serialized
        ∧ Stored blake3Unit chunks₂ (leafList [blake3Unit [0]]).serialized
    := by
  obtain ⟨hchunks₁, hchunks₂, hboth⟩ := resynchronisation blake3Unit
    (boundary_units 32 [0]) (boundary_units 64 [0])
  obtain ⟨-, -, root₁, chunks₁, root₂, chunks₂, hdata₁, hdata₂, hchunks,
      hlists⟩ :=
    hboth (closesList_units (by decide) [0] (by decide +kernel))
      (closesList_units (by decide) [0] (by decide +kernel))
      WriteMap.empty WriteMap.empty WriteMap.empty
  refine ⟨hchunks₁, hchunks₂, root₁, chunks₁, root₂, chunks₂, hdata₁, hdata₂,
    hchunks [0] ?_, hlists (leafList [blake3Unit [0]]) ?_⟩
  · rw [chunksOf_zero]
    exact List.mem_singleton_self _
  · rw [builtLists_eq, leafLists, chunksOf_zero]
    exact List.mem_singleton_self _

end FactoryCacher
