/-
Reading chunk trees from a provider that has them.

Common/Proofs/ReadLog.lean says what a reader did if it ended. This file
says that it ends, over a provider that hands out every chunk of a store
that was asked for (`Supplies`), and that it yields what the list stands
for. The provider may wait, change a state and be used by others; all of
that is in the logic, which is any logic of Lib/Faults.lean. With one
that is about programs that return, the rules are about readers that
return.

The induction is on what the list stands for (`Denotes`), which also
bounds the depth of the recursion (`supplied_data`), and for
`prefetch_metadata_chunks` on the number of levels (`supplied_metadata`).
What was asked for only grows; at the end a reader has asked for more
than at its beginning, and what that is nobody needs to know (`AskedMore`).
-/
import FactoryCacher.Lib.Faults
import FactoryCacher.Common.Proofs.ChunkTree

namespace FactoryCacher

-- ================================================================= the calls

section Calls

variable {τ : Type} {m : Type → Type} [Monad m] [MonadExceptOf Fault m]

/-- A provider that has the chunks of a store. `I asked` is what holds
once the keys in `asked` were prefetched. -/
structure Supplies (L : Logic Fault τ m) (provider : ChunkProvider m)
    (store : ChunkKey → Bytes → Prop) (I : (ChunkKey → Prop) → τ → Prop)
    (err : Fault → Prop) : Prop where
  prefetch : ∀ asked keys, (∀ k ∈ keys, ∃ b, store k b) →
    L.Meets (I asked) (provider.prefetch keys)
      (fun _ => I fun k => asked k ∨ k ∈ keys) err
  getChunk : ∀ asked k b, asked k → store k b →
    L.Meets (I asked) (provider.getChunk k)
      (fun chunk t => chunk = b ∧ I asked t) err

/-- The same under a consumer; `J out` is what holds once the chunks in
`out` were handed on. -/
structure Feeds (L : Logic Fault τ m) (provider : ChunkProvider m)
    (yield : Bytes → m Unit) (store : ChunkKey → Bytes → Prop)
    (J : List Bytes → (ChunkKey → Prop) → τ → Prop) (err : Fault → Prop) :
    Prop where
  supplies : ∀ out, Supplies L provider store (J out) err
  yield : ∀ out asked chunk, L.Meets (J out asked) (yield chunk)
    (fun _ => J (out ++ [chunk]) asked) err

/-- At the end something more was asked for. -/
def AskedMore (I : (ChunkKey → Prop) → τ → Prop) (asked : ChunkKey → Prop)
    (t : τ) : Prop :=
  ∃ asked', (∀ k, asked k → asked' k) ∧ I asked' t

theorem AskedMore.trans {I : (ChunkKey → Prop) → τ → Prop}
    {asked asked' : ChunkKey → Prop} (hle : ∀ k, asked k → asked' k) {t : τ}
    (h : AskedMore I asked' t) : AskedMore I asked t := by
  obtain ⟨asked'', hmore, hI⟩ := h
  exact ⟨asked'', fun k hk => hmore k (hle k hk), hI⟩

end Calls

-- ========================================================== reading the data

/-- The keys of a list that stands for `data`: all of it is handed on, in
order. -/
theorem supplied_keys {store : ChunkKey → Bytes → Prop} {leaf : Bool}
    {ks : List ChunkKey} {data : List Bytes}
    (h : Denotes store parseList leaf ks data) :
    ∃ depth, ∀ {τ : Type} {m : Type → Type} [Monad m]
      [MonadExceptOf Fault m] {L : Logic Fault τ m}
      {provider : ChunkProvider m} {yield : Bytes → m Unit}
      {J : List Bytes → (ChunkKey → Prop) → τ → Prop} {err : Fault → Prop}
      (fuel : Nat), Feeds L provider yield store J err → depth ≤ fuel →
      ∀ out asked, (∀ k ∈ ks, asked k) →
      L.Meets (J out asked)
        (reconstructKeys provider yield (reconstructData provider yield fuel)
          leaf ks) (fun _ => AskedMore (J (out ++ data)) asked) err := by
  induction h with
  | nil leaf =>
      refine ⟨0, ?_⟩
      intro τ m _ _ L provider yield J err fuel _ _ out asked _
      apply L.pure
      intro t ht
      rw [List.append_nil]
      exact ⟨asked, fun _ => id, ht⟩
  | @leafCons k b ks bs hs _ ih =>
      obtain ⟨depth, hrest⟩ := ih
      refine ⟨depth, ?_⟩
      intro τ m _ _ L provider yield J err fuel hfeeds hfuel out asked hasked
      obtain ⟨hkey, hkeys⟩ := List.forall_mem_cons.mp hasked
      apply L.bind ((hfeeds.supplies out).getChunk asked k b hkey hs)
      intro chunk
      refine L.assume fun heq => ?_
      subst heq
      rw [if_pos rfl]
      apply L.bind (hfeeds.yield out asked chunk)
      intro _
      have hread := hrest fuel hfeeds hfuel (out ++ [chunk]) asked hkeys
      rwa [List.append_assoc] at hread
  | @innerCons k b node ks bs below hs hp hb _ ihb ih =>
      -- the child needs one level of depth more than its own keys
      obtain ⟨childDepth, hchild⟩ := ihb
      obtain ⟨depth, hrest⟩ := ih
      obtain ⟨n, hstored⟩ := hb.storedBelow
      refine ⟨max depth (childDepth + 1), ?_⟩
      intro τ m _ _ L provider yield J err fuel hfeeds hfuel out asked hasked
      obtain ⟨fuel, rfl⟩ : ∃ f, fuel = f + 1 := ⟨fuel - 1, by omega⟩
      obtain ⟨hkey, hkeys⟩ := List.forall_mem_cons.mp hasked
      apply L.bind ((hfeeds.supplies out).getChunk asked k b hkey hs)
      intro chunk
      refine L.assume fun heq => ?_
      subst heq
      simp only [Bool.false_eq_true, if_false, decode_of_parseList hp]
      have hdescend : L.Meets (J out asked)
          (reconstructData provider yield (fuel + 1)
            ⟨node.leaf, node.keys⟩)
          (fun _ => AskedMore (J (out ++ below)) asked) err := by
        apply L.bind ((hfeeds.supplies out).prefetch asked node.keys
          hstored.stored)
        intro _
        exact L.mono (fun _ ht => ht)
          (fun _ _ ht => ht.trans fun _ => Or.inl)
          (hchild fuel hfeeds (by omega) out _ fun k hk => Or.inr hk)
      apply L.bind hdescend
      intro _
      -- what the child asked for is fixed before the rest is read
      refine L.cases fun asked' => L.assume fun hle => ?_
      have hread := hrest (fuel + 1) hfeeds (by omega) (out ++ below) asked'
        fun k hk => hle k (hkeys k hk)
      rw [List.append_assoc] at hread
      exact L.mono (fun _ ht => ht) (fun _ _ ht => ht.trans hle) hread

/-- `reconstruct_data` on a list that stands for `data`. -/
theorem supplied_data {store : ChunkKey → Bytes → Prop} {root : ChunkList}
    {data : List Bytes}
    (h : Denotes store parseList root.isLeaf root.chunks data) :
    ∃ depth, ∀ {τ : Type} {m : Type → Type} [Monad m]
      [MonadExceptOf Fault m] {L : Logic Fault τ m}
      {provider : ChunkProvider m} {yield : Bytes → m Unit}
      {J : List Bytes → (ChunkKey → Prop) → τ → Prop} {err : Fault → Prop}
      (fuel : Nat), Feeds L provider yield store J err → depth ≤ fuel →
      ∀ out asked,
      L.Meets (J out asked) (reconstructData provider yield fuel root)
        (fun _ => AskedMore (J (out ++ data)) asked) err := by
  obtain ⟨depth, hkeys⟩ := supplied_keys h
  obtain ⟨n, hstored⟩ := h.storedBelow
  refine ⟨depth + 1, ?_⟩
  intro τ m _ _ L provider yield J err fuel hfeeds hfuel out asked
  obtain ⟨fuel, rfl⟩ : ∃ f, fuel = f + 1 := ⟨fuel - 1, by omega⟩
  apply L.bind ((hfeeds.supplies out).prefetch asked root.chunks
    hstored.stored)
  intro _
  exact L.mono (fun _ ht => ht) (fun _ _ ht => ht.trans fun _ => Or.inl)
    (hkeys fuel hfeeds (by omega) out _ fun k hk => Or.inr hk)

-- ============================================================ metadata first

section Metadata

variable {τ : Type} {m : Type → Type} [Monad m] [MonadExceptOf Fault m]
  {L : Logic Fault τ m} {provider : ChunkProvider m}
  {store : ChunkKey → Bytes → Prop} {I : (ChunkKey → Prop) → τ → Prop}
  {err : Fault → Prop}

/-- What is below a list is stored, for as many levels as there are. -/
def ListStored (store : ChunkKey → Bytes → Prop) (n : Nat)
    (list : ChunkList) : Prop :=
  StoredBelow store parseList n list.isLeaf list.chunks

/-- The lists below one list's keys. -/
theorem Supplies.children (hsup : Supplies L provider store I err) {n : Nat}
    {ks : List ChunkKey}
    (h : ∀ k ∈ ks, ∃ b node, store k b ∧ parseList b = some node
      ∧ StoredBelow store parseList n node.leaf node.keys)
    (asked : ChunkKey → Prop) (hasked : ∀ k ∈ ks, asked k) :
    L.Meets (I asked) (childLists provider ks)
      (fun lists t => (∀ l ∈ lists, ListStored store n l) ∧ I asked t)
      err := by
  induction ks with
  | nil =>
      apply L.pure
      intro t ht
      exact ⟨List.forall_mem_nil _, ht⟩
  | cons k ks ih =>
      obtain ⟨⟨b, node, hs, hp, hbelow⟩, hrest⟩ := List.forall_mem_cons.mp h
      obtain ⟨hkey, hkeys⟩ := List.forall_mem_cons.mp hasked
      apply L.bind (hsup.getChunk asked k b hkey hs)
      intro chunk
      refine L.assume fun heq => ?_
      subst heq
      simp only [decode_of_parseList hp]
      apply L.bind (ih hrest hkeys)
      intro lists
      refine L.assume fun hlists => ?_
      apply L.pure
      intro t ht
      exact ⟨List.forall_mem_cons.mpr ⟨hbelow, hlists⟩, ht⟩

/-- The lists below one level. -/
theorem Supplies.level (hsup : Supplies L provider store I err) {n : Nat}
    {lists : List ChunkList} (h : ∀ l ∈ lists, ListStored store (n + 1) l)
    (asked : ChunkKey → Prop)
    (hasked : ∀ l ∈ lists, ∀ k ∈ l.chunks, asked k) :
    L.Meets (I asked) (nextLevel provider lists)
      (fun level t => (∀ l ∈ level, ListStored store n l) ∧ I asked t)
      err := by
  induction lists with
  | nil =>
      apply L.pure
      intro t ht
      exact ⟨List.forall_mem_nil _, ht⟩
  | cons list lists ih =>
      obtain ⟨hlist, hlists⟩ := List.forall_mem_cons.mp h
      obtain ⟨hkeys, hrest⟩ := List.forall_mem_cons.mp hasked
      rw [nextLevel]
      split
      case isTrue => exact ih hlists hrest
      case isFalse hinner =>
        have hbelow : ∀ k ∈ list.chunks, ∃ b node, store k b
            ∧ parseList b = some node
            ∧ StoredBelow store parseList n node.leaf node.keys := by
          intro k hk
          obtain ⟨b, hs, hnode⟩ := hlist k hk
          obtain ⟨node, hp, hb⟩ :=
            hnode (Bool.eq_false_of_not_eq_true hinner)
          exact ⟨b, node, hs, hp, hb⟩
        apply L.bind (hsup.children hbelow asked hkeys)
        intro children
        refine L.assume fun hchildren => ?_
        apply L.bind (ih hlists hrest)
        intro level
        refine L.assume fun hlevel => ?_
        apply L.pure
        intro t ht
        exact ⟨List.forall_mem_append.mpr ⟨hchildren, hlevel⟩, ht⟩

/-- `prefetch_metadata_chunks`, over `n` levels. -/
theorem supplied_metadata (hsup : Supplies L provider store I err)
    {n fuel : Nat} {lists : List ChunkList}
    (h : ∀ l ∈ lists, ListStored store n l) (hfuel : n + 2 ≤ fuel)
    (asked : ChunkKey → Prop) :
    L.Meets (I asked) (prefetchMetadataChunks provider fuel lists)
      (fun _ => AskedMore I asked) err := by
  -- the keys of a whole level are stored
  have hstored : ∀ {n : Nat} {lists : List ChunkList},
      (∀ l ∈ lists, ListStored store n l) →
      ∀ k ∈ lists.flatMap ChunkList.chunks, ∃ b, store k b := by
    intro n lists h k hk
    obtain ⟨l, hl, hk⟩ := List.mem_flatMap.mp hk
    exact (h l hl).stored k hk
  induction n generalizing fuel lists asked with
  | zero =>
      obtain ⟨fuel, rfl⟩ : ∃ f, fuel = f + 2 := ⟨fuel - 2, by omega⟩
      cases lists with
      | nil => exact L.pure fun t ht => ⟨asked, fun _ => id, ht⟩
      | cons list lists =>
          have hleaves : ∀ l ∈ list :: lists, l.isLeaf = true :=
            fun l hl => (h l hl).1
          rw [prefetchMetadataChunks, nextLevel_leaves hleaves]
          apply L.bind (hsup.prefetch asked _ (hstored h))
          intro _
          have hempty : L.Meets (I fun k => asked k
              ∨ k ∈ (list :: lists).flatMap ChunkList.chunks)
              (pure [] : m (List ChunkList))
              (fun level t => level = [] ∧ I (fun k => asked k
                ∨ k ∈ (list :: lists).flatMap ChunkList.chunks) t) err :=
            L.pure fun t ht => ⟨rfl, ht⟩
          apply L.bind hempty
          intro level
          refine L.assume fun hlevel => ?_
          subst hlevel
          exact L.pure fun t ht => ⟨_, fun _ => Or.inl, ht⟩
  | succ n ih =>
      obtain ⟨fuel, rfl⟩ : ∃ f, fuel = f + 1 := ⟨fuel - 1, by omega⟩
      cases lists with
      | nil => exact L.pure fun t ht => ⟨asked, fun _ => id, ht⟩
      | cons list lists =>
          rw [prefetchMetadataChunks]
          apply L.bind (hsup.prefetch asked _ (hstored h))
          intro _
          apply L.bind (hsup.level h _ fun l hl k hk =>
            Or.inr (List.mem_flatMap.mpr ⟨l, hl, hk⟩))
          intro level
          refine L.assume fun hlevel => ?_
          exact L.mono (fun _ ht => ht)
            (fun _ _ ht => ht.trans fun _ => Or.inl)
            (ih hlevel (by omega) _)

end Metadata

-- ============================================================= into a buffer

/-- What holds of a buffer and a state while a list is collected. -/
def Collecting {τ : Type} (I : (ChunkKey → Prop) → τ → Prop)
    (out : List Bytes) (asked : ChunkKey → Prop) (t : Bytes × τ) : Prop :=
  t.1 = out.flatten ∧ I asked t.2

section Collect

variable {σ τ : Type} {L : Logic Fault τ (ExceptT Fault (StateM σ))}
  {provider : ChunkProvider (ExceptT Fault (StateM σ))}
  {store : ChunkKey → Bytes → Prop} {I : (ChunkKey → Prop) → τ → Prop}
  {err : Fault → Prop}

/-- A provider under the buffer of `collectData`. -/
theorem Supplies.feeds (hsup : Supplies L provider store I err) :
    Feeds (L.buffered Bytes) (provider.liftState Bytes)
      (fun chunk => modify fun buf => buf ++ chunk) store (Collecting I)
      err where
  supplies out := by
    constructor
    case prefetch =>
      intro asked keys hstored
      apply L.buffered_lift
      intro buf
      show L.Meets (fun t => buf = out.flatten ∧ I asked t) _ _ _
      exact L.frame (hsup.prefetch asked keys hstored)
    case getChunk =>
      intro asked k b hasked hs
      apply L.buffered_lift
      intro buf
      show L.Meets (fun t => buf = out.flatten ∧ I asked t) _ _ _
      refine L.mono (fun _ ht => ht) ?_
        (L.frame (hsup.getChunk asked k b hasked hs))
      intro chunk t ht
      exact ⟨ht.2.1, ht.1, ht.2.2⟩
  yield out asked chunk := by
    show ∀ buf, L.Meets _ _ _ _
    intro buf
    apply L.pure
    intro t ht
    refine ⟨?_, ht.2⟩
    show buf ++ chunk = (out ++ [chunk]).flatten
    rw [show buf = _ from ht.1, List.flatten_append,
      List.flatten_singleton]

/-- A list that stands for `data` is collected. -/
theorem supplied_collect {root : ChunkList} {data : List Bytes}
    (h : Denotes store parseList root.isLeaf root.chunks data) :
    ∃ depth, ∀ fuel, depth ≤ fuel →
      ∀ {σ τ : Type} {L : Logic Fault τ (ExceptT Fault (StateM σ))}
        {provider : ChunkProvider (ExceptT Fault (StateM σ))}
        {I : (ChunkKey → Prop) → τ → Prop} {err : Fault → Prop},
      Supplies L provider store I err → ∀ asked,
      L.Meets (I asked) (collectData provider fuel root)
        (fun buf t => buf = data.flatten ∧ AskedMore I asked t) err := by
  obtain ⟨depth, hdata⟩ := supplied_data h
  refine ⟨depth, ?_⟩
  intro fuel hfuel σ τ L provider I err hsup asked
  have hread := hdata fuel hsup.feeds hfuel [] asked []
  have hbuffer : L.Meets (I asked)
      ((reconstructData (provider.liftState Bytes)
        (fun chunk => modify fun buf => buf ++ chunk) fuel root).run [])
      (fun r t => r.2 = data.flatten ∧ AskedMore I asked t) err := by
    refine L.mono (fun t ht => ⟨rfl, ht⟩) ?_ hread
    intro r t ht
    obtain ⟨asked', hle, hbuf, hI⟩ := ht
    exact ⟨hbuf, asked', hle, hI⟩
  apply L.bind hbuffer
  intro r
  exact L.pure fun t ht => ht

end Collect

-- ========================================================= one after another

/-- Whatever was asked for. -/
def Idle {τ : Type} (I : (ChunkKey → Prop) → τ → Prop) (t : τ) : Prop :=
  ∃ asked, I asked t

/-- Several lists, each of which stands for its data, are read one after
another, lists of chunks first. -/
theorem supplied_lists {store : ChunkKey → Bytes → Prop}
    {lists : List (ChunkList × List Bytes)}
    (h : ∀ l ∈ lists, Denotes store parseList l.1.isLeaf l.1.chunks l.2) :
    ∃ depth, ∀ fuel, depth ≤ fuel →
      ∀ {σ τ : Type} {L : Logic Fault τ (ExceptT Fault (StateM σ))}
        {provider : ChunkProvider (ExceptT Fault (StateM σ))}
        {I : (ChunkKey → Prop) → τ → Prop} {err : Fault → Prop},
      Supplies L provider store I err →
      L.Meets (Idle I)
        (prefetchMetadataChunks provider fuel (lists.map Prod.fst))
        (fun _ => Idle I) err
      ∧ ∀ l ∈ lists, L.Meets (Idle I) (collectData provider fuel l.1)
        (fun buf t => buf = l.2.flatten ∧ Idle I t) err := by
  -- one bound for all of them
  have hall : ∃ depth, ∀ l ∈ lists, ListStored store depth l.1
      ∧ ∀ fuel, depth ≤ fuel →
        ∀ {σ τ : Type} {L : Logic Fault τ (ExceptT Fault (StateM σ))}
          {provider : ChunkProvider (ExceptT Fault (StateM σ))}
          {I : (ChunkKey → Prop) → τ → Prop} {err : Fault → Prop},
        Supplies L provider store I err → ∀ asked,
        L.Meets (I asked) (collectData provider fuel l.1)
          (fun buf t => buf = l.2.flatten ∧ AskedMore I asked t) err := by
    induction lists with
    | nil => exact ⟨0, List.forall_mem_nil _⟩
    | cons l lists ih =>
        obtain ⟨hl, hlists⟩ := List.forall_mem_cons.mp h
        obtain ⟨rest, hrest⟩ := ih hlists
        obtain ⟨n, hstored⟩ := hl.storedBelow
        obtain ⟨depth, hread⟩ := supplied_collect hl
        refine ⟨max rest (max n depth), List.forall_mem_cons.mpr ⟨?_, ?_⟩⟩
        · exact ⟨hstored.mono (by omega), fun fuel hfuel =>
            hread fuel (by omega)⟩
        · intro l' hl'
          obtain ⟨hstored', hread'⟩ := hrest l' hl'
          exact ⟨hstored'.mono (by omega), fun fuel hfuel =>
            hread' fuel (by omega)⟩
  obtain ⟨depth, hdepth⟩ := hall
  refine ⟨depth + 2, ?_⟩
  intro fuel hfuel σ τ L provider I err hsup
  constructor
  · refine L.cases fun asked => ?_
    have hlevels : ∀ l ∈ lists.map Prod.fst, ListStored store depth l :=
      List.forall_mem_map.mpr fun l hl => (hdepth l hl).1
    exact L.mono (fun _ ht => ht) (fun _ _ ht => ⟨ht.choose, ht.choose_spec.2⟩)
      (supplied_metadata hsup hlevels hfuel asked)
  · intro l hl
    refine L.cases fun asked => ?_
    refine L.mono (fun _ ht => ht) ?_
      ((hdepth l hl).2 fuel (by omega) hsup asked)
    intro buf t ht
    obtain ⟨hbuf, asked', -, hI⟩ := ht
    exact ⟨hbuf, asked', hI⟩

end FactoryCacher
