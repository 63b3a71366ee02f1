/-
What a reader of chunk trees does: a rule for `reconstruct_data` and
`prefetch_metadata_chunks` over any provider, in any monad with a logic.

A `ReadLog` is what a reader has asked for, been given and handed on so
far. It is kept by the proof, not by the program: an invariant `I log`
relates it to the program's state, and `Reads` says what a call does to
the log. The readers ask for a key only after they prefetched it, which
is why `Reads.getChunk` may assume it.

The rule (`Reads.data`, by induction on the depth of the recursion, with
`Reads.keys` for one list): from `I log` the reader ends with `I log'`,
where `log'` extends `log`, what was handed on in between stands for the
list over what was given, and the list's keys were asked for. Faults are
those of the calls, a child list that does not decode, and the model's
recursion bound.
-/
import FactoryCacher.Lib.Faults
import FactoryCacher.Common.Proofs.ChunkTree

namespace FactoryCacher

-- ================================================================== the log

structure ReadLog where
  asked : ChunkKey → Prop
  given : ChunkKey → Bytes → Prop
  consumed : List Bytes

namespace ReadLog

/-- Nothing has happened. -/
def start : ReadLog where
  asked _ := False
  given _ _ := False
  consumed := []

def ask (log : ReadLog) (keys : List ChunkKey) : ReadLog :=
  { log with asked := fun k => log.asked k ∨ k ∈ keys }

def give (log : ReadLog) (key : ChunkKey) (chunk : Bytes) : ReadLog :=
  { log with given := fun k b => log.given k b ∨ (k = key ∧ b = chunk) }

def consume (log : ReadLog) (chunk : Bytes) : ReadLog :=
  { log with consumed := log.consumed ++ [chunk] }

/-- From `log` to `log'`, with `data` handed on in between. -/
structure Extends (log log' : ReadLog) (data : List Bytes) : Prop where
  asked : ∀ k, log.asked k → log'.asked k
  given : ∀ k b, log.given k b → log'.given k b
  consumed : log'.consumed = log.consumed ++ data

theorem Extends.refl (log : ReadLog) : log.Extends log [] :=
  ⟨fun _ => id, fun _ _ => id, (List.append_nil _).symm⟩

theorem Extends.trans {a b c : ReadLog} {data more : List Bytes}
    (h : a.Extends b data) (h' : b.Extends c more) :
    a.Extends c (data ++ more) := by
  refine ⟨fun k hk => h'.asked k (h.asked k hk),
    fun k b hk => h'.given k b (h.given k b hk), ?_⟩
  rw [h'.consumed, h.consumed, List.append_assoc]

theorem extends_ask (log : ReadLog) (keys : List ChunkKey) :
    log.Extends (log.ask keys) [] :=
  ⟨fun _ => Or.inl, fun _ _ => id, (List.append_nil _).symm⟩

theorem extends_give (log : ReadLog) (key : ChunkKey) (chunk : Bytes) :
    log.Extends (log.give key chunk) [] :=
  ⟨fun _ => id, fun _ _ => Or.inl, (List.append_nil _).symm⟩

theorem extends_consume (log : ReadLog) (chunk : Bytes) :
    log.Extends (log.consume chunk) [chunk] :=
  ⟨fun _ => id, fun _ _ => id, rfl⟩

theorem given_give (log : ReadLog) (key : ChunkKey) (chunk : Bytes) :
    (log.give key chunk).given key chunk :=
  Or.inr ⟨rfl, rfl⟩

end ReadLog

-- ================================================================= the calls

section Rule

variable {τ : Type} {m : Type → Type} [Monad m] [MonadExceptOf Fault m]
  {L : Logic Fault τ m} {provider : ChunkProvider m}
  {yield : Bytes → m Unit} {I : ReadLog → τ → Prop} {err : Fault → Prop}

/-- What the calls of a provider do to the log. -/
structure Reads (L : Logic Fault τ m) (provider : ChunkProvider m)
    (I : ReadLog → τ → Prop) (err : Fault → Prop) : Prop where
  prefetch : ∀ log keys, L.Meets (I log) (provider.prefetch keys)
    (fun _ => I (log.ask keys)) err
  getChunk : ∀ log key, log.asked key →
    L.Meets (I log) (provider.getChunk key)
      (fun chunk => I (log.give key chunk)) err
  tryGet : ∀ e, err (.tryGet e)
  outOfFuel : err .outOfFuel

/-- What a consumer does to the log. -/
def Consumes (L : Logic Fault τ m) (yield : Bytes → m Unit)
    (I : ReadLog → τ → Prop) (err : Fault → Prop) : Prop :=
  ∀ log chunk, L.Meets (I log) (yield chunk)
    (fun _ => I (log.consume chunk)) err

/-- The log after keys were read: it has what they stand for. -/
def Logged (I : ReadLog → τ → Prop) (log : ReadLog) (isLeaf : Bool)
    (keys : List ChunkKey) (t : τ) : Prop :=
  ∃ log' data, log.Extends log' data
    ∧ Denotes log'.given parseList isLeaf keys data ∧ I log' t

-- ================================================================ reading

/-- A data chunk, then the rest. -/
theorem Logged.consLeaf {log : ReadLog} {key : ChunkKey} {chunk : Bytes}
    {keys : List ChunkKey} {t : τ}
    (h : Logged I ((log.give key chunk).consume chunk) true keys t) :
    Logged I log true (key :: keys) t := by
  obtain ⟨log', data, hext, hmeans, hI⟩ := h
  have hgiven := hext.given key chunk (log.given_give key chunk)
  refine ⟨log', chunk :: data, ?_, .leafCons hgiven hmeans, hI⟩
  exact (log.extends_give key chunk).trans
    ((ReadLog.extends_consume _ chunk).trans hext)

/-- A child list, then the rest. -/
theorem Logged.consInner {log log₁ : ReadLog} {key : ChunkKey}
    {chunk : Bytes} {list : ChunkList} {keys : List ChunkKey}
    {below : List Bytes} {t : τ}
    (hdecode : ChunkList.decode chunk = .ok list)
    (hext₁ : (log.give key chunk).Extends log₁ below)
    (hbelow : Denotes log₁.given parseList list.isLeaf list.chunks below)
    (h : Logged I log₁ false keys t) :
    Logged I log false (key :: keys) t := by
  obtain ⟨log', data, hext, hmeans, hI⟩ := h
  have hgiven := hext.given key chunk
    (hext₁.given key chunk (log.given_give key chunk))
  have hparse : parseList chunk = some ⟨list.isLeaf, list.chunks⟩ := by
    rw [parseList, hdecode]
  refine ⟨log', below ++ data, ?_,
    .innerCons hgiven hparse (hbelow.mono hext.given) hmeans, hI⟩
  exact (log.extends_give key chunk).trans (hext₁.trans hext)

/-- The keys of one list, given what its child lists read. -/
theorem Reads.keys (hreads : Reads L provider I err)
    (hyield : Consumes L yield I err) {descend : ChunkList → m Unit}
    (hdescend : ∀ list log, L.Meets (I log) (descend list)
      (fun _ => Logged I log list.isLeaf list.chunks) err)
    (isLeaf : Bool) (keys : List ChunkKey) (log : ReadLog)
    (hasked : ∀ k ∈ keys, log.asked k) :
    L.Meets (I log) (reconstructKeys provider yield descend isLeaf keys)
      (fun _ => Logged I log isLeaf keys) err := by
  induction keys generalizing log with
  | nil =>
      apply L.pure
      intro t ht
      exact ⟨log, [], .refl log, .nil isLeaf, ht⟩
  | cons key keys ih =>
      obtain ⟨hkey, hkeys⟩ := List.forall_mem_cons.mp hasked
      apply L.bind (hreads.getChunk log key hkey)
      intro chunk
      cases isLeaf with
      | true =>
          apply L.bind (hyield _ chunk)
          intro _
          refine L.mono (fun _ ht => ht) (fun _ _ ht => Logged.consLeaf ht)
            (ih _ hkeys)
      | false =>
          simp only [Bool.false_eq_true, if_false]
          cases hdecode : ChunkList.decode chunk with
          | error e =>
              have hthrow : L.Meets (I (log.give key chunk))
                  (throw (Fault.tryGet e) : m Unit)
                  (fun _ _ => False ∧ True) err :=
                L.throw (hreads.tryGet e)
              exact L.bind hthrow fun _ => L.assume False.elim
          | ok list =>
              apply L.bind (hdescend list _)
              intro _
              -- the child's log is fixed before the rest is read
              refine L.cases fun log₁ => L.cases fun below =>
                L.assume fun hext => L.assume fun hbelow => ?_
              exact L.mono (fun _ ht => ht)
                (fun _ _ ht => Logged.consInner hdecode hext hbelow ht)
                (ih log₁ fun k hk => hext.asked k (hkeys k hk))

/-- `reconstruct_data`. -/
theorem Reads.data (hreads : Reads L provider I err)
    (hyield : Consumes L yield I err) (fuel : Nat) (list : ChunkList)
    (log : ReadLog) :
    L.Meets (I log) (reconstructData provider yield fuel list)
      (fun _ => Logged I log list.isLeaf list.chunks) err := by
  induction fuel generalizing list log with
  | zero => exact L.throw hreads.outOfFuel
  | succ fuel ih =>
      apply L.bind (hreads.prefetch log list.chunks)
      intro _
      refine L.mono (fun _ ht => ht) ?_ (hreads.keys hyield ih list.isLeaf
        list.chunks (log.ask list.chunks) fun k hk => Or.inr hk)
      rintro _ t ⟨log', data, hext, hmeans, hI⟩
      exact ⟨log', data, (log.extends_ask _).trans hext, hmeans, hI⟩

-- ============================================================ metadata first

/-- A log that only grew in what was asked and given. -/
def Grew (I : ReadLog → τ → Prop) (log : ReadLog) (t : τ) : Prop :=
  ∃ log', log.Extends log' [] ∧ I log' t

/-- The lists below one list's keys. -/
theorem Reads.children (hreads : Reads L provider I err)
    (keys : List ChunkKey) (log : ReadLog)
    (hasked : ∀ k ∈ keys, log.asked k) :
    L.Meets (I log) (childLists provider keys) (fun _ => Grew I log)
      err := by
  induction keys generalizing log with
  | nil =>
      apply L.pure
      intro t ht
      exact ⟨log, .refl log, ht⟩
  | cons key keys ih =>
      obtain ⟨hkey, hkeys⟩ := List.forall_mem_cons.mp hasked
      apply L.bind (hreads.getChunk log key hkey)
      intro chunk
      cases ChunkList.decode chunk with
      | error e => exact L.throw (hreads.tryGet e)
      | ok list =>
          apply L.bind (ih (log.give key chunk) hkeys)
          intro rest
          apply L.pure
          rintro t ⟨log', hext, hI⟩
          exact ⟨log', (log.extends_give key chunk).trans hext, hI⟩

/-- The lists below one level. -/
theorem Reads.level (hreads : Reads L provider I err)
    (lists : List ChunkList) (log : ReadLog)
    (hasked : ∀ l ∈ lists, ∀ k ∈ l.chunks, log.asked k) :
    L.Meets (I log) (nextLevel provider lists) (fun _ => Grew I log)
      err := by
  induction lists generalizing log with
  | nil =>
      apply L.pure
      intro t ht
      exact ⟨log, .refl log, ht⟩
  | cons list lists ih =>
      obtain ⟨hlist, hlists⟩ := List.forall_mem_cons.mp hasked
      rw [nextLevel]
      split
      case isTrue => exact ih log hlists
      case isFalse =>
        apply L.bind (hreads.children list.chunks log hlist)
        intro children
        refine L.cases fun log₁ => L.assume fun hext => ?_
        apply L.bind
          (ih log₁ fun l hl k hk => hext.asked k (hlists l hl k hk))
        intro rest
        apply L.pure
        rintro t ⟨log', hext', hI⟩
        exact ⟨log', hext.trans hext', hI⟩

/-- `prefetch_metadata_chunks`. -/
theorem Reads.metadata (hreads : Reads L provider I err) (fuel : Nat)
    (lists : List ChunkList) (log : ReadLog) :
    L.Meets (I log) (prefetchMetadataChunks provider fuel lists)
      (fun _ => Grew I log) err := by
  induction fuel generalizing lists log with
  | zero =>
      cases lists with
      | nil => exact L.pure fun t ht => ⟨log, .refl log, ht⟩
      | cons => exact L.throw hreads.outOfFuel
  | succ fuel ih =>
      cases lists with
      | nil => exact L.pure fun t ht => ⟨log, .refl log, ht⟩
      | cons list lists =>
          apply L.bind (hreads.prefetch log _)
          intro _
          apply L.bind (hreads.level (list :: lists) _ fun l hl k hk =>
            Or.inr (List.mem_flatMap.mpr ⟨l, hl, hk⟩))
          intro level
          refine L.cases fun log₁ => L.assume fun hext => ?_
          refine L.mono (fun _ ht => ht) ?_ (ih level log₁)
          rintro _ t ⟨log', hext', hI⟩
          exact ⟨log', (log.extends_ask _).trans (hext.trans hext'), hI⟩

end Rule

end FactoryCacher
