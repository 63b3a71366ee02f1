/-
The standard containers the program keeps its state in, as values.

Three collections, each modelled by what its operations can observe:

- `WriteMap`: a hash map that is only written and looked up. It IS its
  history of writes, newest first; a lookup finds the newest write of
  the key. Keeping the history costs nothing and makes "what was ever
  stored" a plain membership statement (`Written`), which is the form
  collision-freedom is assumed in.
- `LinkedMap`: a linked hash map, entries in list order from the least
  to the most recently touched. Keys are distinct by construction.
- `OrdSet`: an ordered set, a strictly increasing list, so iteration
  order is the list order and the least element is the head.

Each operation comes with the one lemma that says what it does to
membership; no proof elsewhere unfolds a container.
-/
import Mathlib.Tactic.Common
import Mathlib.Data.List.Dedup
import Mathlib.Data.List.Basic
import Mathlib.Order.Lattice

namespace FactoryCacher

-- ============================================================= write maps

/-- A hash map that is never removed from: its writes, newest first. -/
structure WriteMap (κ ν : Type) where
  writes : List (κ × ν)

namespace WriteMap

variable {κ ν : Type} [DecidableEq κ]

def empty : WriteMap κ ν := ⟨[]⟩

/-- The value of the newest write of `k` in a history. -/
def newest (k : κ) : List (κ × ν) → Option ν
  | [] => none
  | (k', v) :: rest => if k' = k then some v else newest k rest

/-- `HashMap::get`. -/
def get (m : WriteMap κ ν) (k : κ) : Option ν := newest k m.writes

/-- `HashMap::contains_key`. -/
def containsKey (m : WriteMap κ ν) (k : κ) : Bool := (m.get k).isSome

/-- `HashMap::insert`. -/
def insert (m : WriteMap κ ν) (k : κ) (v : ν) : WriteMap κ ν :=
  ⟨(k, v) :: m.writes⟩

/-- `HashMap::len`: the number of distinct keys written. -/
def len (m : WriteMap κ ν) : Nat := (m.writes.map Prod.fst).dedup.length

/-- `v` was stored under `k` at some time. -/
def Written (m : WriteMap κ ν) (k : κ) (v : ν) : Prop := (k, v) ∈ m.writes

omit [DecidableEq κ] in
@[simp] theorem written_empty (k : κ) (v : ν) :
    ¬ (empty : WriteMap κ ν).Written k v := by
  simp [Written, empty]

omit [DecidableEq κ] in
@[simp] theorem written_insert (m : WriteMap κ ν) (k k' : κ) (v v' : ν) :
    (m.insert k v).Written k' v' ↔ (k' = k ∧ v' = v) ∨ m.Written k' v' := by
  simp [Written, insert]

private theorem mem_of_newest {k : κ} {v : ν} :
    ∀ {l : List (κ × ν)}, newest k l = some v → (k, v) ∈ l := by
  intro l
  induction l with
  | nil => intro h; cases h
  | cons e rest ih =>
      obtain ⟨k', v'⟩ := e
      intro h
      by_cases hk : k' = k
      · simp only [newest, hk, if_true, Option.some.injEq] at h
        simp [hk, h]
      · rw [newest, if_neg hk] at h
        exact List.mem_cons_of_mem _ (ih h)

/-- What a lookup finds was written. -/
theorem written_of_get {m : WriteMap κ ν} {k : κ} {v : ν}
    (h : m.get k = some v) : m.Written k v := mem_of_newest h

private theorem newest_isSome {k : κ} {v : ν} :
    ∀ {l : List (κ × ν)}, (k, v) ∈ l → ∃ w, newest k l = some w := by
  intro l
  induction l with
  | nil => intro h; cases h
  | cons e rest ih =>
      obtain ⟨k', v'⟩ := e
      intro h
      by_cases hk : k' = k
      · exact ⟨v', by simp [newest, hk]⟩
      · rw [newest, if_neg hk]
        rcases List.mem_cons.1 h with heq | hmem
        · injection heq with hk' _
          exact absurd hk'.symm hk
        · exact ih hmem

/-- Where a key was only ever written one value, a lookup finds it. -/
theorem get_of_written {m : WriteMap κ ν} {k : κ} {v : ν}
    (huniq : ∀ w, m.Written k w → w = v) (h : m.Written k v) :
    m.get k = some v := by
  obtain ⟨w, hw⟩ := newest_isSome h
  rw [get, hw, huniq w (mem_of_newest hw)]

/-- A key is there if anything was written to it. -/
theorem containsKey_iff {m : WriteMap κ ν} {k : κ} :
    m.containsKey k = true ↔ ∃ v, m.Written k v := by
  rw [containsKey, Option.isSome_iff_exists]
  constructor
  · rintro ⟨v, hv⟩
    exact ⟨v, written_of_get hv⟩
  · rintro ⟨v, hv⟩
    exact newest_isSome hv

end WriteMap

-- ============================================================ linked maps

/-- A linked hash map: distinct keys, least recently touched first. -/
structure LinkedMap (κ ν : Type) where
  entries : List (κ × ν)
  nodup : (entries.map Prod.fst).Nodup

namespace LinkedMap

variable {κ ν : Type}

def empty : LinkedMap κ ν := ⟨[], List.nodup_nil⟩

/-- The keys, least recently touched first. -/
def keys (m : LinkedMap κ ν) : List κ := m.entries.map Prod.fst

/-- `LinkedHashMap::len`. -/
def len (m : LinkedMap κ ν) : Nat := m.entries.length

/-- `LinkedHashMap::pop_front`: remove the least recently touched. -/
def popFront (m : LinkedMap κ ν) : Option ((κ × ν) × LinkedMap κ ν) :=
  match m with
  | ⟨[], _⟩ => none
  | ⟨e :: rest, h⟩ => some (e, ⟨rest, (List.nodup_cons.1 h).2⟩)

variable [DecidableEq κ]

/-- The value under `k`, without touching the order. -/
def find (m : LinkedMap κ ν) (k : κ) : Option ν :=
  (m.entries.find? fun e => e.1 = k).map Prod.snd

/-- The entries under other keys than `k`, in order. -/
def others (m : LinkedMap κ ν) (k : κ) : List (κ × ν) :=
  m.entries.filter fun e => e.1 ≠ k

/-- Putting a key at the back leaves the keys distinct. -/
theorem others_snoc_nodup (m : LinkedMap κ ν) (k : κ) (v : ν) :
    ((m.others k ++ [(k, v)]).map Prod.fst).Nodup := by
  have hrest : ((m.others k).map Prod.fst).Nodup :=
    m.nodup.sublist (List.filter_sublist.map _)
  have hk : k ∉ (m.others k).map Prod.fst := by
    intro hmem
    obtain ⟨e, he, hk⟩ := List.mem_map.1 hmem
    have hne := (List.mem_filter.1 he).2
    simp [hk] at hne
  simpa using hrest.concat hk

/-- `k` becomes the most recently touched entry, with value `v`. -/
def putBack (m : LinkedMap κ ν) (k : κ) (v : ν) : LinkedMap κ ν :=
  ⟨m.others k ++ [(k, v)], m.others_snoc_nodup k v⟩

/-- `LinkedHashMap::insert`: replace and move to the back; returns the
value that was replaced. -/
def insert (m : LinkedMap κ ν) (k : κ) (v : ν) :
    Option ν × LinkedMap κ ν :=
  (m.find k, m.putBack k v)

/-- `LinkedHashMap::to_back`: look up and move to the back. -/
def toBack (m : LinkedMap κ ν) (k : κ) : Option ν × LinkedMap κ ν :=
  match m.find k with
  | none => (none, m)
  | some v => (some v, m.putBack k v)

@[simp] theorem entries_putBack (m : LinkedMap κ ν) (k : κ) (v : ν) :
    (m.putBack k v).entries = m.others k ++ [(k, v)] := rfl

/-- A lookup returns an entry. -/
theorem mem_of_find {m : LinkedMap κ ν} {k : κ} {v : ν}
    (h : m.find k = some v) : (k, v) ∈ m.entries := by
  unfold find at h
  obtain ⟨e, he, hv⟩ := Option.map_eq_some_iff.1 h
  have hmem := List.mem_of_find?_eq_some he
  have hk : e.1 = k := by simpa using List.find?_some he
  obtain ⟨k', v'⟩ := e
  subst hk hv
  exact hmem

omit [DecidableEq κ] in
/-- Distinct keys: one value per key. -/
theorem value_unique {m : LinkedMap κ ν} {k : κ} {v w : ν}
    (hv : (k, v) ∈ m.entries) (hw : (k, w) ∈ m.entries) : v = w := by
  have h := List.inj_on_of_nodup_map m.nodup hv hw rfl
  exact (Prod.mk.inj h).2

/-- A lookup finds every entry. -/
theorem find_eq_some_iff {m : LinkedMap κ ν} {k : κ} {v : ν} :
    m.find k = some v ↔ (k, v) ∈ m.entries := by
  refine ⟨mem_of_find, fun hmem => ?_⟩
  cases hf : m.entries.find? fun e => e.1 = k with
  | none =>
      rw [List.find?_eq_none] at hf
      exact absurd (by simp) (hf (k, v) hmem)
  | some e =>
      have hk : e.1 = k := by simpa using List.find?_some hf
      have hfind : m.find k = some e.2 := by rw [find, hf]; rfl
      rw [hfind, value_unique (mem_of_find hfind) hmem]

/-- A missed lookup: the key is not there. -/
theorem find_eq_none_iff {m : LinkedMap κ ν} {k : κ} :
    m.find k = none ↔ k ∉ m.keys := by
  constructor
  · intro h hmem
    obtain ⟨e, he, rfl⟩ := List.mem_map.1 hmem
    rw [find_eq_some_iff.2 he] at h
    cases h
  · intro h
    cases hf : m.find k with
    | none => rfl
    | some v => exact absurd (List.mem_map.2 ⟨_, mem_of_find hf, rfl⟩) h

theorem mem_others {m : LinkedMap κ ν} {k : κ} {e : κ × ν} :
    e ∈ m.others k ↔ e ∈ m.entries ∧ e.1 ≠ k := by
  simp [others, List.mem_filter]

/-- The entries after `k` was put at the back. -/
theorem mem_putBack {m : LinkedMap κ ν} {k : κ} {v : ν} {e : κ × ν} :
    e ∈ (m.putBack k v).entries
      ↔ (e ∈ m.entries ∧ e.1 ≠ k) ∨ e = (k, v) := by
  simp [mem_others]

/-- Looking up and moving to the back reorders the entries only. -/
theorem mem_toBack {m : LinkedMap κ ν} {k : κ} {e : κ × ν} :
    e ∈ (m.toBack k).2.entries ↔ e ∈ m.entries := by
  unfold toBack
  cases hf : m.find k with
  | none => rfl
  | some v =>
      have hkv := mem_of_find hf
      show e ∈ (m.putBack k v).entries ↔ _
      rw [mem_putBack]
      constructor
      · rintro (⟨he, -⟩ | rfl)
        · exact he
        · exact hkv
      · intro he
        by_cases hk : e.1 = k
        · obtain ⟨k', w⟩ := e
          subst hk
          exact Or.inr (by rw [value_unique he hkv])
        · exact Or.inl ⟨he, hk⟩

/-- Moving to the back is a lookup as well. -/
@[simp] theorem toBack_fst (m : LinkedMap κ ν) (k : κ) :
    (m.toBack k).1 = m.find k := by
  unfold toBack
  cases m.find k <;> rfl

omit [DecidableEq κ] in
theorem entries_nodup (m : LinkedMap κ ν) : m.entries.Nodup :=
  m.nodup.of_map

/-- The same, as lists: an entry put back where it was found reorders the
entries. -/
theorem putBack_perm {m : LinkedMap κ ν} {k : κ} {v : ν}
    (h : m.find k = some v) : (m.putBack k v).entries.Perm m.entries := by
  rw [List.perm_ext_iff_of_nodup (entries_nodup _) (entries_nodup _)]
  intro e
  have hback : m.toBack k = (some v, m.putBack k v) := by rw [toBack, h]
  rw [← mem_toBack (m := m) (k := k), hback]

/-- A new key goes behind all entries. -/
theorem others_of_not_mem {m : LinkedMap κ ν} {k : κ} (h : k ∉ m.keys) :
    m.others k = m.entries := by
  rw [others, List.filter_eq_self]
  intro e he
  have hne : e.1 ≠ k := by
    intro heq
    exact h (heq ▸ List.mem_map_of_mem he)
  simpa using hne

end LinkedMap

-- =========================================================== ordered sets

instance uint32LinearOrder : LinearOrder UInt32 where
  le_refl := UInt32.le_refl
  le_trans _ _ _ := UInt32.le_trans
  le_antisymm _ _ := UInt32.le_antisymm
  le_total := UInt32.le_total
  lt_iff_le_not_ge a b := by
    rw [UInt32.lt_iff_toNat_lt, UInt32.le_iff_toNat_le,
      UInt32.le_iff_toNat_le]
    omega
  toDecidableLE := inferInstance

/-- An ordered set: a strictly increasing list. -/
structure OrdSet (α : Type) [LinearOrder α] where
  toList : List α
  sorted : toList.Pairwise (· < ·)

namespace OrdSet

variable {α : Type} [LinearOrder α]

instance : Membership α (OrdSet α) := ⟨fun s a => a ∈ s.toList⟩

theorem mem_def {s : OrdSet α} {a : α} : a ∈ s ↔ a ∈ s.toList := Iff.rfl

instance (s : OrdSet α) (a : α) : Decidable (a ∈ s) :=
  inferInstanceAs (Decidable (a ∈ s.toList))

instance : DecidableEq (OrdSet α) := fun s t =>
  decidable_of_iff (s.toList = t.toList) (by cases s; cases t; simp)

def empty : OrdSet α := ⟨[], List.Pairwise.nil⟩

/-- `BTreeSet::is_empty`. -/
def isEmpty (s : OrdSet α) : Bool := s.toList.isEmpty

/-- `BTreeSet::len`. -/
def len (s : OrdSet α) : Nat := s.toList.length

/-- Insertion at the place the order asks for; a member stays single. -/
def insertSorted (a : α) : List α → List α
  | [] => [a]
  | b :: rest =>
      if a < b then a :: b :: rest
      else if a = b then b :: rest
      else b :: insertSorted a rest

theorem mem_insertSorted {a x : α} {l : List α} :
    x ∈ insertSorted a l ↔ x = a ∨ x ∈ l := by
  induction l with
  | nil => simp [insertSorted]
  | cons b rest ih =>
      unfold insertSorted
      split
      · simp
      · split
        · next h => subst h; simp
        · simp only [List.mem_cons, ih]
          tauto

/-- The list stays sorted, without repetitions. -/
theorem sorted_insertSorted {a : α} {l : List α}
    (h : l.Pairwise (· < ·)) : (insertSorted a l).Pairwise (· < ·) := by
  induction l with
  | nil => simp [insertSorted]
  | cons b rest ih =>
      obtain ⟨hb, hrest⟩ := List.pairwise_cons.1 h
      unfold insertSorted
      split
      · next hab =>
        refine List.pairwise_cons.2 ⟨?_, h⟩
        intro x hx
        rcases List.mem_cons.1 hx with rfl | hx
        · exact hab
        · exact lt_trans hab (hb x hx)
      · next hab =>
        split
        · exact h
        · next hne =>
          refine List.pairwise_cons.2 ⟨?_, ih hrest⟩
          intro x hx
          rcases mem_insertSorted.1 hx with rfl | hx
          · exact lt_of_le_of_ne (not_lt.1 hab) (Ne.symm hne)
          · exact hb x hx

/-- `BTreeSet::insert`. -/
def insert (s : OrdSet α) (a : α) : OrdSet α :=
  ⟨insertSorted a s.toList, sorted_insertSorted s.sorted⟩

/-- `BTreeSet::from_iter`. -/
def ofList (l : List α) : OrdSet α := l.foldl insert empty

/-- The set without `a`. -/
def erase (s : OrdSet α) (a : α) : OrdSet α :=
  ⟨s.toList.filter (· ≠ a), s.sorted.filter _⟩

/-- `BTreeSet::remove`: whether `a` was a member, and the set without
it. -/
def remove (s : OrdSet α) (a : α) : Bool × OrdSet α :=
  (decide (a ∈ s), s.erase a)

/-- `BTreeSet::pop_first`: the least member and the others. -/
def popFirst (s : OrdSet α) : Option (α × OrdSet α) :=
  match s with
  | ⟨[], _⟩ => none
  | ⟨a :: rest, h⟩ => some (a, ⟨rest, (List.pairwise_cons.1 h).2⟩)

@[simp] theorem not_mem_empty (a : α) : a ∉ (empty : OrdSet α) := by
  simp [mem_def, empty]

@[simp] theorem mem_insert {s : OrdSet α} {a x : α} :
    x ∈ s.insert a ↔ x = a ∨ x ∈ s := mem_insertSorted

@[simp] theorem mem_erase {s : OrdSet α} {a x : α} :
    x ∈ s.erase a ↔ x ∈ s ∧ x ≠ a := by
  simp [mem_def, erase, List.mem_filter]

/-- A set made from a list has its members. -/
theorem mem_ofList {l : List α} {x : α} : x ∈ ofList l ↔ x ∈ l := by
  have hfold : ∀ (l : List α) (s : OrdSet α),
      x ∈ l.foldl insert s ↔ x ∈ s ∨ x ∈ l := by
    intro l
    induction l with
    | nil => intro s; simp
    | cons a rest ih =>
        intro s
        rw [List.foldl_cons, ih, mem_insert, List.mem_cons]
        tauto
  rw [ofList, hfold]
  simp

/-- One more element, unless it was there. -/
theorem length_insertSorted_le (a : α) (l : List α) :
    (insertSorted a l).length ≤ l.length + 1 := by
  induction l with
  | nil => simp [insertSorted]
  | cons b rest ih =>
      unfold insertSorted
      split
      · simp
      · split
        · simp
        · simpa using ih

theorem len_insert_le (s : OrdSet α) (a : α) :
    (s.insert a).len ≤ s.len + 1 := length_insertSorted_le a s.toList

theorem len_erase_le (s : OrdSet α) (a : α) : (s.erase a).len ≤ s.len :=
  List.length_filter_le _ _

theorem len_pos {s : OrdSet α} {a : α} (h : a ∈ s) : 0 < s.len :=
  List.length_pos_of_mem h

theorem isEmpty_iff {s : OrdSet α} : s.isEmpty = true ↔ ∀ a, a ∉ s := by
  rw [isEmpty, List.isEmpty_iff, List.eq_nil_iff_forall_not_mem]
  rfl

/-- Only from the empty set nothing is popped. -/
theorem popFirst_eq_none {s : OrdSet α} (h : s.popFirst = none) :
    s.isEmpty = true := by
  obtain ⟨l, hl⟩ := s
  cases l with
  | nil => rfl
  | cons b rest => cases h

/-- What is popped is one element. -/
theorem len_popFirst {s t : OrdSet α} {a : α}
    (h : s.popFirst = some (a, t)) : s.len = t.len + 1 := by
  obtain ⟨l, hl⟩ := s
  cases l with
  | nil => cases h
  | cons b rest =>
      cases h
      rfl

/-- The popped element was a member and only it is gone. -/
theorem popFirst_eq_some {s t : OrdSet α} {a : α}
    (h : s.popFirst = some (a, t)) :
    a ∈ s ∧ ∀ x, x ∈ t ↔ x ∈ s ∧ x ≠ a := by
  obtain ⟨l, hl⟩ := s
  cases l with
  | nil => cases h
  | cons b rest =>
      obtain ⟨hb, -⟩ := List.pairwise_cons.1 hl
      injection h with h
      injection h with h1 h2
      subst h1 h2
      refine ⟨List.mem_cons_self .., fun x => ?_⟩
      show x ∈ rest ↔ x ∈ b :: rest ∧ x ≠ b
      rw [List.mem_cons]
      constructor
      · intro hx
        exact ⟨Or.inr hx, (ne_of_lt (hb x hx)).symm⟩
      · rintro ⟨rfl | hx, hne⟩
        · exact absurd rfl hne
        · exact hx

end OrdSet

end FactoryCacher
