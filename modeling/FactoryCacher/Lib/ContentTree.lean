/-
Content-addressed trees: what a list of keys stands for.

A store relates keys to blobs. A node is a flag and a list of keys: on a
leaf node the keys name data blobs, on an inner node they name blobs
that parse to further nodes. `Denotes` is the meaning of a node over a
store: the data blobs below it, in order.

The store is a relation and not a function on purpose: it reads "this
blob was stored under this key", it only grows while a tree is built
(`Denotes.mono`), and nothing about collisions is needed to build. That
one key has one blob enters only where a tree is read back, and there it
makes the meaning unique even across two stores (`Denotes.unique`).
-/
import Mathlib.Tactic.Common
import Mathlib.Data.List.Basic

namespace FactoryCacher

/-- A tree node: whether its keys name data, and the keys. -/
structure Node (κ : Type) where
  leaf : Bool
  keys : List κ

variable {κ β : Type}

/-- No path below a node meets more than `n` further nodes. -/
def Within (store : κ → β → Prop) (parse : β → Option (Node κ)) :
    Nat → Bool → List κ → Prop
  | 0, leaf, _ => leaf = true
  | n + 1, leaf, ks => leaf = false → ∀ k ∈ ks, ∃ b node,
      store k b ∧ parse b = some node
        ∧ Within store parse n node.leaf node.keys

/-- A bound may be raised. -/
theorem Within.mono {store : κ → β → Prop} {parse : β → Option (Node κ)}
    {n n' : Nat} {leaf : Bool} {ks : List κ}
    (h : Within store parse n leaf ks) (hle : n ≤ n') :
    Within store parse n' leaf ks := by
  induction n generalizing n' leaf ks with
  | zero =>
      cases n' with
      | zero => exact h
      | succ n' =>
          intro hinner
          rw [show leaf = true from h] at hinner
          cases hinner
  | succ n ih =>
      cases n' with
      | zero => omega
      | succ n' =>
          intro hinner k hk
          obtain ⟨b, node, hs, hp, hb⟩ := h hinner k hk
          exact ⟨b, node, hs, hp, ih hb (by omega)⟩

/-- Everything below a node is stored, and no path meets more than `n`
further nodes. -/
def StoredBelow (store : κ → β → Prop) (parse : β → Option (Node κ)) :
    Nat → Bool → List κ → Prop
  | 0, leaf, ks => leaf = true ∧ ∀ k ∈ ks, ∃ b, store k b
  | n + 1, leaf, ks => ∀ k ∈ ks, ∃ b, store k b
      ∧ (leaf = false → ∃ node, parse b = some node
        ∧ StoredBelow store parse n node.leaf node.keys)

/-- What a node names itself. -/
theorem StoredBelow.stored {store : κ → β → Prop}
    {parse : β → Option (Node κ)} {n : Nat} {leaf : Bool} {ks : List κ}
    (h : StoredBelow store parse n leaf ks) : ∀ k ∈ ks, ∃ b, store k b := by
  cases n with
  | zero => exact h.2
  | succ n =>
      intro k hk
      obtain ⟨b, hs, -⟩ := h k hk
      exact ⟨b, hs⟩

/-- A bound may be raised. -/
theorem StoredBelow.mono {store : κ → β → Prop}
    {parse : β → Option (Node κ)} {n n' : Nat} {leaf : Bool} {ks : List κ}
    (h : StoredBelow store parse n leaf ks) (hle : n ≤ n') :
    StoredBelow store parse n' leaf ks := by
  induction n generalizing n' leaf ks with
  | zero =>
      cases n' with
      | zero => exact h
      | succ n' =>
          intro k hk
          obtain ⟨b, hs⟩ := h.2 k hk
          refine ⟨b, hs, fun hinner => ?_⟩
          rw [h.1] at hinner
          cases hinner
  | succ n ih =>
      cases n' with
      | zero => omega
      | succ n' =>
          intro k hk
          obtain ⟨b, hs, hbelow⟩ := h k hk
          refine ⟨b, hs, fun hinner => ?_⟩
          obtain ⟨node, hp, hb⟩ := hbelow hinner
          exact ⟨node, hp, ih hb (by omega)⟩

/-- The data blobs below a node, over a store and a parser of nodes. -/
inductive Denotes (store : κ → β → Prop) (parse : β → Option (Node κ)) :
    Bool → List κ → List β → Prop
  | nil (leaf : Bool) : Denotes store parse leaf [] []
  | leafCons {k : κ} {b : β} {ks : List κ} {bs : List β} :
      store k b → Denotes store parse true ks bs →
      Denotes store parse true (k :: ks) (b :: bs)
  | innerCons {k : κ} {b : β} {node : Node κ} {ks : List κ}
      {bs below : List β} :
      store k b → parse b = some node →
      Denotes store parse node.leaf node.keys below →
      Denotes store parse false ks bs →
      Denotes store parse false (k :: ks) (below ++ bs)

namespace Denotes

variable {store store' : κ → β → Prop} {parse : β → Option (Node κ)}

/-- Storing more never changes what a node stands for. -/
theorem mono (hsub : ∀ k b, store k b → store' k b) {leaf : Bool}
    {ks : List κ} {bs : List β} (h : Denotes store parse leaf ks bs) :
    Denotes store' parse leaf ks bs := by
  induction h with
  | nil leaf => exact nil leaf
  | leafCons hs _ ih => exact leafCons (hsub _ _ hs) ih
  | innerCons hs hp _ _ ihb ih => exact innerCons (hsub _ _ hs) hp ihb ih

/-- Keys in sequence stand for their blobs in sequence. -/
theorem append {leaf : Bool} {ks₁ ks₂ : List κ} {bs₁ bs₂ : List β}
    (h₁ : Denotes store parse leaf ks₁ bs₁)
    (h₂ : Denotes store parse leaf ks₂ bs₂) :
    Denotes store parse leaf (ks₁ ++ ks₂) (bs₁ ++ bs₂) := by
  induction h₁ with
  | nil leaf => exact h₂
  | leafCons hs _ ih => exact leafCons hs (ih h₂)
  | innerCons hs hp hb _ _ ih =>
      rw [List.cons_append, List.append_assoc]
      exact innerCons hs hp hb (ih h₂)

/-- No keys, no blobs. -/
theorem eq_nil {leaf : Bool} {bs : List β}
    (h : Denotes store parse leaf [] bs) : bs = [] := by
  cases h
  rfl

/-- One more data blob at the end of a leaf. -/
theorem snocLeaf {k : κ} {b : β} {ks : List κ} {bs : List β}
    (h : Denotes store parse true ks bs) (hs : store k b) :
    Denotes store parse true (ks ++ [k]) (bs ++ [b]) :=
  h.append (leafCons hs (nil true))

/-- One more subtree at the end of an inner node. -/
theorem snocInner {k : κ} {b : β} {node : Node κ} {ks : List κ}
    {bs below : List β} (h : Denotes store parse false ks bs)
    (hs : store k b) (hp : parse b = some node)
    (hb : Denotes store parse node.leaf node.keys below) :
    Denotes store parse false (ks ++ [k]) (bs ++ below) := by
  have hone : Denotes store parse false [k] (below ++ []) :=
    innerCons hs hp hb (nil false)
  rw [List.append_nil] at hone
  exact h.append hone

/-- Over two stores that agree on every key they share, a node stands
for the same blobs. -/
theorem unique (hagree : ∀ k b b', store k b → store' k b' → b = b')
    {leaf : Bool} {ks : List κ} {bs bs' : List β}
    (h : Denotes store parse leaf ks bs)
    (h' : Denotes store' parse leaf ks bs') : bs = bs' := by
  induction h generalizing bs' with
  | nil leaf => exact (eq_nil h').symm
  | leafCons hs _ ih =>
      cases h' with
      | leafCons hs' hrest' => rw [hagree _ _ _ hs hs', ih hrest']
  | innerCons hs hp _ _ ihb ih =>
      cases h' with
      | innerCons hs' hp' hb' hrest' =>
          -- the same key, so the same blob, so the same child node
          have hblob := hagree _ _ _ hs hs'
          subst hblob
          rw [hp] at hp'
          injection hp' with hnode
          subst hnode
          rw [ihb hb', ih hrest']

/-- A node that stands for something is bounded. -/
theorem within {leaf : Bool} {ks : List κ} {bs : List β}
    (h : Denotes store parse leaf ks bs) :
    ∃ n, Within store parse n leaf ks := by
  induction h with
  | nil leaf => exact ⟨1, fun _ k hk => absurd hk List.not_mem_nil⟩
  | leafCons => exact ⟨0, rfl⟩
  | innerCons hs hp _ _ ihb ih =>
      obtain ⟨nb, hb⟩ := ihb
      obtain ⟨n, hrest⟩ := ih
      refine ⟨max n nb + 1, ?_⟩
      intro _ k hk
      rcases List.mem_cons.mp hk with rfl | hk
      · exact ⟨_, _, hs, hp, hb.mono (Nat.le_max_right ..)⟩
      · obtain ⟨b, node, hs, hp, hb⟩ :=
          hrest.mono (Nat.le_succ n) rfl k hk
        exact ⟨b, node, hs, hp, hb.mono (Nat.le_max_left ..)⟩

/-- All of it is stored. -/
theorem storedBelow {leaf : Bool} {ks : List κ} {bs : List β}
    (h : Denotes store parse leaf ks bs) :
    ∃ n, StoredBelow store parse n leaf ks := by
  induction h with
  | nil leaf => exact ⟨1, fun k hk => absurd hk List.not_mem_nil⟩
  | leafCons hs _ ih =>
      obtain ⟨n, hrest⟩ := ih
      exact ⟨0, rfl, List.forall_mem_cons.mpr ⟨⟨_, hs⟩, hrest.stored⟩⟩
  | innerCons hs hp _ _ ihb ih =>
      obtain ⟨nb, hb⟩ := ihb
      obtain ⟨n, hrest⟩ := ih
      refine ⟨max n nb + 1, ?_⟩
      intro k hk
      rcases List.mem_cons.mp hk with rfl | hk
      · exact ⟨_, hs, fun _ => ⟨_, hp, hb.mono (Nat.le_max_right ..)⟩⟩
      · obtain ⟨b, hs, hbelow⟩ := hrest.mono (Nat.le_succ n) k hk
        refine ⟨b, hs, fun hinner => ?_⟩
        obtain ⟨node, hp, hb⟩ := hbelow hinner
        exact ⟨node, hp, hb.mono (Nat.le_max_left ..)⟩

end Denotes

end FactoryCacher
