/-
Every stream opened for a packet reaches the call that drew its id.

# Tokens

The server's map has an entry for a call before the indicator goes out,
and loses it when the stream comes in. Between the two there is exactly
one thing under way for the id: the indicator, the client's intention to
open a stream, or the stream. These are the `tokens`. That no two are
for one id, and that each has its entry in the map, is what every action
keeps (`Registry`): the client only turns one token into another, a
write adds one for an id that has none, and accepting a stream takes the
token and the entry together. So an entry is missing for no stream that
is accepted.

# Ids

The counter never comes round (`Draws`), so an id says which call drew
it and a call which id. Calls and peers are followed only as far as the
map needs it (`Peers`).

# Quiet actions

Most actions change nothing but what a single peer is doing, to
something without an id, or lose tokens. They are one case (`Quiet`).
-/
import FactoryCacher.Nebula.Rendezvous
import Mathlib.Data.List.Perm.Subperm
import Mathlib.Data.List.Nodup

namespace FactoryCacher

namespace Nebula

open WebSocket

-- ============================================================== the history

/-- Who drew which id. -/
def drawn (notes : List StreamNote) : List (Call × UInt64) :=
  notes.filterMap fun
    | .drew call streamId => some (call, streamId)
    | _ => none

/-- Which stream was handed to whom. -/
def handed (notes : List StreamNote) : List (Opened × Call) :=
  notes.filterMap fun
    | .handed stream call => some (stream, call)
    | _ => none

@[simp] theorem drawn_append (notes more : List StreamNote) :
    drawn (notes ++ more) = drawn notes ++ drawn more :=
  List.filterMap_append

@[simp] theorem handed_append (notes more : List StreamNote) :
    handed (notes ++ more) = handed notes ++ handed more :=
  List.filterMap_append

theorem mem_drawn {notes : List StreamNote} {call : Call}
    {streamId : UInt64} :
    (call, streamId) ∈ drawn notes ↔ .drew call streamId ∈ notes := by
  rw [drawn, List.mem_filterMap]
  constructor
  · rintro ⟨note, hnote, heq⟩
    cases note <;> cases heq
    exact hnote
  · intro h
    exact ⟨_, h, rfl⟩

theorem mem_handed {notes : List StreamNote} {stream : Opened}
    {call : Call} :
    (stream, call) ∈ handed notes ↔ .handed stream call ∈ notes := by
  rw [handed, List.mem_filterMap]
  constructor
  · rintro ⟨note, hnote, heq⟩
    cases note <;> cases heq
    exact hnote
  · intro h
    exact ⟨_, h, rfl⟩

-- ================================================================== tokens

/-- What is under way for a packet: indicators, streams to be opened and
streams opened. -/
def Rendezvous.tokens (s : Rendezvous) : List Opened :=
  (s.wire.filterMap Transit.toOpen ++ s.toOpen ++ s.inFlight).filter
    (·.dedupId ≠ 0)

theorem Rendezvous.pending_setPending (s : Rendezvous) (conn conn' : Nat)
    (dedupId dedupId' : UInt64) (tx : Option Call) :
    (s.setPending conn dedupId tx).pending conn' dedupId'
      = if conn' = conn ∧ dedupId' = dedupId then tx
        else s.pending conn' dedupId' := by
  by_cases hconn : conn' = conn
  · subst hconn
    simp [setPending, Function.update_apply]
  · simp [setPending, hconn]

-- ============================================================ the invariant

/-- The counter and the ids drawn from it. -/
structure Draws (next : UInt64) (drawn : List (Call × UInt64)) : Prop where
  counter : next.toNat = 1 + drawn.length
  below : ∀ d ∈ drawn, 0 < d.2.toNat ∧ d.2.toNat < next.toNat
  ids : (drawn.map Prod.snd).Nodup
  calls : (drawn.map Prod.fst).Nodup

/-- Where the peers are. -/
structure Peers (peers : Nat → Peer) (drawn : List (Call × UInt64)) :
    Prop where
  begun : ∀ d ∈ drawn, (peers d.1.peer).task ≠ .absent
    ∧ d.1.number ≤ (peers d.1.peer).calls
  preparing : ∀ d ∈ drawn, (peers d.1.peer).task = .preparing →
    d.1.number < (peers d.1.peer).calls
  holds : ∀ p streamId, (peers p).task.streamId = some streamId →
    (⟨p, (peers p).calls⟩, streamId) ∈ drawn
  inbox : ∀ p stream, (peers p).inbox = some stream →
    (peers p).task.streamId = some stream.dedupId
    ∧ stream.conn = (peers p).conn
  serving : ∀ p streamId stream,
    (peers p).task = .serving streamId stream →
    stream = ⟨(peers p).conn, streamId⟩

/-- The maps, and what is under way. -/
structure Registry (peers : Nat → Peer)
    (pending : Nat → UInt64 → Option Call) (tokens : List Opened)
    (drawn : List (Call × UInt64)) (handed : List (Opened × Call)) :
    Prop where
  registered : ∀ conn dedupId call, pending conn dedupId = some call →
    (call, dedupId) ∈ drawn ∧ (peers call.peer).conn = conn
    ∧ dedupId ∉ handed.map fun h => h.1.dedupId
  unregistered : ∀ p streamId, (peers p).task = .drawn streamId →
    (∀ conn, pending conn streamId = none)
    ∧ streamId ∉ handed.map fun h => h.1.dedupId
  unsent : ∀ p streamId, (peers p).task = .registered streamId →
    pending (peers p).conn streamId = some ⟨p, (peers p).calls⟩
    ∧ ⟨(peers p).conn, streamId⟩ ∉ tokens
  entry : ∀ t ∈ tokens, ∃ call, pending t.conn t.dedupId = some call
  nodup : tokens.Nodup
  handedBy : ∀ h ∈ handed, (h.2, h.1.dedupId) ∈ drawn
  handedOnce : (handed.map fun h => h.1.dedupId).Nodup

/-- Everything every action keeps. -/
structure Consistent (s : Rendezvous) (drawn : List (Call × UInt64))
    (handed : List (Opened × Call)) : Prop where
  draws : Draws s.nextDedupStreamId drawn
  peers : Peers s.peers drawn
  registry : Registry s.peers s.pending s.tokens drawn handed

/-- Where an action leads, with what it noted. -/
structure Kept (drawnBefore : List (Call × UInt64))
    (handedBefore : List (Opened × Call))
    (r : Rendezvous × List StreamNote) : Prop where
  consistent : Consistent r.1 (drawnBefore ++ drawn r.2)
    (handedBefore ++ handed r.2)
  known : ∀ stream, .unknownId stream ∉ r.2

section Facts

variable {next : UInt64} {d d' : List (Call × UInt64)}

/-- An id was drawn by one call. -/
theorem Draws.owner (h : Draws next d) {call call' : Call} {id : UInt64}
    (hcall : (call, id) ∈ d) (hcall' : (call', id) ∈ d) : call = call' :=
  congrArg Prod.fst (List.inj_on_of_nodup_map h.ids hcall hcall' rfl)

/-- A call draws once. -/
theorem Draws.once (h : Draws next d) {call : Call} {id id' : UInt64}
    (hid : (call, id) ∈ d) (hid' : (call, id') ∈ d) : id = id' :=
  congrArg Prod.snd (List.inj_on_of_nodup_map h.calls hid hid' rfl)

theorem Draws.ne_zero (h : Draws next d) {call : Call} {id : UInt64}
    (hid : (call, id) ∈ d) : id ≠ 0 := by
  rintro rfl
  exact absurd (h.below _ hid).1 (Nat.lt_irrefl 0)

/-- The next id is new, as long as there are ids left. -/
theorem Draws.draw (h : Draws next d) {call : Call}
    (hcall : ∀ id, (call, id) ∉ d) (hroom : d.length + 1 < 2 ^ 64 - 1) :
    Draws (next + 1) (d ++ [(call, next)]) := by
  have hnext : (next + 1).toNat = next.toNat + 1 := by
    rw [UInt64.toNat_add, UInt64.toNat_one, h.counter]
    exact Nat.mod_eq_of_lt (by omega)
  refine ⟨?_, ?_, ?_, ?_⟩
  · rw [hnext, h.counter, List.length_append]
    rfl
  · intro e he
    rcases List.mem_append.mp he with he | he
    · have := h.below e he
      omega
    · rw [List.mem_singleton.mp he, hnext, h.counter]
      omega
  · have hfresh : next ∉ d.map Prod.snd := by
      intro hmem
      obtain ⟨e, he, heq⟩ := List.mem_map.mp hmem
      have hbelow := (h.below e he).2
      rw [heq] at hbelow
      exact absurd hbelow (Nat.lt_irrefl _)
    rw [List.map_append]
    exact h.ids.append (List.nodup_singleton _)
      (List.disjoint_singleton.mpr hfresh)
  · have hfresh : call ∉ d.map Prod.fst := by
      intro hmem
      obtain ⟨⟨e, id⟩, he, rfl⟩ := List.mem_map.mp hmem
      exact hcall id he
    rw [List.map_append]
    exact h.calls.append (List.nodup_singleton _)
      (List.disjoint_singleton.mpr hfresh)

end Facts

-- ============================================================ quiet actions

/-- A peer that turns to something without an id. -/
structure Rested (old new : Peer) : Prop where
  present : new.task ≠ .absent
  idle : new.task.streamId = none
  inbox : new.inbox = none
  conn : old.task ≠ .absent → new.conn = old.conn
  calls : old.calls ≤ new.calls
  fresh : new.task = .preparing → old.calls < new.calls

/-- An action that draws nothing and leaves the maps alone. -/
structure Quiet (s s' : Rendezvous) : Prop where
  next : s'.nextDedupStreamId = s.nextDedupStreamId
  pending : s'.pending = s.pending
  tokens : s'.tokens.Subperm s.tokens
  peers : ∀ p, s'.peers p = s.peers p ∨ Rested (s.peers p) (s'.peers p)

namespace Quiet

variable {s s' : Rendezvous} {d : List (Call × UInt64)}
  {h : List (Opened × Call)}

/-- A peer that is in a call with an id is where it was. -/
theorem peer_eq (hq : Quiet s s') {p : Nat} {streamId : UInt64}
    (hp : (s'.peers p).task.streamId = some streamId) :
    s'.peers p = s.peers p := by
  rcases hq.peers p with heq | hrested
  · exact heq
  · rw [hrested.idle] at hp
    cases hp

/-- A peer stays on its connection. -/
theorem conn_eq (hq : Quiet s s') {p : Nat}
    (hp : (s.peers p).task ≠ .absent) :
    (s'.peers p).conn = (s.peers p).conn := by
  rcases hq.peers p with heq | hrested
  · rw [heq]
  · exact hrested.conn hp

theorem keeps_peers (hq : Quiet s s') (hpeers : Peers s.peers d) :
    Peers s'.peers d where
  begun e he := by
    have hold := hpeers.begun e he
    rcases hq.peers e.1.peer with heq | hrested
    · rwa [heq]
    · exact ⟨hrested.present, hold.2.trans hrested.calls⟩
  preparing e he htask := by
    rcases hq.peers e.1.peer with heq | hrested
    · rw [heq] at htask ⊢
      exact hpeers.preparing e he htask
    · exact (hpeers.begun e he).2.trans_lt (hrested.fresh htask)
  holds p streamId hp := by
    have heq := hq.peer_eq hp
    rw [heq] at hp ⊢
    exact hpeers.holds p streamId hp
  inbox p stream hp := by
    rcases hq.peers p with heq | hrested
    · rw [heq] at hp ⊢
      exact hpeers.inbox p stream hp
    · rw [hrested.inbox] at hp
      cases hp
  serving p streamId stream hp := by
    have heq := hq.peer_eq (congrArg PeerTask.streamId hp)
    rw [heq] at hp ⊢
    exact hpeers.serving p streamId stream hp

theorem keeps_registry (hq : Quiet s s') (hpeers : Peers s.peers d)
    (hreg : Registry s.peers s.pending s.tokens d h) :
    Registry s'.peers s'.pending s'.tokens d h where
  registered conn dedupId call hpending := by
    rw [hq.pending] at hpending
    obtain ⟨hdrawn, hconn, hhanded⟩ :=
      hreg.registered conn dedupId call hpending
    refine ⟨hdrawn, ?_, hhanded⟩
    rw [hq.conn_eq (hpeers.begun _ hdrawn).1, hconn]
  unregistered p streamId hp := by
    rw [hq.peer_eq (congrArg PeerTask.streamId hp)] at hp
    rw [hq.pending]
    exact hreg.unregistered p streamId hp
  unsent p streamId hp := by
    have heq := hq.peer_eq (congrArg PeerTask.streamId hp)
    rw [heq] at hp ⊢
    obtain ⟨hpending, htoken⟩ := hreg.unsent p streamId hp
    rw [hq.pending]
    exact ⟨hpending, fun hmem => htoken (hq.tokens.subset hmem)⟩
  entry t ht := by
    rw [hq.pending]
    exact hreg.entry t (hq.tokens.subset ht)
  nodup := by
    obtain ⟨tokens, hperm, hsublist⟩ := hq.tokens
    exact hperm.nodup_iff.mp (hreg.nodup.sublist hsublist)
  handedBy := hreg.handedBy
  handedOnce := hreg.handedOnce

theorem keeps (hq : Quiet s s') (hs : Consistent s d h) :
    Consistent s' d h where
  draws := by
    rw [hq.next]
    exact hs.draws
  peers := hq.keeps_peers hs.peers
  registry := hq.keeps_registry hs.peers hs.registry

/-- Nobody does anything else. -/
theorem of_tokens (htokens : s'.tokens.Subperm s.tokens)
    (hnext : s'.nextDedupStreamId = s.nextDedupStreamId)
    (hpending : s'.pending = s.pending) (hpeers : s'.peers = s.peers) :
    Quiet s s' :=
  ⟨hnext, hpending, htokens, fun p => .inl (congrFun hpeers p)⟩

protected theorem refl (s : Rendezvous) : Quiet s s :=
  of_tokens (List.Subperm.refl _) rfl rfl rfl

/-- One peer does. -/
theorem setPeer {p : Nat} {peer : Peer} (h : Rested (s.peers p) peer) :
    Quiet s (s.setPeer p peer) where
  next := rfl
  pending := rfl
  tokens := List.Subperm.refl _
  peers q := by
    simp only [Rendezvous.setPeer, Function.update_apply]
    split
    case isTrue hq => exact .inr (hq ▸ h)
    case isFalse => exact .inl rfl

/-- One peer's call is over. -/
theorem rest {p : Nat} {task : PeerTask} (hpresent : task ≠ .absent)
    (hidle : task.streamId = none) (hpreparing : task ≠ .preparing) :
    Quiet s (s.rest p task) :=
  setPeer ⟨hpresent, hidle, rfl, fun _ => rfl, Nat.le_refl _,
    fun h => absurd h hpreparing⟩

end Quiet

-- ============================================================ other actions

section Calls

variable {peers : Nat → Peer} {pending pending' : Nat → UInt64 → Option Call}
  {tokens tokens' : List Opened} {d d' : List (Call × UInt64)}
  {h : List (Opened × Call)} {p : Nat} {streamId : UInt64} {peer : Peer}

/-- A peer goes on in a call that has an id; `d'` may have its draw
added. -/
theorem Peers.update (hpeers : Peers peers d) (hsub : d ⊆ d')
    (hnew : ∀ e ∈ d', e ∈ d ∨ e.1 = ⟨p, (peers p).calls⟩)
    (hcalls : peer.calls = (peers p).calls)
    (htask : peer.task.streamId = some streamId)
    (hdrawn : (⟨p, (peers p).calls⟩, streamId) ∈ d')
    (hinbox : ∀ stream, peer.inbox = some stream →
      stream = ⟨peer.conn, streamId⟩)
    (hserving : ∀ id stream, peer.task = .serving id stream →
      stream = ⟨peer.conn, id⟩) :
    Peers (Function.update peers p peer) d' := by
  have habsent : peer.task ≠ .absent := by
    intro hp
    rw [hp] at htask
    cases htask
  have hpreparing : peer.task ≠ .preparing := by
    intro hp
    rw [hp] at htask
    cases htask
  refine ⟨?_, ?_, ?_, ?_, ?_⟩
  · intro e he
    rw [Function.update_apply]
    rcases hnew e he with hold | hcall
    · have hbegun := hpeers.begun e hold
      split
      case isTrue hp =>
        rw [hp] at hbegun
        exact ⟨habsent, hcalls ▸ hbegun.2⟩
      case isFalse => exact hbegun
    · rw [hcall, if_pos rfl]
      exact ⟨habsent, Nat.le_of_eq hcalls.symm⟩
  · intro e he hp
    rw [Function.update_apply] at hp ⊢
    split at hp
    case isTrue => exact absurd hp hpreparing
    case isFalse hne =>
      rw [if_neg hne]
      rcases hnew e he with hold | hcall
      · exact hpeers.preparing e hold hp
      · exact absurd (congrArg Call.peer hcall) hne
  · intro q id hq
    rw [Function.update_apply] at hq ⊢
    split at hq
    case isTrue heq =>
      cases htask.symm.trans hq
      rw [if_pos heq, heq, hcalls]
      exact hdrawn
    case isFalse hne =>
      rw [if_neg hne]
      exact hsub (hpeers.holds q id hq)
  · intro q stream hq
    rw [Function.update_apply] at hq ⊢
    split at hq
    case isTrue heq =>
      rw [if_pos heq, hinbox stream hq]
      exact ⟨htask, rfl⟩
    case isFalse hne =>
      rw [if_neg hne]
      exact hpeers.inbox q stream hq
  · intro q id stream hq
    rw [Function.update_apply] at hq ⊢
    split at hq
    case isTrue heq =>
      rw [if_pos heq]
      exact hserving id stream hq
    case isFalse hne =>
      rw [if_neg hne]
      exact hpeers.serving q id stream hq

/-- One peer goes on, where the maps and what is under way allow it. -/
theorem Registry.update (hreg : Registry peers pending tokens d h)
    (hsub : d ⊆ d') (hconn : peer.conn = (peers p).conn)
    (hdrawn : ∀ id, peer.task = .drawn id →
      (∀ conn, pending conn id = none)
      ∧ id ∉ h.map fun h => h.1.dedupId)
    (hregistered : ∀ id, peer.task = .registered id →
      pending peer.conn id = some ⟨p, peer.calls⟩
      ∧ ⟨peer.conn, id⟩ ∉ tokens) :
    Registry (Function.update peers p peer) pending tokens d' h where
  registered conn dedupId call hpending := by
    obtain ⟨hcall, hpeer, hhanded⟩ :=
      hreg.registered conn dedupId call hpending
    refine ⟨hsub hcall, ?_, hhanded⟩
    rw [Function.update_apply]
    split
    case isTrue heq => rw [hconn, ← heq, hpeer]
    case isFalse => exact hpeer
  unregistered q id hq := by
    rw [Function.update_apply] at hq
    split at hq
    case isTrue => exact hdrawn id hq
    case isFalse => exact hreg.unregistered q id hq
  unsent q id hq := by
    rw [Function.update_apply] at hq ⊢
    split at hq
    case isTrue heq =>
      rw [if_pos heq, heq]
      exact hregistered id hq
    case isFalse hne =>
      rw [if_neg hne]
      exact hreg.unsent q id hq
  entry := hreg.entry
  nodup := hreg.nodup
  handedBy e he := hsub (hreg.handedBy e he)
  handedOnce := hreg.handedOnce

/-- A call that has drawn its id makes its entry. -/
theorem Registry.register (hreg : Registry peers pending tokens d h)
    (htask : (peers p).task = .drawn streamId)
    (hsole : ∀ q, (peers q).task.streamId = some streamId → q = p)
    (hcall : (⟨p, (peers p).calls⟩, streamId) ∈ d)
    (hpending : ∀ conn id, pending' conn id
      = if conn = (peers p).conn ∧ id = streamId
        then some ⟨p, (peers p).calls⟩ else pending conn id) :
    Registry (Function.update peers p
      { peers p with task := .registered streamId }) pending' tokens d h := by
  obtain ⟨hnone, hhanded⟩ := hreg.unregistered p streamId htask
  have hold : ∀ q id, (peers q).task.streamId = some id → q ≠ p →
      ∀ conn, pending' conn id = pending conn id := by
    intro q id hq hne conn
    rw [hpending, if_neg]
    rintro ⟨-, rfl⟩
    exact hne (hsole q hq)
  refine ⟨?_, ?_, ?_, ?_, hreg.nodup, hreg.handedBy, hreg.handedOnce⟩
  · intro conn id call hentry
    have hconn : ∀ q, (Function.update peers p
        { peers p with task := .registered streamId } q).conn
          = (peers q).conn := by
      intro q
      rw [Function.update_apply]
      split
      case isTrue heq => rw [heq]
      case isFalse => rfl
    rw [hpending] at hentry
    rw [hconn]
    split at hentry
    case isTrue heq =>
      obtain ⟨rfl, rfl⟩ := heq
      cases hentry
      exact ⟨hcall, rfl, hhanded⟩
    case isFalse => exact hreg.registered conn id call hentry
  · intro q id hq
    rw [Function.update_apply] at hq
    split at hq
    case isTrue => cases hq
    case isFalse hne =>
      obtain ⟨hnone, hid⟩ := hreg.unregistered q id hq
      refine ⟨fun conn => ?_, hid⟩
      rw [hold q id (congrArg PeerTask.streamId hq) hne, hnone]
  · intro q id hq
    rw [Function.update_apply] at hq ⊢
    split at hq
    case isTrue heq =>
      cases hq
      rw [if_pos heq, heq, hpending, if_pos ⟨rfl, rfl⟩]
      refine ⟨rfl, fun htoken => ?_⟩
      -- what is under way had an entry already
      obtain ⟨call, hentry⟩ := hreg.entry _ htoken
      rw [hnone] at hentry
      cases hentry
    case isFalse hne =>
      rw [if_neg hne, hold q id (congrArg PeerTask.streamId hq) hne]
      exact hreg.unsent q id hq
  · intro t ht
    rw [hpending]
    split
    case isTrue => exact ⟨_, rfl⟩
    case isFalse => exact hreg.entry t ht

/-- An indicator goes out for an entry nothing is under way for. -/
theorem Registry.send {t : Opened} {call : Call}
    (hreg : Registry peers pending tokens d h)
    (htokens : tokens'.Perm (t :: tokens))
    (hentry : pending t.conn t.dedupId = some call) (hfresh : t ∉ tokens)
    (hregistered : ∀ q, (peers q).task = .registered t.dedupId →
      (peers q).conn ≠ t.conn) :
    Registry peers pending tokens' d h where
  registered := hreg.registered
  unregistered := hreg.unregistered
  unsent q id hq := by
    obtain ⟨hcall, htoken⟩ := hreg.unsent q id hq
    refine ⟨hcall, ?_⟩
    rw [htokens.mem_iff, List.mem_cons]
    rintro (rfl | hmem)
    · exact hregistered q hq rfl
    · exact htoken hmem
  entry t' ht' := by
    rcases List.mem_cons.mp (htokens.mem_iff.mp ht') with rfl | hmem
    · exact ⟨call, hentry⟩
    · exact hreg.entry t' hmem
  nodup := htokens.nodup_iff.mpr (hreg.nodup.cons hfresh)
  handedBy := hreg.handedBy
  handedOnce := hreg.handedOnce

/-- A stream is accepted, and its entry removed. -/
theorem Registry.take {t : Opened}
    (hreg : Registry peers pending tokens d h)
    (htokens : tokens.Perm (t :: tokens'))
    (hpending : ∀ conn id, pending' conn id
      = if conn = t.conn ∧ id = t.dedupId then none else pending conn id) :
    Registry peers pending' tokens' d h := by
  obtain ⟨hfresh, hnodup⟩ :=
    List.nodup_cons.mp (htokens.nodup_iff.mp hreg.nodup)
  have hmem : ∀ t', t' ∈ tokens ↔ t' = t ∨ t' ∈ tokens' := fun t' => by
    rw [htokens.mem_iff, List.mem_cons]
  refine ⟨?_, ?_, ?_, ?_, hnodup, hreg.handedBy, hreg.handedOnce⟩
  · intro conn id call hentry
    rw [hpending] at hentry
    split at hentry
    case isTrue => cases hentry
    case isFalse => exact hreg.registered conn id call hentry
  · intro q id hq
    obtain ⟨hnone, hid⟩ := hreg.unregistered q id hq
    refine ⟨?_, hid⟩
    intro conn
    rw [hpending, hnone, ite_self]
  · intro q id hq
    obtain ⟨hentry, htoken⟩ := hreg.unsent q id hq
    rw [hmem, not_or] at htoken
    refine ⟨?_, htoken.2⟩
    rw [hpending, if_neg, hentry]
    rintro ⟨hconn, rfl⟩
    rw [hconn] at htoken
    exact htoken.1 rfl
  · intro t' ht'
    rw [hpending, if_neg]
    · exact hreg.entry t' ((hmem t').mpr (.inr ht'))
    · -- no two tokens are for one id
      rintro ⟨hconn, hid⟩
      have heq : t' = t := by
        obtain ⟨conn, id⟩ := t'
        cases hconn
        cases hid
        rfl
      exact hfresh (heq ▸ ht')

/-- A stream is handed to the call that drew its id. -/
theorem Registry.hand {stream : Opened} {call : Call}
    (hreg : Registry peers pending tokens d h)
    (hcall : (call, stream.dedupId) ∈ d)
    (hnone : ∀ conn, pending conn stream.dedupId = none)
    (hhanded : stream.dedupId ∉ h.map fun h => h.1.dedupId)
    (hdrawn : ∀ q, (peers q).task ≠ .drawn stream.dedupId) :
    Registry peers pending tokens d (h ++ [(stream, call)]) := by
  have hmem : ∀ id, id ∉ h.map (fun h => h.1.dedupId) →
      id ≠ stream.dedupId →
      id ∉ (h ++ [(stream, call)]).map fun h => h.1.dedupId := by
    intro id hid hne
    rw [List.map_append, List.mem_append, not_or]
    exact ⟨hid, fun h => hne (List.mem_singleton.mp h)⟩
  refine ⟨?_, ?_, hreg.unsent, hreg.entry, hreg.nodup, ?_, ?_⟩
  · intro conn id call' hentry
    obtain ⟨hdraw, hconn, hid⟩ := hreg.registered conn id call' hentry
    refine ⟨hdraw, hconn, hmem id hid ?_⟩
    rintro rfl
    rw [hnone] at hentry
    cases hentry
  · intro q id hq
    obtain ⟨hentries, hid⟩ := hreg.unregistered q id hq
    refine ⟨hentries, hmem id hid ?_⟩
    rintro rfl
    exact hdrawn q hq
  · intro e he
    rcases List.mem_append.mp he with he | he
    · exact hreg.handedBy e he
    · rw [List.mem_singleton.mp he]
      exact hcall
  · rw [List.map_append]
    exact hreg.handedOnce.append (List.nodup_singleton _)
      (List.disjoint_singleton.mpr hhanded)

end Calls

section Actions

variable {s : Rendezvous} {d : List (Call × UInt64)}
  {h : List (Opened × Call)} {p : Nat} {streamId : UInt64}

/-- An action that notes nothing. -/
theorem Consistent.kept (hs : Consistent s d h) : Kept d h (s, []) where
  consistent := by simpa [drawn, handed] using hs
  known := nofun

/-- No two peers are in a call with one id. -/
theorem Consistent.sole (hs : Consistent s d h) {q : Nat}
    (hp : (s.peers p).task.streamId = some streamId)
    (hq : (s.peers q).task.streamId = some streamId) : q = p :=
  congrArg Call.peer (hs.draws.owner (hs.peers.holds q streamId hq)
    (hs.peers.holds p streamId hp))

/-- A call that has drawn its id goes on with it. -/
theorem Consistent.keeps_peers (hs : Consistent s d h) {task : PeerTask}
    (hold : (s.peers p).task.streamId = some streamId)
    (hnew : task.streamId = some streamId)
    (hserving : ∀ id stream, task ≠ .serving id stream) :
    Peers (s.setTask p task).peers d := by
  refine hs.peers.update (fun _ he => he) (fun _ he => .inl he) rfl hnew
    (hs.peers.holds p streamId hold) ?_ ?_
  · intro stream hstream
    obtain ⟨hid, hconn⟩ := hs.peers.inbox p stream hstream
    rw [hold] at hid
    obtain ⟨conn, dedupId⟩ := stream
    cases hid
    cases hconn
    rfl
  · intro id stream htask
    exact absurd htask (hserving id stream)

/-- `fetch_add`. -/
theorem Consistent.draw (hs : Consistent s d h)
    (htask : (s.peers p).task = .preparing)
    (hroom : d.length + 1 < 2 ^ 64 - 1) :
    Consistent { s.setTask p (.drawn s.nextDedupStreamId) with
        nextDedupStreamId := s.nextDedupStreamId + 1 }
      (d ++ [(s.call p, s.nextDedupStreamId)]) h := by
  have hcall : ∀ id, (s.call p, id) ∉ d := by
    intro id hid
    exact absurd (hs.peers.preparing _ hid htask) (Nat.lt_irrefl _)
  have hfresh : ∀ call, (call, s.nextDedupStreamId) ∉ d := by
    intro call hmem
    exact absurd (hs.draws.below _ hmem).2 (Nat.lt_irrefl _)
  have hsub : d ⊆ d ++ [(s.call p, s.nextDedupStreamId)] :=
    List.subset_append_left _ _
  refine ⟨hs.draws.draw hcall hroom, ?_, ?_⟩
  · refine hs.peers.update hsub ?_ rfl rfl
      (List.mem_append_right _ (List.mem_singleton_self _)) ?_ nofun
    · intro e he
      refine (List.mem_append.mp he).imp_right fun hmem => ?_
      rw [List.mem_singleton.mp hmem]
      rfl
    · intro stream hstream
      have hid := (hs.peers.inbox p stream hstream).1
      rw [htask] at hid
      cases hid
  · refine hs.registry.update hsub rfl ?_ nofun
    rintro id ⟨⟩
    refine ⟨?_, ?_⟩
    · intro conn
      cases hentry : s.pending conn s.nextDedupStreamId with
      | none => rfl
      | some call =>
          exact absurd (hs.registry.registered _ _ _ hentry).1 (hfresh call)
    · intro hmem
      obtain ⟨e, he, heq⟩ := List.mem_map.mp hmem
      have hdraw := hs.registry.handedBy e he
      rw [heq] at hdraw
      exact hfresh e.2 hdraw

/-- `insert`. -/
theorem Consistent.insert (hs : Consistent s d h)
    (htask : (s.peers p).task = .drawn streamId) :
    Consistent ((s.setTask p (.registered streamId)).setPending
      (s.peers p).conn streamId (some (s.call p))) d h := by
  have hid : (s.peers p).task.streamId = some streamId := by
    rw [htask]
    rfl
  refine ⟨hs.draws, hs.keeps_peers hid rfl nofun, ?_⟩
  exact hs.registry.register htask (fun q => hs.sole hid)
    (hs.peers.holds p streamId hid)
    fun conn id => Rendezvous.pending_setPending ..

/-- The indicator is under way. -/
theorem Rendezvous.tokens_write {wire : List Transit} {conn : Nat}
    (hid : streamId ≠ 0)
    (hwire : wire = s.wire ++ [⟨p, conn, ⟨true, .binary,
      StartDedupIndicator.encode { dedupId := streamId }⟩⟩]) :
    ({ s with wire := wire }.tokens).Perm (⟨conn, streamId⟩ :: s.tokens) := by
  have hopen : wire.filterMap Transit.toOpen
      = s.wire.filterMap Transit.toOpen ++ [⟨conn, streamId⟩] := by
    simp [hwire, List.filterMap_append, Transit.toOpen, indicatorIn_encode]
  have hkeep : List.filter (fun t : Opened => decide (t.dedupId ≠ 0))
      (⟨conn, streamId⟩ :: (s.wire.filterMap Transit.toOpen ++ s.toOpen
        ++ s.inFlight))
      = ⟨conn, streamId⟩ :: s.tokens :=
    List.filter_cons_of_pos (decide_eq_true hid)
  rw [← hkeep]
  refine List.Perm.filter _ ?_
  simp only [hopen, List.append_assoc, List.singleton_append]
  exact List.perm_middle

/-- The indicator goes out. -/
theorem Consistent.write (hs : Consistent s d h)
    (htask : (s.peers p).task = .registered streamId) {wire : List Transit}
    (hwire : wire = s.wire ++ [⟨p, (s.peers p).conn, ⟨true, .binary,
      StartDedupIndicator.encode { dedupId := streamId }⟩⟩]) :
    Consistent { s.setTask p (.waiting streamId) with wire := wire } d h := by
  have hid : (s.peers p).task.streamId = some streamId := by
    rw [htask]
    rfl
  have hne : streamId ≠ 0 :=
    hs.draws.ne_zero (hs.peers.holds p streamId hid)
  obtain ⟨hentry, hfresh⟩ := hs.registry.unsent p streamId htask
  have hleft : Registry (s.setTask p (.waiting streamId)).peers s.pending
      s.tokens d h :=
    hs.registry.update (fun _ he => he) rfl nofun nofun
  refine ⟨hs.draws, hs.keeps_peers hid rfl nofun, ?_⟩
  refine hleft.send (Rendezvous.tokens_write hne hwire) hentry hfresh ?_
  intro q hq
  simp only [Rendezvous.setTask, Rendezvous.setPeer,
    Function.update_apply] at hq
  split at hq
  case isTrue => cases hq
  case isFalse hother =>
    exact absurd (hs.sole hid (congrArg PeerTask.streamId hq)) hother

/-- `rx.await` returns. -/
theorem Consistent.resume (hs : Consistent s d h) {stream : Opened}
    (htask : (s.peers p).task = .waiting streamId)
    (hinbox : (s.peers p).inbox = some stream) :
    Consistent (s.rest p (.serving streamId stream)) d h := by
  have hid : (s.peers p).task.streamId = some streamId := by
    rw [htask]
    rfl
  refine ⟨hs.draws, ?_, ?_⟩
  · refine hs.peers.update (fun _ he => he) (fun _ he => .inl he) rfl rfl
      (hs.peers.holds p streamId hid) nofun ?_
    rintro _ _ ⟨⟩
    obtain ⟨hstream, hconn⟩ := hs.peers.inbox p stream hinbox
    rw [hid] at hstream
    obtain ⟨conn, dedupId⟩ := stream
    cases hstream
    cases hconn
    rfl
  · exact hs.registry.update (fun _ he => he) rfl nofun nofun

theorem PeerTask.exists_streamId {task : PeerTask}
    (h : task.hasReceiver = true) :
    ∃ streamId, task.streamId = some streamId
      ∧ ∀ id stream, task ≠ .serving id stream := by
  cases task <;> simp [hasReceiver, streamId] at h ⊢

/-- `tx.send`, where the entry of the stream has just been removed. -/
theorem Consistent.hand (hs : Consistent s d h) {stream : Opened}
    {tx : Call} (hcall : (tx, stream.dedupId) ∈ d)
    (hconn : (s.peers tx.peer).conn = stream.conn)
    (hnone : ∀ conn, s.pending conn stream.dedupId = none)
    (hhanded : stream.dedupId ∉ h.map fun h => h.1.dedupId)
    (hdrawn : ∀ q, (s.peers q).task ≠ .drawn stream.dedupId) :
    Kept d h (s.send tx stream) := by
  unfold Rendezvous.send
  dsimp only
  split
  case isFalse => exact hs.kept
  case isTrue hreceives =>
    obtain ⟨hcalls, hreceiver⟩ := hreceives
    obtain ⟨id, hid, hserving⟩ := PeerTask.exists_streamId hreceiver
    have htx : (⟨tx.peer, (s.peers tx.peer).calls⟩ : Call) = tx := by
      rw [hcalls]
    have hholds := hs.peers.holds tx.peer id hid
    -- the call whose channel this is has drawn the id of the stream
    obtain rfl : id = stream.dedupId :=
      hs.draws.once (htx ▸ hholds) hcall
    have hreg := hs.registry.hand hcall hnone hhanded hdrawn
    refine ⟨?_, by simp⟩
    rw [show drawn [.handed stream tx] = [] from rfl, List.append_nil]
    refine ⟨hs.draws, ?_, ?_⟩
    · refine hs.peers.update (fun _ he => he) (fun _ he => .inl he) rfl hid
        hholds ?_ ?_
      · rintro _ ⟨⟩
        rw [hconn]
      · intro id' stream' htask
        exact absurd htask (hserving id' stream')
    · exact hreg.update (fun _ he => he) rfl
        (hreg.unregistered tx.peer) (hreg.unsent tx.peer)

/-- A stream that is accepted has left what is under way. -/
theorem Rendezvous.tokens_accept {stream : Opened}
    (hmem : stream ∈ s.inFlight) (hid : stream.dedupId ≠ 0) :
    s.tokens.Perm
      (stream :: { s with inFlight := s.inFlight.erase stream }.tokens) := by
  have hkeep : List.filter (fun t : Opened => decide (t.dedupId ≠ 0))
      (stream :: (s.wire.filterMap Transit.toOpen ++ s.toOpen
        ++ s.inFlight.erase stream))
      = stream :: { s with inFlight := s.inFlight.erase stream }.tokens :=
    List.filter_cons_of_pos (decide_eq_true hid)
  rw [← hkeep]
  refine List.Perm.filter _ ?_
  exact ((List.perm_cons_erase hmem).append_left _).trans List.perm_middle

/-- A stream with an id is accepted. -/
theorem Consistent.accept (hs : Consistent s d h) {stream : Opened}
    (hmem : stream ∈ s.inFlight) (hid : stream.dedupId ≠ 0)
    (newcomer : Nat) :
    Kept d h ({ s with inFlight := s.inFlight.erase stream }.actAccept stream
      newcomer) := by
  have htokens := Rendezvous.tokens_accept hmem hid
  obtain ⟨tx, htx⟩ := hs.registry.entry stream
    (htokens.mem_iff.mpr List.mem_cons_self)
  obtain ⟨hcall, hconn, hhanded⟩ := hs.registry.registered _ _ _ htx
  have hremoved : ∀ conn id, ({ s with
      inFlight := s.inFlight.erase stream }.setPending stream.conn
        stream.dedupId none).pending conn id
      = if conn = stream.conn ∧ id = stream.dedupId then none
        else s.pending conn id :=
    fun conn id => Rendezvous.pending_setPending ..
  have htaken : Consistent ({ s with
      inFlight := s.inFlight.erase stream }.setPending stream.conn
        stream.dedupId none) d h :=
    ⟨hs.draws, hs.peers, hs.registry.take htokens hremoved⟩
  rw [Rendezvous.actAccept, if_neg hid]
  simp only [htx]
  refine htaken.hand hcall hconn ?_ hhanded ?_
  · -- another connection would have another peer
    intro conn
    rw [hremoved]
    split
    case isTrue => rfl
    case isFalse hne =>
      cases hentry : s.pending conn stream.dedupId with
      | none => rfl
      | some other =>
          obtain ⟨hother, hconn', -⟩ := hs.registry.registered _ _ _ hentry
          rw [hs.draws.owner hother hcall, hconn] at hconn'
          exact absurd ⟨hconn'.symm, rfl⟩ hne
  · intro q hq
    have hnone := (hs.registry.unregistered q _ hq).1 stream.conn
    rw [htx] at hnone
    cases hnone

end Actions

-- ============================================================ every action

/-- A frame of the game: the client does not take it for an indicator. -/
def Harmless : StreamAction → Prop
  | .forward _ frame => frame.opcode.startsMessage = true →
      frame.fin = true →
      ¬ StartDedupIndicator.magicNumber <+: frame.payload
  | _ => True

section Step

variable {s : Rendezvous} {d : List (Call × UInt64)}
  {h : List (Opened × Call)}

theorem Quiet.forward {p : Nat} {frame : Frame}
    (hframe : Harmless (.forward p frame)) :
    Quiet s (s.actForward p frame) := by
  unfold Rendezvous.actForward
  split
  case isFalse => exact .refl s
  case isTrue =>
    have hopen : Transit.toOpen ⟨p, (s.peers p).conn, frame⟩ = none := by
      rw [Transit.toOpen, indicatorIn_eq_none hframe]
      rfl
    refine of_tokens (List.Perm.of_eq ?_).subperm rfl rfl rfl
    simp [Rendezvous.tokens, List.filterMap_append, hopen]

theorem perm_cons_eraseP {α : Type} {test : α → Bool} {l : List α} {a : α}
    (h : l.find? test = some a) : l.Perm (a :: l.eraseP test) := by
  induction l with
  | nil => cases h
  | cons b l ih =>
      rw [List.find?_cons] at h
      cases hb : test b with
      | true =>
          simp only [hb, Option.some.injEq] at h
          rw [List.eraseP_cons_of_pos hb, h]
      | false =>
          simp only [hb] at h
          rw [List.eraseP_cons_of_neg (by simp [hb])]
          exact ((ih h).cons b).trans (List.Perm.swap ..)

theorem Quiet.receive (p : Nat) : Quiet s (s.actReceive p) := by
  unfold Rendezvous.actReceive
  split
  case h_1 => exact .refl s
  case h_2 transit hfind =>
    refine of_tokens (List.Perm.subperm (List.Perm.filter _ ?_)) rfl rfl rfl
    -- the indicator, if it is one, is now a stream to be opened
    have hwire := (perm_cons_eraseP hfind).filterMap Transit.toOpen
    have hcons : (transit :: s.wire.eraseP fun t => t.peer = p).filterMap
        Transit.toOpen = transit.toOpen.toList
          ++ (s.wire.eraseP fun t => t.peer = p).filterMap
            Transit.toOpen := by
      cases h : transit.toOpen <;> simp [h]
    rw [hcons] at hwire
    refine List.Perm.append_right _ ?_
    dsimp only
    rw [← List.append_assoc]
    refine List.perm_append_comm.trans ?_
    rw [← List.append_assoc]
    exact hwire.symm.append_right _

theorem Quiet.openStream {stream : Opened} (hmem : stream ∈ s.toOpen) :
    Quiet s { s with
      toOpen := s.toOpen.erase stream
      inFlight := s.inFlight ++ [stream] } := by
  refine of_tokens (List.Perm.subperm (List.Perm.filter _ ?_)) rfl rfl rfl
  dsimp only
  rw [List.append_assoc, List.append_assoc]
  refine List.Perm.append_left _ ?_
  refine List.Perm.trans ?_ ((List.perm_cons_erase hmem).symm.append_right _)
  rw [← List.append_assoc]
  exact List.perm_append_comm

theorem Quiet.fail (p : Nat) : Quiet s (s.actFail p) := by
  unfold Rendezvous.actFail
  split
  case h_1 => exact .refl s
  case h_2 => exact .refl s
  case h_3 => exact .rest nofun rfl nofun

theorem Quiet.startDedup (p : Nat) : Quiet s (s.actStartDedup p) := by
  unfold Rendezvous.actStartDedup
  split
  case h_1 =>
    exact setPeer ⟨nofun, rfl, rfl, fun _ => rfl, Nat.le_succ _,
      fun _ => Nat.lt_succ_self _⟩
  case h_2 => exact .refl s

theorem Quiet.connect (conn : Nat) :
    Quiet s { s with inFlight := s.inFlight ++ [⟨conn, 0⟩] } := by
  refine of_tokens (List.Perm.of_eq ?_).subperm rfl rfl rfl
  simp [Rendezvous.tokens]

/-- A stream is accepted that has no id. -/
theorem Quiet.newPeer {stream : Opened} {newcomer : Nat}
    (hid : stream.dedupId = 0) :
    ∃ s', { s with inFlight := s.inFlight.erase stream }.actAccept stream
        newcomer = (s', []) ∧ Quiet s s' := by
  have htaken : Quiet s { s with inFlight := s.inFlight.erase stream } := by
    refine of_tokens (List.Sublist.subperm ?_) rfl rfl rfl
    exact (List.erase_sublist.append_left _).filter _
  rw [Rendezvous.actAccept, if_pos hid]
  split
  case h_1 habsent =>
    refine ⟨_, rfl, rfl, rfl, htaken.tokens, ?_⟩
    intro q
    simp only [Rendezvous.setPeer, Function.update_apply]
    split
    case isTrue heq =>
      subst heq
      exact .inr ⟨nofun, rfl, rfl, fun h => absurd habsent h, Nat.le_refl _,
        nofun⟩
    case isFalse => exact .inl rfl
  case h_2 => exact ⟨_, rfl, htaken⟩

/-- One action, as long as there are ids left. -/
theorem Consistent.act (hs : Consistent s d h) {action : StreamAction}
    (haction : Harmless action)
    (hroom : (d ++ drawn (s.act action).2).length < 2 ^ 64 - 1) :
    Kept d h (s.act action) := by
  have hquiet : ∀ {s'}, Quiet s s' → Kept d h (s', []) :=
    fun hq => (hq.keeps hs).kept
  cases action with
  | connect conn => exact hquiet (.connect conn)
  | accept stream newcomer =>
      simp only [Rendezvous.act]
      split
      case isTrue hstream =>
        by_cases hid : stream.dedupId = 0
        · obtain ⟨s', heq, hq⟩ := Quiet.newPeer hid
          rw [heq]
          exact hquiet hq
        · exact hs.accept hstream.2 hid newcomer
      case isFalse => exact hs.kept
  | stop conn =>
      exact hquiet (.of_tokens (List.Subperm.refl _) rfl rfl rfl)
  | forward p frame => exact hquiet (.forward haction)
  | startDedup p => exact hquiet (.startDedup p)
  | abandon p =>
      simp only [Rendezvous.act]
      split
      case isTrue => exact hquiet (.rest nofun rfl nofun)
      case isFalse => exact hs.kept
  | draw p =>
      simp only [Rendezvous.act, Rendezvous.actDraw] at hroom ⊢
      split
      case h_1 htask =>
        rw [htask] at hroom
        refine ⟨?_, by simp⟩
        rw [show handed [.drew (s.call p) s.nextDedupStreamId] = [] from rfl,
          List.append_nil]
        refine hs.draw htask ?_
        simpa [drawn] using hroom
      case h_2 => exact hs.kept
  | insert p =>
      simp only [Rendezvous.act, Rendezvous.actInsert]
      split
      case h_1 htask => exact (hs.insert htask).kept
      case h_2 => exact hs.kept
  | write p =>
      simp only [Rendezvous.act, Rendezvous.actWrite]
      split
      case h_1 htask => exact (hs.write htask rfl).kept
      case h_2 => exact hs.kept
  | resume p =>
      simp only [Rendezvous.act, Rendezvous.actResume]
      split
      case h_1 htask hinbox => exact (hs.resume htask hinbox).kept
      case h_2 => exact hs.kept
  | finish p =>
      simp only [Rendezvous.act]
      split
      case h_1 => exact hquiet (.rest nofun rfl nofun)
      case h_2 => exact hs.kept
  | fail p => exact hquiet (.fail p)
  | receive p => exact hquiet (.receive p)
  | openStream stream =>
      simp only [Rendezvous.act]
      split
      case isTrue hmem => exact hquiet (.openStream hmem)
      case isFalse => exact hs.kept

end Step

-- ============================================================ the statement

/-- Nothing has happened. -/
theorem consistent_new : Consistent .new [] [] where
  draws := ⟨rfl, nofun, List.nodup_nil, List.nodup_nil⟩
  peers := ⟨nofun, nofun, nofun, nofun, nofun⟩
  registry := ⟨nofun, nofun, nofun, nofun, List.nodup_nil, nofun,
    List.nodup_nil⟩

/-- What holds of a run so far, if it kept to the conditions. -/
def RunKept (s : Rendezvous) (past : List StreamAction)
    (notes : List StreamNote) : Prop :=
  (∀ action ∈ past, Harmless action) → (drawn notes).length < 2 ^ 64 - 1 →
    Consistent s (drawn notes) (handed notes)
    ∧ ∀ stream, .unknownId stream ∉ notes

theorem RunKept.step {s s' : Rendezvous} {past : List StreamAction}
    {notes out : List StreamNote} {action : StreamAction}
    (h : RunKept s past notes) (hstep : s.step action = some (s', out)) :
    RunKept s' (past ++ [action]) (notes ++ out) := by
  have hact : s.act action = (s', out) := Option.some.inj hstep
  intro hgame hdraws
  rw [drawn_append] at hdraws
  rw [List.forall_mem_append] at hgame
  have hfewer : (drawn notes).length < 2 ^ 64 - 1 := by
    rw [List.length_append] at hdraws
    omega
  obtain ⟨hs, hknown⟩ := h hgame.1 hfewer
  have hkept : Kept (drawn notes) (handed notes) (s', out) := by
    have hone := hs.act (hgame.2 action (List.mem_singleton_self _))
    rw [hact] at hone
    exact hone hdraws
  rw [drawn_append, handed_append]
  refine ⟨hkept.consistent, fun stream hmem => ?_⟩
  rcases List.mem_append.mp hmem with hmem | hmem
  · exact hknown stream hmem
  · exact hkept.known stream hmem

/-- Any number of peers on any number of connections, in any
interleaving, with calls that fail at any await: while fewer than
2^64 - 1 ids are drawn and no message of the game starts with the magic
number, the id of every stream that is accepted is known; no id is 0;
and a stream goes, if to anyone, to the one call that drew its id, and
no two streams go for one id. -/
theorem dedup_stream_rendezvous {actions : List StreamAction}
    {s : Rendezvous} {notes : List StreamNote}
    (hrun : Machine.run Rendezvous.step .new actions = some (s, notes))
    (hgame : ∀ action ∈ actions, Harmless action)
    (hdraws : (drawn notes).length < 2 ^ 64 - 1) :
    (∀ stream, .unknownId stream ∉ notes)
    ∧ (∀ call streamId, .drew call streamId ∈ notes → streamId ≠ 0)
    ∧ (∀ stream call, .handed stream call ∈ notes →
        ∀ other, .drew other stream.dedupId ∈ notes ↔ other = call)
    ∧ ((handed notes).map fun h => h.1.dedupId).Nodup
    ∧ ∀ p streamId stream, (s.peers p).task = .serving streamId stream →
        stream = ⟨(s.peers p).conn, streamId⟩
        ∧ .drew (s.call p) streamId ∈ notes := by
  have hkept : RunKept s actions notes :=
    Machine.run_history (fun _ _ _ _ _ _ h hstep => h.step hstep)
      (fun _ _ => ⟨consistent_new, nofun⟩) hrun
  obtain ⟨hs, hknown⟩ := hkept hgame hdraws
  refine ⟨hknown, ?_, ?_, hs.registry.handedOnce, ?_⟩
  · intro call streamId hdrew
    exact hs.draws.ne_zero (mem_drawn.mpr hdrew)
  · intro stream call hhanded other
    have hcall := hs.registry.handedBy _ (mem_handed.mpr hhanded)
    constructor
    · intro hother
      exact hs.draws.owner (mem_drawn.mpr hother) hcall
    · rintro rfl
      exact mem_drawn.mp hcall
  · intro p streamId stream htask
    have hid : (s.peers p).task.streamId = some streamId := by
      rw [htask]
      rfl
    exact ⟨hs.peers.serving p streamId stream htask,
      mem_drawn.mp (hs.peers.holds p streamId hid)⟩

/-- Two peers on two connections; the second draws first and is answered
last, and the first is gone when its stream comes in. -/
def twoPeers : List StreamAction :=
  [.connect 0, .connect 1, .accept ⟨0, 0⟩ 0, .accept ⟨1, 0⟩ 1,
    .forward 0 ⟨true, .binary, [1]⟩, .startDedup 0, .startDedup 1, .draw 1,
    .draw 0, .insert 0, .write 0, .insert 1, .write 1, .receive 1,
    .receive 0, .receive 0, .openStream ⟨0, 2⟩, .openStream ⟨1, 1⟩, .fail 0,
    .accept ⟨0, 2⟩ 2, .accept ⟨1, 1⟩ 2, .resume 1]

/-- The second peer gets its stream, and the first one's is nobody's. -/
theorem dedup_stream_rendezvous_twoPeers :
    ∃ s, Machine.run Rendezvous.step .new twoPeers
        = some (s, [.drew ⟨1, 1⟩ 1, .drew ⟨0, 1⟩ 2,
            .handed ⟨1, 1⟩ ⟨1, 1⟩])
      ∧ (s.peers 1).task = .serving 1 ⟨1, 1⟩
      ∧ ∀ stream, .unknownId stream
          ∉ [StreamNote.drew ⟨1, 1⟩ 1, .drew ⟨0, 1⟩ 2,
              .handed ⟨1, 1⟩ ⟨1, 1⟩] := by
  have hrun : Machine.run Rendezvous.step .new twoPeers
      = some (_, [.drew ⟨1, 1⟩ 1, .drew ⟨0, 1⟩ 2,
          .handed ⟨1, 1⟩ ⟨1, 1⟩]) := rfl
  refine ⟨_, hrun, rfl, ?_⟩
  refine (dedup_stream_rendezvous hrun ?_ ?_).1
  · simp [twoPeers, Harmless, StartDedupIndicator.magicNumber]
  · decide

end Nebula

end FactoryCacher
