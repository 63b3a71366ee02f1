/-
The client side of the Nebula proxy (dsp-nebula-cacher/src/proxy/
client_proxy.rs): in the place of an indicator, the packet it stands for
is rebuilt and forwarded to the game while it comes in.

# Two tasks and a channel

`reconstruct_packet` runs as a task of its own and sends fragments into
a channel; `forward_deduped_fragments` takes them out and writes frames.
The channel keeps the order; the receiver learns that the sender is gone
when everything sent has been received, and of nothing else: an error of
the sender is logged there and not passed on. The sender learns that the
receiver is gone from a failing `send`.

The sender is a program (`reconstructPacket`), in the style of
`reconstructData`. Its channel is part of the state, so what was sent
before a fault is kept. The receiver is a state machine (`Forwarder`)
driven by what it receives; whether a write succeeds is part of the
input. Which inputs a channel can deliver is `Delivers`.

How the stream was opened and the description read is an input of the
sender: the description, or an error. The size of what was transferred
and the log messages are left out.
-/
import FactoryCacher.Lib.Faults
import FactoryCacher.Lib.Machine
import FactoryCacher.Lib.WebSocket
import FactoryCacher.Nebula.Protocol

namespace FactoryCacher

namespace Nebula

open WebSocket

-- =============================================================== the sender

/-- The sender's side of the channel: what went in, and after how many
sends the receiver is gone, if it ever is. -/
structure Channel where
  sent : List Bytes
  goneAfter : Option Nat

/-- A new channel. -/
def Channel.new (goneAfter : Option Nat) : Channel where
  sent := []
  goneAfter := goneAfter

/-- Whether the receiver is gone. -/
def Channel.isGone (channel : Channel) : Bool :=
  match channel.goneAfter with
  | none => false
  | some n => n ≤ channel.sent.length

/-- A program next to its channel. -/
abbrev SendM (σ : Type) := ExceptT Fault (StateM (σ × Channel))

/-- `out_sink.send`. -/
def sendFragment {σ : Type} (fragment : Bytes) : SendM σ Unit := do
  let state ← get
  if state.2.isGone then throw Fault.send
  else set (state.1, { state.2 with sent := state.2.sent ++ [fragment] })

end Nebula

/-- A provider next to a state it does not touch. -/
def ChunkProvider.beside {σ : Type} (ω : Type)
    (provider : ChunkProvider (ExceptT Fault (StateM σ))) :
    ChunkProvider (ExceptT Fault (StateM (σ × ω))) where
  prefetch keys := Faults.beside ω (provider.prefetch keys)
  getChunk key := Faults.beside ω (provider.getChunk key)

namespace Nebula

open WebSocket

/-- `reconstruct_packet`; `description` is what came over the stream. -/
def reconstructPacket {σ : Type} (xx : XxHash32)
    (provider : ChunkProvider (ExceptT Fault (StateM σ))) (fuel : Nat)
    (description : Except Fault DedupedPacketDescription) :
    SendM σ Unit := do
  let packetDesc ← (ExceptT.mk (pure description) : SendM σ _)
  packetDesc.packet.reconstruct xx (provider.beside Channel) sendFragment
    fuel

-- ============================================================= the receiver

inductive ForwardStatus
  | running
  | done
  /-- a write failed -/
  | failed
  deriving DecidableEq

/-- The variables of `forward_deduped_fragments`. -/
structure Forwarder where
  firstFrame : Bool
  lastBytes : Option Bytes
  status : ForwardStatus

inductive ForwardEvent
  /-- a fragment is received; `written` says whether a write that follows
  succeeds -/
  | recv (data : Bytes) (written : Bool)
  /-- the channel is closed -/
  | closed (written : Bool)

namespace Forwarder

def new : Forwarder where
  firstFrame := true
  lastBytes := none
  status := .running

def opCode (s : Forwarder) : OpCode :=
  if s.firstFrame then .binary else .continuation

/-- One turn of the loop, or what follows it. -/
def step (s : Forwarder) (event : ForwardEvent) :
    Option (Forwarder × List Frame) :=
  match s.status, s.lastBytes with
  | .running, none =>
      match event with
      | .recv data _ => some ({ s with lastBytes := some data }, [])
      | .closed _ => some ({ s with status := .done }, [])
  | .running, some lastBytes =>
      match event with
      | .recv data true =>
          some ({ firstFrame := false, lastBytes := some data
                  status := .running }, [⟨false, s.opCode, lastBytes⟩])
      | .closed true =>
          some ({ s with lastBytes := none, status := .done },
            [⟨true, s.opCode, lastBytes⟩])
      | .recv _ false | .closed false =>
          some ({ s with lastBytes := none, status := .failed }, [])
  | _, _ => none

end Forwarder

/-- The fragments received. -/
def received : List ForwardEvent → List Bytes
  | [] => []
  | .recv data _ :: events => data :: received events
  | .closed _ :: events => received events

/-- What a channel delivers of a sender that ended with `outcome` and
had sent `sent`: the fragments in order, and the end only after all of
them, in which case the receiver was there to the end. -/
structure Delivers (outcome : Except Fault Unit) (sent : List Bytes)
    (events : List ForwardEvent) : Prop where
  inOrder : received events <+: sent
  closed : ∀ written, .closed written ∈ events →
    received events = sent ∧ outcome ≠ .error .send

/-- `forward_deduped_fragments` where every write succeeds: the frames
written for the fragments of a sender. -/
def forwardFragments (fragments : List Bytes) : List Frame :=
  match Machine.run Forwarder.step .new
      (fragments.map (ForwardEvent.recv · true) ++ [.closed true]) with
  | some (_, frames) => frames
  | none => []

-- ============================================================ the copy loop

/-- The fragments of the packet an indicator stands for, as
`reconstruct_packet` sends them; `answer` is what the server says on the
stream of an id. -/
def rebuildPacket {σ : Type} (xx : XxHash32)
    (provider : ChunkProvider (ExceptT Fault (StateM σ))) (fuel : Nat)
    (env : σ) (answer : Except Fault DedupedPacketDescription) :
    Except Fault Unit × List Bytes :=
  let run := (reconstructPacket xx provider fuel answer).run (env, .new none)
  (run.1, run.2.2.sent)

/-- The test of `copy_with_dedup`. -/
def indicatorIn (frame : Frame) : Option StartDedupIndicator :=
  if frame.opcode.startsMessage && frame.fin then
    StartDedupIndicator.decode frame.payload
  else none

/-- An indicator in a frame of its own is seen. -/
theorem indicatorIn_encode (indicator : StartDedupIndicator) :
    indicatorIn ⟨true, .binary, indicator.encode⟩ = some indicator :=
  indicator.decode_encode

/-- A frame without the magic number is not taken for one. -/
theorem indicatorIn_eq_none {frame : Frame}
    (h : frame.opcode.startsMessage = true → frame.fin = true →
      ¬ StartDedupIndicator.magicNumber <+: frame.payload) :
    indicatorIn frame = none := by
  unfold indicatorIn
  split
  case isTrue hmessage =>
    rw [Bool.and_eq_true] at hmessage
    exact StartDedupIndicator.decode_eq_none (h hmessage.1 hmessage.2)
  case isFalse => rfl

/-- The loop of `copy_with_dedup`: the frames written for one frame read,
where every write succeeds. -/
def copyFrame {σ : Type} (xx : XxHash32)
    (provider : ChunkProvider (ExceptT Fault (StateM σ))) (fuel : Nat)
    (env : σ) (answer : UInt64 → Except Fault DedupedPacketDescription)
    (frame : Frame) : List Frame :=
  match indicatorIn frame with
  | some indicator =>
      forwardFragments (rebuildPacket xx provider fuel env
        (answer indicator.dedupId)).2
  | none => [frame]

end Nebula

end FactoryCacher
