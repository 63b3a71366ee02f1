/-
How the stream a client opens for a deduplicated packet finds the call
that waits for it (dsp-nebula-cacher/src/proxy/server_proxy.rs and
client_proxy.rs).

# Who takes part

One server process, with any number of QUIC connections. On each runs a
loop that accepts streams (`run_server_proxy`); the first number on a
stream says what it is for. 0 is a new peer, which gets a task of its
own (`proxy_server`); anything else is the id of a packet, and the
stream is handed to the `dedup_packet` that drew it, by way of a map of
the connection. On the other side of a connection is a client, which
reads frames from the streams of its peers and opens a stream for every
indicator among them.

An action is one stretch of one of these between two points where
another can get in between: two awaits, or two accesses to what is
shared. `fetch_add` and `insert` are therefore two actions. An await
that fails, or at which the task is cancelled, is `fail`; a frame whose
write fails after all of it went out is `write` and then `fail`.

# What is left out

What is in a packet, and so everything `dedup_packet` does with it: all
of that is `preparing` and `serving`. Frames that go from the client to
the game server carry no indicators. Streams are accepted in any order
and not only in the order they were opened in.
-/
import FactoryCacher.Lib.Machine
import FactoryCacher.Lib.WebSocket
import FactoryCacher.Nebula.ClientProxy
import Mathlib.Logic.Function.Basic

namespace FactoryCacher

namespace Nebula

open WebSocket

/-- A call of `dedup_packet`: the peer it is for, and how many there
were for that peer before. Also the sender of its oneshot channel. -/
structure Call where
  peer : Nat
  number : Nat
  deriving DecidableEq

/-- A stream a client opened: on which connection, and the number it
wrote first. -/
structure Opened where
  conn : Nat
  dedupId : UInt64
  deriving DecidableEq

/-- Where the `copy_with_dedup` of a peer is. -/
inductive PeerTask
  /-- there is no such peer yet -/
  | absent
  | copying
  /-- in `dedup_packet`, receiving or deconstructing the packet -/
  | preparing
  /-- after `fetch_add` -/
  | drawn (streamId : UInt64)
  /-- after `insert`, writing the indicator -/
  | registered (streamId : UInt64)
  /-- at `rx.await` -/
  | waiting (streamId : UInt64)
  /-- sending on the stream it was handed -/
  | serving (streamId : UInt64) (stream : Opened)
  /-- returned or cancelled -/
  | ended
  deriving DecidableEq

/-- The id drawn by the call a peer is in. -/
def PeerTask.streamId : PeerTask → Option UInt64
  | .drawn streamId => some streamId
  | .registered streamId => some streamId
  | .waiting streamId => some streamId
  | .serving streamId _ => some streamId
  | _ => none

/-- Whether the receiver of the call's channel is still there. -/
def PeerTask.hasReceiver : PeerTask → Bool
  | .drawn _ => true
  | .registered _ => true
  | .waiting _ => true
  | _ => false

structure Peer where
  conn : Nat
  /-- how many calls there were before this one -/
  calls : Nat
  task : PeerTask
  /-- what is in the channel of the call -/
  inbox : Option Opened

/-- A frame on the stream of a peer, on its way to the client. -/
structure Transit where
  peer : Nat
  conn : Nat
  frame : Frame

/-- The stream the client opens for a frame, if it opens one. -/
def Transit.toOpen (transit : Transit) : Option Opened :=
  (indicatorIn transit.frame).map fun indicator =>
    { conn := transit.conn, dedupId := indicator.dedupId }

structure Rendezvous where
  /-- `NEXT_DEDUP_STREAM_ID` -/
  nextDedupStreamId : UInt64
  peers : Nat → Peer
  /-- `pending_dedup_streams` of each connection -/
  pending : Nat → UInt64 → Option Call
  /-- the connections whose `run_server_proxy` has returned -/
  stopped : List Nat
  wire : List Transit
  /-- the `reconstruct_packet`s that have not opened their stream yet -/
  toOpen : List Opened
  /-- the streams opened and not accepted yet -/
  inFlight : List Opened

inductive StreamAction
  /-- a client opens the stream of a new peer -/
  | connect (conn : Nat)
  /-- a stream is accepted; `newcomer` is the peer, if it is one -/
  | accept (stream : Opened) (newcomer : Nat)
  /-- accepting fails -/
  | stop (conn : Nat)
  /-- a frame is passed on -/
  | forward (peer : Nat) (frame : Frame)
  | startDedup (peer : Nat)
  /-- "New WS message started before old was finished" -/
  | abandon (peer : Nat)
  | draw (peer : Nat)
  | insert (peer : Nat)
  | write (peer : Nat)
  | resume (peer : Nat)
  | finish (peer : Nat)
  | fail (peer : Nat)
  /-- the client reads a frame -/
  | receive (peer : Nat)
  /-- the client opens the stream for an indicator -/
  | openStream (stream : Opened)

inductive StreamNote
  | drew (call : Call) (streamId : UInt64)
  | handed (stream : Opened) (call : Call)
  /-- "Client sent dedup stream with unknown id" -/
  | unknownId (stream : Opened)
  deriving DecidableEq

namespace Rendezvous

/-- The server is started. -/
def new : Rendezvous where
  nextDedupStreamId := 1
  peers := fun _ => { conn := 0, calls := 0, task := .absent, inbox := none }
  pending := fun _ _ => none
  stopped := []
  wire := []
  toOpen := []
  inFlight := []

def setPeer (s : Rendezvous) (p : Nat) (peer : Peer) : Rendezvous :=
  { s with peers := Function.update s.peers p peer }

def setTask (s : Rendezvous) (p : Nat) (task : PeerTask) : Rendezvous :=
  s.setPeer p { s.peers p with task := task }

/-- The peer's call has returned or was dropped, and with it its
receiver. -/
def rest (s : Rendezvous) (p : Nat) (task : PeerTask) : Rendezvous :=
  s.setPeer p { s.peers p with task := task, inbox := none }

/-- The call a peer is in. -/
def call (s : Rendezvous) (p : Nat) : Call where
  peer := p
  number := (s.peers p).calls

/-- Insert into the map of a connection, or remove from it. -/
def setPending (s : Rendezvous) (conn : Nat) (dedupId : UInt64)
    (tx : Option Call) : Rendezvous :=
  { s with
    pending := Function.update s.pending conn
      (Function.update (s.pending conn) dedupId tx) }

/-- `tx.send`. -/
def send (s : Rendezvous) (tx : Call) (stream : Opened) :
    Rendezvous × List StreamNote :=
  let peer := s.peers tx.peer
  if peer.calls = tx.number ∧ peer.task.hasReceiver then
    (s.setPeer tx.peer { peer with inbox := some stream },
      [.handed stream tx])
  else (s, [])

/-- The loop of `run_server_proxy`, for a stream it accepted. -/
def actAccept (s : Rendezvous) (stream : Opened) (newcomer : Nat) :
    Rendezvous × List StreamNote :=
  if stream.dedupId = 0 then
    match (s.peers newcomer).task with
    | .absent =>
        (s.setPeer newcomer { s.peers newcomer with
          conn := stream.conn, task := .copying, inbox := none }, [])
    | _ => (s, [])
  else
    match s.pending stream.conn stream.dedupId with
    | none =>
        ({ s with stopped := stream.conn :: s.stopped }, [.unknownId stream])
    | some tx =>
        (s.setPending stream.conn stream.dedupId none).send tx stream

/-- Between `fetch_add` and `insert`. -/
def actDraw (s : Rendezvous) (p : Nat) : Rendezvous × List StreamNote :=
  match (s.peers p).task with
  | .preparing =>
      ({ s.setTask p (.drawn s.nextDedupStreamId) with
          nextDedupStreamId := s.nextDedupStreamId + 1 },
        [.drew (s.call p) s.nextDedupStreamId])
  | _ => (s, [])

def actInsert (s : Rendezvous) (p : Nat) : Rendezvous :=
  match (s.peers p).task with
  | .drawn streamId =>
      (s.setTask p (.registered streamId)).setPending (s.peers p).conn
        streamId (some (s.call p))
  | _ => s

/-- The indicator goes out. -/
def actWrite (s : Rendezvous) (p : Nat) : Rendezvous :=
  match (s.peers p).task with
  | .registered streamId =>
      { s.setTask p (.waiting streamId) with
        wire := s.wire ++ [{
          peer := p
          conn := (s.peers p).conn
          frame := ⟨true, .binary,
            StartDedupIndicator.encode { dedupId := streamId }⟩ }] }
  | _ => s

/-- `rx.await` returns. -/
def actResume (s : Rendezvous) (p : Nat) : Rendezvous :=
  match (s.peers p).task, (s.peers p).inbox with
  | .waiting streamId, some stream => s.rest p (.serving streamId stream)
  | _, _ => s

/-- A frame is passed on, by the loop of `copy_with_dedup` or the one of
`dedup_packet`. -/
def actForward (s : Rendezvous) (p : Nat) (frame : Frame) : Rendezvous :=
  if (s.peers p).task = .copying ∨ (s.peers p).task = .preparing then
    { s with
      wire := s.wire ++ [{
        peer := p, conn := (s.peers p).conn, frame := frame }] }
  else s

/-- `dedup_packet` begins. -/
def actStartDedup (s : Rendezvous) (p : Nat) : Rendezvous :=
  match (s.peers p).task with
  | .copying => s.setPeer p { s.peers p with
      calls := (s.peers p).calls + 1, task := .preparing, inbox := none }
  | _ => s

/-- An await fails, or the task is cancelled at one. There is none
between `fetch_add` and `insert`. -/
def actFail (s : Rendezvous) (p : Nat) : Rendezvous :=
  match (s.peers p).task with
  | .absent => s
  | .drawn _ => s
  | _ => s.rest p .ended

/-- The client reads the next frame of a peer. -/
def actReceive (s : Rendezvous) (p : Nat) : Rendezvous :=
  match s.wire.find? (·.peer = p) with
  | none => s
  | some transit =>
      { s with
        wire := s.wire.eraseP (·.peer = p)
        toOpen := s.toOpen ++ transit.toOpen.toList }

/-- One action; one that cannot happen where it is does nothing. -/
def act (s : Rendezvous) : StreamAction → Rendezvous × List StreamNote
  | .connect conn =>
      ({ s with inFlight := s.inFlight ++ [{ conn := conn, dedupId := 0 }] },
        [])
  | .accept stream newcomer =>
      if stream.conn ∉ s.stopped ∧ stream ∈ s.inFlight then
        { s with inFlight := s.inFlight.erase stream }.actAccept stream
          newcomer
      else (s, [])
  | .stop conn => ({ s with stopped := conn :: s.stopped }, [])
  | .forward p frame => (s.actForward p frame, [])
  | .startDedup p => (s.actStartDedup p, [])
  | .abandon p =>
      (if (s.peers p).task = .preparing then s.rest p .copying else s, [])
  | .draw p => s.actDraw p
  | .insert p => (s.actInsert p, [])
  | .write p => (s.actWrite p, [])
  | .resume p => (s.actResume p, [])
  | .finish p =>
      match (s.peers p).task with
      | .serving _ _ => (s.rest p .copying, [])
      | _ => (s, [])
  | .fail p => (s.actFail p, [])
  | .receive p => (s.actReceive p, [])
  | .openStream stream =>
      if stream ∈ s.toOpen then
        ({ s with
            toOpen := s.toOpen.erase stream
            inFlight := s.inFlight ++ [stream] }, [])
      else (s, [])

/-- The machine. -/
def step (s : Rendezvous) (action : StreamAction) :
    Option (Rendezvous × List StreamNote) :=
  some (s.act action)

end Rendezvous

end Nebula

end FactoryCacher
