/-
Many game clients over one connection: `run_client_proxy` and
`proxy_client` (factorio-cacher/src/proxy/client_proxy.rs),
`run_server_proxy` and `proxy_server` (proxy/server_proxy.rs), the
datagrams between them (protocol.rs) and the address the server proxy
connects to (lan_discovery.rs).

# The parties

The client side has one UDP socket for all game clients. Its loop gives
every address a peer id and two queues, and spawns a task for the peer;
the task opens a stream, writes the id to it, and from then on handles
one packet at a time. The server side gets the ids from the streams, and
has for each a queue, a socket of its own to the game server, and a
task. Packets cross the connection as datagrams that start with the
peer's id. The loops at both ends look the id up and drop what does not
fit into the queue.

# The machine

`PeerNet` is both sides and what is between them, `step` one thing that
happens anywhere: a packet comes in at a socket, a loop takes a datagram
or a stream, a task takes one turn. Any order of them is a run. A
datagram in flight may be taken in any order, or lost; a stream that was
opened is accepted at some time, in any order.

A turn of a task is everything from one `select!` to the next: what was
selected, and the sending of `out_packets`. `sends` is how many of them
can be sent; the first that cannot ends the task. A task that ended has
dropped its receivers. A panic in `on_packet_from_server` ends the task
it happens in and no other. An action that is not possible in a state
leaves it as it is.

Every read of a loop may fail, at any time, and ends the loop. When
`run_client_proxy` returns an error the program ends, so nothing on the
client side happens after that; on the server side the tasks go on.

# Left out

A packet is what `recv_buf_from` returns, cut to its buffer. What the
world data is made of is whatever the actions say; Factorio/World.lean
and the modules about it say what it is. Log messages are left out.
-/
import FactoryCacher.Lib.Queues
import FactoryCacher.Lib.VarInt
import FactoryCacher.Factorio.ClientProxy
import FactoryCacher.Factorio.ServerProxy

namespace FactoryCacher

-- =============================================================== datagrams

structure Datagram where
  peerId : VarInt
  data : Bytes
  deriving DecidableEq

namespace Datagram

/-- `Datagram::decode`; `none` is a peer id that ends early. -/
def decode (data : Bytes) : Option Datagram :=
  match VarInt.decode data with
  | none => none
  | some (peerId, data) => some ⟨peerId, data⟩

/-- `Datagram::encode`, into an empty buffer. -/
def encode (d : Datagram) : Bytes := d.peerId.encode ++ d.data

end Datagram

/-- `VarInt::from` a `u32`. -/
def peerIdOf (id : UInt32) : VarInt :=
  ⟨id.toNat, Nat.lt_trans id.toNat_lt (by decide)⟩

/-- A socket address. -/
structure SocketAddr (Ip : Type) where
  ip : Ip
  port : UInt16
  deriving DecidableEq

/-- `UDP_QUEUE_SIZE`. -/
def udpQueueSize : Nat := 512

abbrev PacketQueue := BoundedQueue Bytes udpQueueSize

-- ================================================================== states

section States

variable (Ip : Type)

/-- Where `proxy_client` is. -/
inductive ClientTask
  /-- before the stream is opened and the peer id is on it -/
  | opening
  | running (proxyState : ClientProxyState) (worldDataDone : Bool)
  | returned

/-- A peer of the client side: its task and the task's queues. -/
structure ClientPeer where
  peerId : VarInt
  peerAddr : SocketAddr Ip
  serverReceiveQueue : PacketQueue
  clientReceiveQueue : PacketQueue
  task : ClientTask

/-- A read of `run_client_proxy` that fails. -/
inductive ClientReadError
  /-- `recv_buf_from` -/
  | receive
  /-- `read_datagram` -/
  | readDatagram
  deriving DecidableEq

/-- A read of `run_server_proxy` that fails. -/
inductive ServerReadError
  /-- `read_datagram` -/
  | readDatagram
  /-- `accept_bi` -/
  | acceptStream
  /-- `read_u32_le` on the stream that was accepted -/
  | readPeerId
  deriving DecidableEq

/-- Why a loop returned. -/
inductive LoopError
  /-- "Ran out of peer ids" -/
  | ranOutOfPeerIds
  /-- a datagram that does not decode -/
  | datagram
  /-- the socket of a new peer -/
  | bind
  | clientRead (error : ClientReadError)
  | serverRead (error : ServerReadError)
  deriving DecidableEq

/-- `run_client_proxy`; a sender in a map is the number of the peer whose
queue it is. -/
structure ClientLoop where
  addrToQueue : SocketAddr Ip → Option Nat
  idToQueue : VarInt → Option Nat
  nextPeerId : UInt32
  peers : List (ClientPeer Ip)
  failed : Option LoopError

/-- Where `proxy_server` is. -/
inductive ServerTask
  | running (proxyState : ServerProxyState)
  | returned

/-- A peer of the server side. -/
structure ServerPeer where
  peerId : VarInt
  factorioAddr : SocketAddr Ip
  receiveQueue : PacketQueue
  task : ServerTask

/-- `run_server_proxy`, and the address it shares with
`lan_discovery_task`. -/
structure ServerLoop where
  outgoingQueues : VarInt → Option Nat
  peers : List (ServerPeer Ip)
  failed : Option LoopError
  /-- `factorio_address_cell` -/
  factorioAddressCell : SocketAddr Ip
  /-- `current_factorio_address` -/
  currentFactorioAddress : SocketAddr Ip
  worldEstimate : UInt32 → UInt32

/-- Both sides, the datagrams in flight, and the streams that were opened
and not accepted yet, each with the id written to it. -/
structure PeerNet where
  client : ClientLoop Ip
  server : ServerLoop Ip
  toServer : List Bytes
  toClient : List Bytes
  streams : List UInt32

/-- Whether a packet that was sent came from the other side of the
connection, or from the state of the task itself. -/
inductive Origin
  | relayed
  | own
  deriving DecidableEq

/-- What can be seen of a step. -/
inductive NetEvent
  /-- a packet from a game client, and the peer whose queue took it -/
  | fromGameClient (peerAddr : SocketAddr Ip) (packet : Bytes)
      (takenBy : Option VarInt)
  | toGameClient (peerId : VarInt) (peerAddr : SocketAddr Ip)
      (origin : Origin) (packet : Bytes)
  | datagramToServer (peerId : VarInt) (packet : Bytes)
  /-- a packet at the socket of a peer of the server side -/
  | fromGameServer (peerId : VarInt) (remoteAddr : SocketAddr Ip)
      (delivery : Delivery)
  | toGameServer (peerId : VarInt) (factorioAddr : SocketAddr Ip)
      (origin : Origin) (packet : Bytes)
  | datagramToClient (peerId : VarInt) (packet : Bytes)
  /-- a download handed to `transfer_world_data` -/
  | transfer (peerId : VarInt) (state : DownloadingWorldState)

/-- What the `select!` of `proxy_client` selects. -/
inductive ClientTurn
  | clientQueue (elapsedAt now : Nat)
  | serverQueue
  | worldData (newData : Option Bytes) (now : Nat)
  /-- `UDP_PEER_IDLE_TIMEOUT` -/
  | idle

/-- What the `select!` of `proxy_server` selects. -/
inductive ServerTurn
  | socket (remoteAddr : SocketAddr Ip) (delivery : Delivery)
  | socketError
  | queue
  /-- `UDP_PEER_IDLE_TIMEOUT` -/
  | idle

inductive NetAction
  /-- a packet at the socket of `run_client_proxy` -/
  | clientPacket (peerAddr : SocketAddr Ip) (packet : Bytes)
  /-- `run_client_proxy` reads a datagram -/
  | clientDatagram (n : Nat)
  | clientReadError (error : ClientReadError)
  /-- `proxy_client` opens its stream, or cannot -/
  | openStream (i : Nat) (opened : Bool) (now : Nat)
  | clientTurn (i : Nat) (turn : ClientTurn) (sends : Nat)
  /-- `run_server_proxy` reads a datagram -/
  | serverDatagram (n : Nat)
  /-- `run_server_proxy` accepts a stream; whether the new socket can be
  bound -/
  | acceptStream (n : Nat) (bound : Bool)
  | serverReadError (error : ServerReadError)
  | serverTurn (i : Nat) (turn : ServerTurn Ip) (sends : Nat)
  /-- a packet at the socket of `lan_discovery_task` -/
  | lanPacket (addr : SocketAddr Ip) (packet : Bytes)
  | loseToServer (n : Nat)
  | loseToClient (n : Nat)

end States

variable {Ip : Type} [DecidableEq Ip]

-- ========================================================= the client's side

namespace ClientPeer

/-- The peer `run_client_proxy` makes. -/
def new (peerId : VarInt) (peerAddr : SocketAddr Ip) : ClientPeer Ip where
  peerId := peerId
  peerAddr := peerAddr
  serverReceiveQueue := .new
  clientReceiveQueue := .new
  task := .opening

/-- `proxy_client` returns and drops its receivers. -/
def finish (peer : ClientPeer Ip) : ClientPeer Ip :=
  { peer with serverReceiveQueue := peer.serverReceiveQueue.close
              clientReceiveQueue := peer.clientReceiveQueue.close
              task := .returned }

/-- What is selected in a turn, and `out_packets` after it. -/
def select (peer : ClientPeer Ip) (proxyState : ClientProxyState)
    (worldDataDone : Bool) :
    ClientTurn → ClientPeer Ip × List PushedPacket
  | .clientQueue elapsedAt now =>
      match peer.clientReceiveQueue.recv with
      | .waits => (peer, [])
      | .ended => (peer.finish, [])
      | .item packetData rest =>
          match proxyState.onPacketFromClient packetData elapsedAt now with
          | (proxyState, outPackets) =>
              ({ peer with clientReceiveQueue := rest
                           task := .running proxyState worldDataDone },
                outPackets)
  | .serverQueue =>
      match peer.serverReceiveQueue.recv with
      | .waits => (peer, [])
      | .ended => (peer.finish, [])
      | .item packetData rest =>
          ({ peer with serverReceiveQueue := rest },
            [(packetData, .toClient)])
  | .worldData newData now =>
      if worldDataDone then (peer, [])
      else
        match proxyState.onNewWorldData newData now with
        | (proxyState, outPackets) =>
            ({ peer with task := .running proxyState newData.isNone },
              outPackets)
  | .idle => (peer.finish, [])

/-- Where what is sent in a turn comes from. -/
def origin : ClientTurn → Origin
  | .serverQueue => .relayed
  | _ => .own

/-- A packet that is sent. -/
def sendEvent (peer : ClientPeer Ip) (origin : Origin) :
    PushedPacket → NetEvent Ip
  | (packetData, .toClient) =>
      .toGameClient peer.peerId peer.peerAddr origin packetData
  | (packetData, .toServer) => .datagramToServer peer.peerId packetData

/-- The datagram of a packet that is sent to the server side. -/
def sendDatagram (peer : ClientPeer Ip) : PushedPacket → Option Bytes
  | (_, .toClient) => none
  | (packetData, .toServer) =>
      some (Datagram.encode ⟨peer.peerId, packetData⟩)

end ClientPeer

namespace ClientLoop

/-- The peer that takes packets from an address: the one in the map,
unless its task has returned. -/
def queueOf (loop : ClientLoop Ip) (peerAddr : SocketAddr Ip) :
    Option (Nat × ClientPeer Ip) :=
  match loop.addrToQueue peerAddr with
  | none => none
  | some i =>
      match loop.peers[i]? with
      | none => none
      | some peer =>
          if peer.clientReceiveQueue.receiving then some (i, peer) else none

/-- A new peer, with the next id. -/
def addPeer (loop : ClientLoop Ip) (peerAddr : SocketAddr Ip) :
    ClientLoop Ip :=
  { loop with
    addrToQueue :=
      Function.update loop.addrToQueue peerAddr (some loop.peers.length)
    idToQueue := Function.update loop.idToQueue (peerIdOf loop.nextPeerId)
      (some loop.peers.length)
    nextPeerId := loop.nextPeerId + 1
    peers := loop.peers ++ [.new (peerIdOf loop.nextPeerId) peerAddr] }

def setPeer (loop : ClientLoop Ip) (i : Nat) (peer : ClientPeer Ip) :
    ClientLoop Ip :=
  { loop with peers := loop.peers.set i peer }

/-- `outgoing_queue.try_send` of a packet from a game client. -/
def offer (loop : ClientLoop Ip) (i : Nat) (peer : ClientPeer Ip)
    (peerAddr : SocketAddr Ip) (packet : Bytes) :
    ClientLoop Ip × List (NetEvent Ip) :=
  (loop.setPeer i { peer with
      clientReceiveQueue := peer.clientReceiveQueue.trySend packet },
    [.fromGameClient peerAddr packet
      (if peer.clientReceiveQueue.Accepts then some peer.peerId
        else none)])

/-- A packet at the socket. -/
def onPacket (loop : ClientLoop Ip) (peerAddr : SocketAddr Ip)
    (packet : Bytes) : ClientLoop Ip × List (NetEvent Ip) :=
  match loop.queueOf peerAddr with
  | some (i, peer) => loop.offer i peer peerAddr packet
  | none =>
      -- `checked_add`: the last id is never given out
      if loop.nextPeerId = UInt32.ofNat (2 ^ 32 - 1) then
        ({ loop with failed := some .ranOutOfPeerIds },
          [.fromGameClient peerAddr packet none])
      else
        (loop.addPeer peerAddr).offer loop.peers.length
          (.new (peerIdOf loop.nextPeerId) peerAddr) peerAddr packet

/-- A datagram. -/
def onDatagram (loop : ClientLoop Ip) (data : Bytes) : ClientLoop Ip :=
  match Datagram.decode data with
  | none => { loop with failed := some .datagram }
  | some datagram =>
      match loop.idToQueue datagram.peerId with
      | none => loop
      | some i =>
          match loop.peers[i]? with
          | none => loop
          | some peer =>
              loop.setPeer i { peer with
                serverReceiveQueue :=
                  peer.serverReceiveQueue.trySend datagram.data }

end ClientLoop

-- ========================================================= the server's side

namespace ServerPeer

/-- The peer `run_server_proxy` makes. -/
def new (peerId : VarInt) (factorioAddr : SocketAddr Ip)
    (worldEstimate : UInt32 → UInt32) : ServerPeer Ip where
  peerId := peerId
  factorioAddr := factorioAddr
  receiveQueue := .new
  task := .running (.new worldEstimate)

/-- `proxy_server` returns and drops its receiver. -/
def finish (peer : ServerPeer Ip) : ServerPeer Ip :=
  { peer with receiveQueue := peer.receiveQueue.close
              task := .returned }

/-- What is selected in a turn, and what is pushed or handed over. -/
def select (peer : ServerPeer Ip) (proxyState : ServerProxyState) :
    ServerTurn Ip → ServerPeer Ip × List ServerEvent
  | .socket remoteAddr delivery =>
      -- packets that do not originate from the server are dropped
      if remoteAddr ≠ peer.factorioAddr then (peer, [])
      else
        match proxyState.onPacketFromServer delivery with
        | none => (peer.finish, [])
        | some (proxyState, events) =>
            ({ peer with task := .running proxyState }, events)
  | .socketError => (peer.finish, [])
  | .queue =>
      match peer.receiveQueue.recv with
      | .waits => (peer, [])
      | .ended => (peer.finish, [])
      | .item packetData rest =>
          ({ peer with receiveQueue := rest },
            [.push packetData .toServer])
  | .idle => (peer.finish, [])

/-- Where what is sent in a turn comes from. -/
def origin : ServerTurn Ip → Origin
  | .queue => .relayed
  | _ => .own

/-- `out_packets`: what was pushed. -/
def outPackets (events : List ServerEvent) : List PushedPacket :=
  events.filterMap fun event =>
    match event with
    | .push packetData dir => some (packetData, dir)
    | .transfer _ => none

/-- The downloads handed over. -/
def transfers (peer : ServerPeer Ip) (events : List ServerEvent) :
    List (NetEvent Ip) :=
  events.filterMap fun event =>
    match event with
    | .push _ _ => none
    | .transfer state => some (.transfer peer.peerId state)

/-- A packet that is sent. -/
def sendEvent (peer : ServerPeer Ip) (origin : Origin) :
    PushedPacket → NetEvent Ip
  | (packetData, .toClient) => .datagramToClient peer.peerId packetData
  | (packetData, .toServer) =>
      .toGameServer peer.peerId peer.factorioAddr origin packetData

/-- The datagram of a packet that is sent to the client side. -/
def sendDatagram (peer : ServerPeer Ip) : PushedPacket → Option Bytes
  | (packetData, .toClient) =>
      some (Datagram.encode ⟨peer.peerId, packetData⟩)
  | (_, .toServer) => none

/-- What was seen at the socket. -/
def socketEvents (peer : ServerPeer Ip) :
    ServerTurn Ip → List (NetEvent Ip)
  | .socket remoteAddr delivery =>
      [.fromGameServer peer.peerId remoteAddr delivery]
  | _ => []

end ServerPeer

namespace ServerLoop

def setPeer (loop : ServerLoop Ip) (i : Nat) (peer : ServerPeer Ip) :
    ServerLoop Ip :=
  { loop with peers := loop.peers.set i peer }

/-- The loop returns, and its senders are dropped. -/
def fail (loop : ServerLoop Ip) (error : LoopError) : ServerLoop Ip :=
  { loop with
    failed := some error
    peers := loop.peers.map fun peer =>
      { peer with receiveQueue := peer.receiveQueue.dropSender } }

/-- A datagram. -/
def onDatagram (loop : ServerLoop Ip) (data : Bytes) : ServerLoop Ip :=
  match Datagram.decode data with
  | none => loop.fail .datagram
  | some datagram =>
      match loop.outgoingQueues datagram.peerId with
      | none => loop
      | some i =>
          match loop.peers[i]? with
          | none => loop
          | some peer =>
              loop.setPeer i { peer with
                receiveQueue := peer.receiveQueue.trySend datagram.data }

/-- The sender under an id, about to be replaced, is dropped. -/
def dropSender (loop : ServerLoop Ip) (peerId : VarInt) : ServerLoop Ip :=
  match loop.outgoingQueues peerId with
  | none => loop
  | some i =>
      match loop.peers[i]? with
      | none => loop
      | some peer =>
          loop.setPeer i { peer with
            receiveQueue := peer.receiveQueue.dropSender }

/-- A new peer, with the address that is in the cell. -/
def addPeer (loop : ServerLoop Ip) (peerId : VarInt) : ServerLoop Ip :=
  { loop.dropSender peerId with
    outgoingQueues :=
      Function.update loop.outgoingQueues peerId (some loop.peers.length)
    peers := (loop.dropSender peerId).peers
      ++ [.new peerId loop.factorioAddressCell loop.worldEstimate] }

/-- One packet of `lan_discovery_task`. -/
def onLanPacket (loop : ServerLoop Ip) (addr : SocketAddr Ip)
    (packet : Bytes) : ServerLoop Ip :=
  match packet with
  | [_, low, high] =>
      let lanAddr : SocketAddr Ip :=
        ⟨addr.ip, UInt16.ofNat (ofLE [low, high])⟩
      if loop.currentFactorioAddress ≠ lanAddr then
        { loop with currentFactorioAddress := lanAddr
                    factorioAddressCell := lanAddr }
      else loop
  | _ => loop

end ServerLoop

-- =============================================================== the machine

namespace PeerNet

/-- `proxy_client` opens its stream and starts, or ends. -/
def openStream (s : PeerNet Ip) (i : Nat) (opened : Bool) (now : Nat) :
    PeerNet Ip :=
  match s.client.peers[i]? with
  | none => s
  | some peer =>
      match peer.task with
      | .opening =>
          if opened then
            { s with
              client := s.client.setPeer i
                { peer with task := .running (.new now) false }
              streams := s.streams ++ [UInt32.ofNat peer.peerId.value] }
          else { s with client := s.client.setPeer i peer.finish }
      | _ => s

/-- A turn of `proxy_client`. -/
def clientTurn (s : PeerNet Ip) (i : Nat) (turn : ClientTurn)
    (sends : Nat) : PeerNet Ip × List (NetEvent Ip) :=
  match s.client.peers[i]? with
  | none => (s, [])
  | some peer =>
      match peer.task with
      | .running proxyState worldDataDone =>
          match peer.select proxyState worldDataDone turn with
          | (next, outPackets) =>
              ({ s with
                  client := s.client.setPeer i
                    (if sends < outPackets.length then next.finish
                      else next)
                  toServer := s.toServer
                    ++ (outPackets.take sends).filterMap
                      peer.sendDatagram },
                (outPackets.take sends).map
                  (peer.sendEvent (ClientPeer.origin turn)))
      | _ => (s, [])

/-- A turn of `proxy_server`. -/
def serverTurn (s : PeerNet Ip) (i : Nat) (turn : ServerTurn Ip)
    (sends : Nat) : PeerNet Ip × List (NetEvent Ip) :=
  match s.server.peers[i]? with
  | none => (s, [])
  | some peer =>
      match peer.task with
      | .running proxyState =>
          match peer.select proxyState turn with
          | (next, events) =>
              ({ s with
                  server := s.server.setPeer i
                    (if sends < (ServerPeer.outPackets events).length
                      then next.finish else next)
                  toClient := s.toClient
                    ++ ((ServerPeer.outPackets events).take sends).filterMap
                      peer.sendDatagram },
                peer.socketEvents turn ++ peer.transfers events
                  ++ ((ServerPeer.outPackets events).take sends).map
                    (peer.sendEvent (ServerPeer.origin turn)))
      | .returned => (s, [])

/-- What happens on the client side, while the program runs. -/
def clientStep (s : PeerNet Ip) : NetAction Ip →
    PeerNet Ip × List (NetEvent Ip)
  | .clientPacket peerAddr packet =>
      match s.client.onPacket peerAddr packet with
      | (client, events) => ({ s with client := client }, events)
  | .clientDatagram n =>
      match s.toClient[n]? with
      | none => (s, [])
      | some data =>
          ({ s with client := s.client.onDatagram data
                    toClient := s.toClient.eraseIdx n }, [])
  | .clientReadError error =>
      ({ s with client :=
          { s.client with failed := some (.clientRead error) } }, [])
  | .openStream i opened now => (s.openStream i opened now, [])
  | .clientTurn i turn sends => s.clientTurn i turn sends
  | _ => (s, [])

/-- What the loop of the server side does. -/
def serverLoopStep (s : PeerNet Ip) : NetAction Ip → PeerNet Ip
  | .serverDatagram n =>
      match s.toServer[n]? with
      | none => s
      | some data =>
          { s with server := s.server.onDatagram data
                   toServer := s.toServer.eraseIdx n }
  | .acceptStream n bound =>
      match s.streams[n]? with
      | none => s
      | some id =>
          { s with
            server := if bound then s.server.addPeer (peerIdOf id)
              else s.server.fail .bind
            streams := s.streams.eraseIdx n }
  | .serverReadError error =>
      { s with server := s.server.fail (.serverRead error) }
  | _ => s

/-- One thing that happens. -/
def act (s : PeerNet Ip) (action : NetAction Ip) :
    PeerNet Ip × List (NetEvent Ip) :=
  match action with
  | .clientPacket .. | .clientDatagram .. | .clientReadError ..
  | .openStream .. | .clientTurn .. =>
      if s.client.failed.isSome then (s, []) else s.clientStep action
  | .serverDatagram .. | .acceptStream .. | .serverReadError .. =>
      if s.server.failed.isSome then (s, [])
      else (s.serverLoopStep action, [])
  | .serverTurn i turn sends => s.serverTurn i turn sends
  | .lanPacket addr packet =>
      ({ s with server := s.server.onLanPacket addr packet }, [])
  | .loseToServer n => ({ s with toServer := s.toServer.eraseIdx n }, [])
  | .loseToClient n => ({ s with toClient := s.toClient.eraseIdx n }, [])

/-- The machine. -/
def step (s : PeerNet Ip) (action : NetAction Ip) :
    Option (PeerNet Ip × List (NetEvent Ip)) := some (s.act action)

/-- Both sides have just been connected. -/
def start (factorioAddress : SocketAddr Ip)
    (worldEstimate : UInt32 → UInt32) : PeerNet Ip where
  client := { addrToQueue := fun _ => none
              idToQueue := fun _ => none
              nextPeerId := 0
              peers := []
              failed := none }
  server := { outgoingQueues := fun _ => none
              peers := []
              failed := none
              factorioAddressCell := factorioAddress
              currentFactorioAddress := factorioAddress
              worldEstimate := worldEstimate }
  toServer := []
  toClient := []
  streams := []

end PeerNet

end FactoryCacher
