/-
Two cachers that talk: `fetch_chunk_batch` on one side of a stream and
`provide_chunks_as_requested` on the other
(common/src/protocol_utils.rs).

# Links

A session (Common/Fetcher.lean) has a link of its own to a server: a
stream of bytes in each direction, and at the far end a loop that hands
out the chunks of one map. The sessions share the chunk cache and
nothing else. Bytes arrive in pieces of any size (`Pipe`); a
`read_message` that does not have its whole message waits for more.

# The machine

`Talk` is all sessions with their links. A session with a batch encodes
and writes its request (`request`), and reads the response when it is
there (`receive`): then the response is the one of Common/Fetcher.lean.
The server handles one request at a time (`serve`, one turn of the
loop). Everything else a session does is an action of Common/Fetcher.lean
and happens as there; responses do not, they come over the stream. Any
list of actions is a schedule, and an action that is not possible changes
nothing.

A panic over the size of a message ends the session, as every other
failure does. What a server writes after its client is gone, and what is
left on the streams then, is of no interest and stays as it is.

# The provider

`talkProvider` is the provider of Common/Fetcher.lean with the stream in
it: `get_chunk` waits while everybody, servers and streams included, goes
on.

# MessagePack

To the parameters of Common/Messages.lean comes how a response is read.
A request is a struct of one field, an array of keys, and a key is
written as a byte string.
-/
import FactoryCacher.Lib.Pipes
import FactoryCacher.Lib.Settling
import FactoryCacher.Common.Fetcher
import FactoryCacher.Common.Messages

namespace FactoryCacher

-- ================================================================ encoding

/-- A request: a struct of one field, which is an array. -/
def MessagePack.writeRequestChunks (rmp : MessagePack)
    (message : RequestChunksMessage) : Bytes :=
  rmp.arrayHeader 1 ++ rmp.arrayHeader message.requestedChunks.length
    ++ message.requestedChunks.flatMap fun key => rmp.writeBytes key.bytes

/-- rmp_serde, as the fetching side uses it. -/
structure FetchMessagePack extends MessagePack where
  readSendChunks : Bytes → Option SendChunksMessage

/-- What both sides were started with. -/
structure TalkSetup where
  blake3 : Bytes → ChunkKey
  zstd : Zstd
  rmp : FetchMessagePack
  clientTransport : MessageTransport
  serverTransport : MessageTransport
  /-- the chunks at the far end of a session's link -/
  chunks : Nat → ChunkMap

-- ================================================================== states

/-- Where `provide_chunks_as_requested` is. -/
inductive ProvideState
  /-- in `read_message` -/
  | reading (totalTransferred : Nat)
  | returned (result : Except ProvideError Nat)

structure Link where
  requests : Pipe
  responses : Pipe
  /-- the request of the batch the session holds is written -/
  asked : Bool
  /-- `total_transferred` of the session -/
  totalTransferred : Nat
  provide : ProvideState

/-- A stream that was just opened. -/
def Link.new : Link where
  requests := .empty
  responses := .empty
  asked := false
  totalTransferred := 0
  provide := .reading 0

structure Talk where
  fetcher : FetcherState
  links : Nat → Link

inductive TalkAction
  /-- what a session does without its stream -/
  | session (action : FetchAction)
  /-- a session encodes and writes its request -/
  | request (session : Nat)
  | requestArrives (session n : Nat)
  /-- a turn of `provide_chunks_as_requested` -/
  | serve (session : Nat)
  | responseArrives (session n : Nat)
  /-- a session reads its response -/
  | receive (session : Nat)
  /-- the server's end of the stream fails -/
  | hangUp (session : Nat)

-- ================================================================ the server

/-- What a turn of `provide_chunks_as_requested` does with what has
arrived. -/
inductive ProvideTurn
  /-- there is no whole message -/
  | waits
  | fails (error : ProvideError)
  /-- a reply is written; what is left to read, and how many bytes were
  transferred -/
  | replies (rest written : Bytes) (transferred : Nat)

/-- A turn of the loop of `provide_chunks_as_requested`. -/
def provideTurn (zstd : Zstd) (rmp : MessagePack)
    (transport : MessageTransport) (chunks : ChunkMap) (arrived : Bytes) :
    ProvideTurn :=
  match readMessage arrived with
  | .error .io => .waits
  | .error .size => .fails .readSize
  | .ok (requestData, rest) =>
      match MessageTransport.decodeMessage zstd rmp.readRequestChunks
          requestData with
      | none => .fails .decode
      | some request =>
          match replyTo chunks request with
          | none => .fails .missingChunk
          | some response =>
              match writeMessage (replyData zstd rmp transport response) with
              | none => .fails .writeSize
              | some written =>
                  .replies rest written (requestData.length
                    + (replyData zstd rmp transport response).length)

-- =============================================================== the machine

namespace Talk

variable (setup : TalkSetup)

/-- Both sides of every link, before anything was asked for. -/
def ofCache (cache : CacheState) : Talk where
  fetcher := .ofCache cache
  links := fun _ => .new

def setLink (s : Talk) (i : Nat) (link : Link) : Talk :=
  { s with links := Function.update s.links i link }

/-- An action of the sessions. -/
def onFetcher (s : Talk) (action : FetchAction) : Talk :=
  { s with fetcher := s.fetcher.act setup.blake3 action }

/-- The data of the request for a batch. -/
def requestData (batch : BatchChunkRequest) : Bytes :=
  setup.clientTransport.encodeMessage setup.zstd
    setup.rmp.writeRequestChunks ⟨batch.batchKeys⟩

/-- `fetch_chunk_batch` up to the written request. -/
def actRequest (s : Talk) (i : Nat) : Talk :=
  match s.fetcher.cache.tasks i with
  | .holding batch _ =>
      if (s.links i).asked then s
      else
        match writeMessage (requestData setup batch) with
        | none => s.onFetcher setup (.fail i .messageSize)
        | some written =>
            s.setLink i { s.links i with
              requests := (s.links i).requests.write written
              asked := true
              totalTransferred := (s.links i).totalTransferred
                + (requestData setup batch).length }
  | _ => s

/-- A turn of the server. -/
def actServe (s : Talk) (i : Nat) : Talk :=
  match (s.links i).provide with
  | .returned _ => s
  | .reading totalTransferred =>
      match provideTurn setup.zstd setup.rmp.toMessagePack
          setup.serverTransport (setup.chunks i)
          (s.links i).requests.arrived with
      | .waits => s
      | .fails error =>
          s.setLink i { s.links i with provide := .returned (.error error) }
      | .replies rest written transferred =>
          s.setLink i { s.links i with
            requests := (s.links i).requests.readTo rest
            responses := (s.links i).responses.write written
            provide := .reading (totalTransferred + transferred) }

/-- The rest of `fetch_chunk_batch`, once the response is there. -/
def actReceive (s : Talk) (i : Nat) : Talk :=
  match s.fetcher.cache.tasks i with
  | .holding _ _ =>
      if (s.links i).asked then
        match readMessage (s.links i).responses.arrived with
        | .error .io => s
        | .error .size => s.onFetcher setup (.fail i .messageSize)
        | .ok (responseData, rest) =>
            let link := { s.links i with
              responses := (s.links i).responses.readTo rest
              asked := false
              totalTransferred := (s.links i).totalTransferred
                + responseData.length }
            match MessageTransport.decodeMessage setup.zstd
                setup.rmp.readSendChunks responseData with
            | none =>
                (s.setLink i link).onFetcher setup (.fail i .decodeResponse)
            | some response =>
                (s.setLink i link).onFetcher setup
                  (.respond i response.chunks)
      else s
  | _ => s

/-- The stream to the server fails; the loop ends with what it has
transferred. -/
def actHangUp (s : Talk) (i : Nat) : Talk :=
  match (s.links i).provide with
  | .returned _ => s
  | .reading totalTransferred =>
      s.setLink i { s.links i with
        provide := .returned (.ok totalTransferred) }

/-- One action. -/
def act (s : Talk) : TalkAction → Talk
  | .session (.respond _ _) => s
  | .session action => s.onFetcher setup action
  | .request i => s.actRequest setup i
  | .requestArrives i n =>
      s.setLink i { s.links i with
        requests := (s.links i).requests.arrive n }
  | .serve i => s.actServe setup i
  | .responseArrives i n =>
      s.setLink i { s.links i with
        responses := (s.links i).responses.arrive n }
  | .receive i => s.actReceive setup i
  | .hangUp i => s.actHangUp i

/-- The machine; it emits nothing. -/
def step (s : Talk) (action : TalkAction) : Option (Talk × List Empty) :=
  some (s.act setup action, [])

end Talk

-- ============================================================= the provider

end FactoryCacher
