/-
The world on its way to the other side: the functions
`transfer_world_data` of both proxies (factorio-cacher/src/proxy/
server_proxy.rs and client_proxy.rs) and the message that opens the
stream between them (protocol.rs).

# The server

Once the download is there, the server takes the world apart
(`FactoryCacher.transferWorldData` in Factorio/ServerProxy.lean), writes
the description and hands out chunks until the client has enough. What
its stream will ever receive is an input, as for
`provideChunksAsRequested`.

# The client

The client reads the description, fetches the lists of chunks first, then
rebuilds one file after the other and sends each on to the proxy as soon
as it is there; the end of the archive is the last piece. It is a program
over any chunk provider. What it has sent when something fails stays
sent. A stream that ends before the description is no error: that peer
never got to download a world.

The channel to the proxy is that of Nebula/ClientProxy.lean; it holds 32
pieces, so a send may wait, which has no effect of its own. Which inputs
of the proxy a channel can lead to is `DeliversWorld`.

# Left out

How MessagePack writes a description is a parameter. The numbers of bytes
transferred go to the log on the client, and are left out there.
-/
import FactoryCacher.Common.Conversation
import FactoryCacher.Factorio.ClientProxy
import FactoryCacher.Factorio.ServerProxy
import FactoryCacher.Nebula.ClientProxy

namespace FactoryCacher

open Nebula (Channel)

structure WorldReadyMessage where
  world : FactorioWorldDescription
  oldInfo : FactorioWorldMetadata
  newInfo : FactorioWorldMetadata

/-- rmp_serde on the description. -/
structure WorldMessagePack where
  writeWorldReady : WorldReadyMessage → Bytes
  readWorldReady : Bytes → Option WorldReadyMessage

-- ============================================================== the server

namespace ServerProxy

/-- How `transfer_world_data` fails on the server. -/
inductive TransferFault
  | world (e : TransferError)
  /-- the panic of `write_message` -/
  | messageSize
  | provide (e : ProvideError)

section Transfer

variable (blake3 : Bytes → ChunkKey) (miniz : MinizOxide) (zip : ZipCrate)
  (zstd : Zstd) (rmp : MessagePack) (worldRmp : WorldMessagePack)
  (transport : MessageTransport)

/-- The description as it goes to `write_message`. -/
def worldReadyData (state : DownloadingWorldState)
    (world : FactorioWorldDescription) : Bytes :=
  transport.encodeMessage zstd worldRmp.writeWorldReady
    ⟨world, state.worldInfo, state.newWorldInfo⟩

/-- `transfer_world_data`: what is sent, and the number of bytes
transferred or how it failed. -/
def transferWorldData (state : DownloadingWorldState) (recvStream : Bytes) :
    Bytes × Except TransferFault Nat :=
  match FactoryCacher.transferWorldData blake3 miniz zip state with
  | .error e => ([], .error (.world e))
  | .ok (world, chunks) =>
      match writeMessage (worldReadyData zstd worldRmp transport state
          world) with
      | none => ([], .error .messageSize)
      | some written =>
          match provideChunksAsRequested zstd rmp transport chunks
              recvStream 0 written with
          | (sent, .error e) => (sent, .error (.provide e))
          | (sent, .ok transferred) =>
              (sent, .ok ((worldReadyData zstd worldRmp transport state
                world).length + transferred))

end Transfer

end ServerProxy

-- ============================================================== the client

namespace ClientProxy

/-- How `transfer_world_data` fails on the client. -/
inductive TransferFault
  /-- the stream failed before the description was there -/
  | readDescription
  /-- the panic of `read_message` -/
  | messageSize
  /-- the description does not decode -/
  | decode
  /-- a chunk cannot be had, or is not what it should be -/
  | chunks (fault : Fault)
  /-- a failed `expect` of `encode_file` -/
  | encodeFile
  | finalize (e : FinalizeError)
  /-- the proxy is gone -/
  | send

/-- How a stream ends: the other side finished it, or it failed. -/
inductive StreamEnd
  | finished
  | failed

/-- The description, from what the stream will receive and how it ends;
`none` is a peer that shut down without ever sending world data. -/
def readWorldReady (zstd : Zstd) (worldRmp : WorldMessagePack)
    (recvStream : Bytes) (streamEnd : StreamEnd) :
    Except TransferFault (Option WorldReadyMessage) :=
  match readMessage recvStream with
  | .error .io =>
      match streamEnd with
      | .finished => .ok none
      | .failed => .error .readDescription
  | .error .size => .error .messageSize
  | .ok (messageData, _) =>
      match MessageTransport.decodeMessage zstd worldRmp.readWorldReady
          messageData with
      | none => .error .decode
      | some worldReady => .ok (some worldReady)

/-- The task next to its end of the channel. -/
abbrev TransferM (σ : Type) := ExceptT TransferFault (StateM (σ × Channel))

section Transfer

variable {σ α : Type}

/-- A part that does not touch the channel. -/
def readChunks (x : ExceptT Fault (StateM σ) α) : TransferM σ α :=
  ExceptT.mk fun s =>
    ((x.run s.1).1.mapError .chunks, ((x.run s.1).2, s.2))

/-- `world_data_sender.send`. -/
def sendPiece (data : Bytes) : TransferM σ Unit := do
  let state ← get
  if state.2.isGone then throw .send
  else set (state.1, { state.2 with sent := state.2.sent ++ [data] })

variable {crc : CrcCrate} (miniz : MinizOxide)
  (provider : ChunkProvider (ExceptT Fault (StateM σ))) (fuel : Nat)

/-- The loop over the files. -/
def sendFiles (r : WorldReconstructor crc) :
    List FactorioFileDescription → TransferM σ (WorldReconstructor crc)
  | [] => pure r
  | fileDesc :: files => do
      match ← readChunks (r.reconstructWorldFile miniz provider fuel
          fileDesc) with
      | none => throw .encodeFile
      | some (r, data) => do
          sendPiece data
          sendFiles r files

/-- Once the description is there; `markDirty` is that of the chunk
cache. -/
def sendWorld (crc : CrcCrate) (markDirty : ExceptT Fault (StateM σ) Unit)
    (worldReady : WorldReadyMessage) : TransferM σ Unit := do
  readChunks (prefetchMetadataChunks provider fuel
    (worldReady.world.files.map FactorioFileDescription.chunkList))
  let r ← sendFiles miniz provider fuel (.new : WorldReconstructor crc)
    worldReady.world.files
  readChunks markDirty
  match r.finalizeWorld worldReady.world worldReady.newInfo.worldSize.toNat
      worldReady.newInfo.worldCrc with
  | .error e => throw (.finalize e)
  | .ok lastData => sendPiece lastData

/-- `transfer_world_data`, from what comes of the description. -/
def transferWorldData (crc : CrcCrate)
    (markDirty : ExceptT Fault (StateM σ) Unit)
    (description : Except TransferFault (Option WorldReadyMessage)) :
    TransferM σ Unit :=
  match description with
  | .error e => throw e
  | .ok none => pure ()
  | .ok (some worldReady) =>
      sendWorld miniz provider fuel crc markDirty worldReady

end Transfer

/-- `mark_dirty`, among the sessions of Common/Fetcher.lean. -/
def fetchMarkDirty (blake3 : Bytes → ChunkKey) :
    ExceptT Fault (StateM FetchRun) Unit :=
  modify fun run => { run with state := run.state.act blake3 .markDirty }

/-- The pieces among the inputs of the proxy. -/
def receivedPieces (inputs : List ClientInput) : List Bytes :=
  inputs.filterMap fun input =>
    match input with
    | .worldData newData _ => newData
    | .packet _ _ _ => none

/-- What a channel delivers of a sender that has sent `sent`: the pieces
in order, and its end after all of them; after that the proxy does not
look at it again. -/
structure DeliversWorld (sent : List Bytes) (inputs : List ClientInput) :
    Prop where
  inOrder : receivedPieces inputs <+: sent
  ended : ∀ before now after,
    inputs = before ++ .worldData none now :: after →
    receivedPieces before = sent ∧ receivedPieces after = []

end ClientProxy

end FactoryCacher
