/-
Messages between the two cachers (common/src/protocol_utils.rs): how they
are encoded and framed, and the side that hands out chunks,
`provide_chunks_as_requested`.

# Framing

A message on a stream is its length and its bytes. Both sides panic over
a length beyond `MESSAGE_SIZE_LIMIT`: the writer before it writes
anything (`writeMessage`, where `none` is the panic), the reader once it
has the length (`ReadError.size`).

# The loop

`provideChunksAsRequested` takes the bytes its stream will ever receive
and returns what it sends and how it ends. A stream that ends, or breaks,
between or in the middle of messages ends the loop; that writing fails
because the other side is gone is left out.

# Parameters

zstd is the parameter it is in Common/ChunkCache.lean. Of MessagePack
(the crate rmp_serde) the headers of arrays and byte strings are
parameters, and how a request is read; how a reply is put together from
them is not. A struct is written as the array of its fields.
-/
import FactoryCacher.Common.ChunkCache

namespace FactoryCacher

/-- `MESSAGE_SIZE_LIMIT`. -/
def messageSizeLimit : Nat := 20000000

structure RequestChunksMessage where
  requestedChunks : List ChunkKey

structure SendChunksMessage where
  chunks : List Bytes

-- ================================================================ encoding

/-- rmp_serde. -/
structure MessagePack where
  arrayHeader : Nat → Bytes
  binHeader : Nat → Bytes
  readRequestChunks : Bytes → Option RequestChunksMessage

/-- A byte string. -/
def MessagePack.writeBytes (rmp : MessagePack) (bytes : Bytes) : Bytes :=
  rmp.binHeader bytes.length ++ bytes

/-- A reply: a struct of one field, which is an array. -/
def MessagePack.writeSendChunks (rmp : MessagePack)
    (message : SendChunksMessage) : Bytes :=
  rmp.arrayHeader 1 ++ rmp.arrayHeader message.chunks.length
    ++ message.chunks.flatMap rmp.writeBytes

structure MessageTransport where
  compressionLevel : Int

namespace MessageTransport

variable {α : Type} (zstd : Zstd)

/-- `encode_message`, with the serialization of its message type. -/
def encodeMessage (transport : MessageTransport) (write : α → Bytes)
    (message : α) : Bytes :=
  zstd.encode transport.compressionLevel (write message)

/-- `decode_message`. -/
def decodeMessage (read : Bytes → Option α) (msgData : Bytes) : Option α :=
  (zstd.decode msgData).bind read

end MessageTransport

-- ================================================================= framing

/-- `write_message`: what is written. -/
def writeMessage (msgData : Bytes) : Option Bytes :=
  if msgData.length > messageSizeLimit then none
  else some (putU32Le (UInt32.ofNat msgData.length) ++ msgData)

/-- Why there is no message to read. -/
inductive ReadError
  /-- the stream ended or failed -/
  | io
  /-- the panic "Message size exceeded limit" -/
  | size
  deriving DecidableEq, Repr

/-- `read_message`, from what a stream will receive: the message and what
comes after it. -/
def readMessage (stream : Bytes) : Except ReadError (Bytes × Bytes) :=
  match tryGetU32Le stream with
  | .error _ => .error .io
  | .ok (msgSize, rest) =>
      if msgSize.toNat > messageSizeLimit then .error .size
      else if rest.length < msgSize.toNat then .error .io
      else .ok (rest.take msgSize.toNat, rest.drop msgSize.toNat)

/-- A message takes its length off the stream. -/
theorem length_of_readMessage {stream msgData rest : Bytes}
    (h : readMessage stream = .ok (msgData, rest)) :
    rest.length < stream.length := by
  unfold readMessage at h
  cases hsize : tryGetU32Le stream with
  | error e =>
      rw [hsize] at h
      cases h
  | ok read =>
      obtain ⟨msgSize, after⟩ := read
      have hstream := tryGetU32Le_eq_ok hsize
      rw [hsize] at h
      dsimp only at h
      split at h
      · cases h
      · split at h
        · cases h
        · cases h
          rw [hstream, List.length_append, length_putU32Le, List.length_drop]
          omega

-- ======================================================== handing out chunks

/-- How `provide_chunks_as_requested` fails. -/
inductive ProvideError
  /-- a request that does not decode -/
  | decode
  /-- "Client requested chunk that we don't have" -/
  | missingChunk
  /-- the panic of `read_message` -/
  | readSize
  /-- the panic of `write_message` -/
  | writeSize
  deriving DecidableEq, Repr

/-- The chunks of a request, where all of them are there. -/
def collectChunks (chunks : ChunkMap) : List ChunkKey → Option (List Bytes)
  | [] => some []
  | key :: keys =>
      match chunks.get key, collectChunks chunks keys with
      | some chunk, some rest => some (chunk :: rest)
      | _, _ => none

/-- The reply to a request. -/
def replyTo (chunks : ChunkMap) (request : RequestChunksMessage) :
    Option SendChunksMessage :=
  (collectChunks chunks request.requestedChunks).map SendChunksMessage.mk

section Provide

variable (zstd : Zstd) (rmp : MessagePack) (transport : MessageTransport)
  (chunks : ChunkMap)

/-- The reply as it goes to `write_message`. -/
def replyData (response : SendChunksMessage) : Bytes :=
  transport.encodeMessage zstd rmp.writeSendChunks response

/-- The loop of `provide_chunks_as_requested`: what was sent, and the
number of bytes transferred or how it failed. -/
def provideChunksAsRequested (recvStream : Bytes) (totalTransferred : Nat)
    (sent : Bytes) : Bytes × Except ProvideError Nat :=
  match _hread : readMessage recvStream with
  | .error .io => (sent, .ok totalTransferred)
  | .error .size => (sent, .error .readSize)
  | .ok (requestData, rest) =>
      match MessageTransport.decodeMessage zstd rmp.readRequestChunks
          requestData with
      | none => (sent, .error .decode)
      | some request =>
          match replyTo chunks request with
          | none => (sent, .error .missingChunk)
          | some response =>
              match writeMessage (replyData zstd rmp transport response) with
              | none => (sent, .error .writeSize)
              | some written =>
                  provideChunksAsRequested rest
                    (totalTransferred + requestData.length
                      + (replyData zstd rmp transport response).length)
                    (sent ++ written)
termination_by recvStream.length
decreasing_by exact length_of_readMessage _hread

end Provide

end FactoryCacher
