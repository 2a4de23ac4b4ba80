/- GID: Sqe/Quack/Message
   generality: G
   digest: The messages of the RPC protocol, their envelope, and how they are written and read. -/

import Sqe.Quack.DataChunk

set_option autoImplicit false

namespace Sqe.Quack

open Sqe.Library.Reading

def MessageType.toU8 : MessageType → UInt8
  | .invalid => 0
  | .connectionRequest => 1
  | .connectionResponse => 2
  | .prepareRequest => 3
  | .prepareResponse => 4
  | .fetchRequest => 7
  | .fetchResponse => 8
  | .appendRequest => 9
  | .successResponse => 10
  | .disconnectMessage => 11
  | .errorResponse => 100

def MessageType.fromU8 (value : UInt8) : Except WireError MessageType :=
  match value with
  | 0 => .ok .invalid
  | 1 => .ok .connectionRequest
  | 2 => .ok .connectionResponse
  | 3 => .ok .prepareRequest
  | 4 => .ok .prepareResponse
  | 7 => .ok .fetchRequest
  | 8 => .ok .fetchResponse
  | 9 => .ok .appendRequest
  | 10 => .ok .successResponse
  | 11 => .ok .disconnectMessage
  | 100 => .ok .errorResponse
  | value => .error (.unknownMessageType value)

def optionalIdxInvalid : Nat := 2 ^ 64 - 1

def writeOptionalIdx (index : Option UInt64) : Bytes :=
  encodeUnsigned ((index.map UInt64.toNat).getD optionalIdxInvalid)

def readOptionalIdx : Decoder (Option UInt64) := do
  let raw ← readU64
  pure (if raw = optionalIdxInvalid then none else some (UInt64.ofNat raw))

structure MessageHeader where
  type : MessageType
  connectionId : String
  clientQueryId : Option UInt64
  deriving DecidableEq

def MessageHeader.encode (header : MessageHeader) : Bytes :=
  [beginProperty 1, writeU8 header.type.toU8,
    elided (!header.connectionId.isEmpty) (beginProperty 2 ++ writeString header.connectionId),
    beginProperty 3, writeOptionalIdx header.clientQueryId].flatten

def MessageHeader.decode : Decoder MessageHeader := do
  expectField 1
  let type ← ofResult (MessageType.fromU8 (← readU8))
  let connectionId ← readDefault 2 readString ""
  expectField 3
  let clientQueryId ← readOptionalIdx
  pure ⟨type, connectionId, clientQueryId⟩

structure ConnectionRequest where
  authString : String
  clientDuckdbVersion : String
  clientPlatform : String
  minSupportedQuackVersion : UInt64
  maxSupportedQuackVersion : UInt64

def ConnectionRequest.encode (b : ConnectionRequest) : Bytes :=
  [beginProperty 1, writeString b.authString, beginProperty 2, writeString b.clientDuckdbVersion,
    beginProperty 3, writeString b.clientPlatform, beginProperty 4,
    writeU64 b.minSupportedQuackVersion, beginProperty 5,
    writeU64 b.maxSupportedQuackVersion].flatten

def ConnectionRequest.decode : Decoder ConnectionRequest := do
  expectField 1
  let authString ← readString
  expectField 2
  let clientDuckdbVersion ← readString
  expectField 3
  let clientPlatform ← readString
  expectField 4
  let minSupported ← readU64
  expectField 5
  let maxSupported ← readU64
  pure ⟨authString, clientDuckdbVersion, clientPlatform, UInt64.ofNat minSupported,
    UInt64.ofNat maxSupported⟩

structure ConnectionResponse where
  serverDuckdbVersion : String
  serverPlatform : String
  quackVersion : UInt64

def ConnectionResponse.encode (b : ConnectionResponse) : Bytes :=
  [beginProperty 1, writeString b.serverDuckdbVersion, beginProperty 2,
    writeString b.serverPlatform, beginProperty 3, writeU64 b.quackVersion].flatten

def ConnectionResponse.decode : Decoder ConnectionResponse := do
  expectField 1
  let serverDuckdbVersion ← readString
  expectField 2
  let serverPlatform ← readString
  expectField 3
  let quackVersion ← readU64
  pure ⟨serverDuckdbVersion, serverPlatform, UInt64.ofNat quackVersion⟩

/-- `PrepareRequest` and `ErrorResponse`: one string. -/
def encodeText (text : String) : Bytes :=
  [beginProperty 1, writeString text].flatten

def decodeText : Decoder String := do
  expectField 1
  readString

def encodeFetchRequest (uuid : BitVec 128) : Bytes :=
  [beginProperty 1, writeHugeint uuid].flatten

def decodeFetchRequest : Decoder (BitVec 128) := do
  expectField 1
  readHugeint

def encodeDataChunkWrapper (chunk : DataChunk) : Bytes :=
  [beginNullable true, beginProperty 300, chunk.encode, endObject, endObject].flatten

def decodeDataChunkWrapper : Decoder DataChunk := do
  let present ← readNullablePresent
  refuseWhen (present = false) .nullDataChunkWrapper
  expectField 300
  let chunk ← DataChunk.decode
  expectObjectEnd
  expectObjectEnd
  pure chunk

/-- The results, left out when there are none. -/
def encodeResults (fieldId : Nat) (results : List DataChunk) : Bytes :=
  elided (!results.isEmpty) (beginProperty fieldId ++
    (beginList results.length ++ results.flatMap encodeDataChunkWrapper))

def decodeChunks : Decoder (List DataChunk) := do
  let count ← readBoundedCount
  times count decodeDataChunkWrapper

def decodeResults (fieldId : Nat) : Decoder (List DataChunk) :=
  readDefault fieldId decodeChunks []

structure PrepareResponse where
  resultTypes : List LogicalType
  resultNames : List String
  needsMoreFetch : Bool
  results : List DataChunk
  resultUuid : BitVec 128

def PrepareResponse.encode (b : PrepareResponse) : Bytes :=
  [beginProperty 1, beginList b.resultTypes.length, b.resultTypes.flatMap encodeTypeObject,
    beginProperty 2, beginList b.resultNames.length, b.resultNames.flatMap writeString,
    elided b.needsMoreFetch (beginProperty 3 ++ writeBool b.needsMoreFetch),
    encodeResults 4 b.results, beginProperty 5, writeHugeint b.resultUuid].flatten

def PrepareResponse.decode : Decoder PrepareResponse := do
  expectField 1
  let typeCount ← readBoundedCount
  let resultTypes ← times typeCount decodeTypeObject
  expectField 2
  let nameCount ← readBoundedCount
  let resultNames ← times nameCount readString
  let needsMoreFetch ← readDefault 3 readBool false
  let results ← decodeResults 4
  expectField 5
  let resultUuid ← readHugeint
  pure ⟨resultTypes, resultNames, needsMoreFetch, results, resultUuid⟩

structure FetchResponse where
  results : List DataChunk
  batchIndex : Option UInt64

def FetchResponse.encode (b : FetchResponse) : Bytes :=
  [encodeResults 1 b.results, beginProperty 2, writeOptionalIdx b.batchIndex].flatten

def FetchResponse.decode : Decoder FetchResponse := do
  let results ← decodeResults 1
  expectField 2
  let batchIndex ← readOptionalIdx
  pure ⟨results, batchIndex⟩

inductive QuackMessage
  | connectionRequest (body : ConnectionRequest)
  | connectionResponse (body : ConnectionResponse)
  | prepareRequest (sqlQuery : String)
  | prepareResponse (body : PrepareResponse)
  | fetchRequest (uuid : BitVec 128)
  | fetchResponse (body : FetchResponse)
  | successResponse
  | disconnectMessage
  | errorResponse (message : String)

def QuackMessage.messageType : QuackMessage → MessageType
  | .connectionRequest _ => .connectionRequest
  | .connectionResponse _ => .connectionResponse
  | .prepareRequest _ => .prepareRequest
  | .prepareResponse _ => .prepareResponse
  | .fetchRequest _ => .fetchRequest
  | .fetchResponse _ => .fetchResponse
  | .successResponse => .successResponse
  | .disconnectMessage => .disconnectMessage
  | .errorResponse _ => .errorResponse

def QuackMessage.encode : QuackMessage → Bytes
  | .connectionRequest body => body.encode
  | .connectionResponse body => body.encode
  | .prepareRequest sqlQuery => encodeText sqlQuery
  | .prepareResponse body => body.encode
  | .fetchRequest uuid => encodeFetchRequest uuid
  | .fetchResponse body => body.encode
  | .successResponse => []
  | .disconnectMessage => []
  | .errorResponse message => encodeText message

def encodeMessage (header : MessageHeader) (body : QuackMessage) : Bytes :=
  [header.encode, endObject, body.encode, endObject].flatten

def QuackMessage.decode : MessageType → Decoder QuackMessage
  | .connectionRequest => do pure (.connectionRequest (← ConnectionRequest.decode))
  | .connectionResponse => do pure (.connectionResponse (← ConnectionResponse.decode))
  | .prepareRequest => do pure (.prepareRequest (← decodeText))
  | .prepareResponse => do pure (.prepareResponse (← PrepareResponse.decode))
  | .fetchRequest => do pure (.fetchRequest (← decodeFetchRequest))
  | .fetchResponse => do pure (.fetchResponse (← FetchResponse.decode))
  | .appendRequest => throw (.unknownMessageType 9)
  | .successResponse => pure .successResponse
  | .disconnectMessage => pure .disconnectMessage
  | .errorResponse => do pure (.errorResponse (← decodeText))
  | other => throw (.unsupportedMessageType other)

def decodeEnvelope : Decoder (MessageHeader × QuackMessage) := do
  let header ← MessageHeader.decode
  expectObjectEnd
  let body ← QuackMessage.decode header.type
  expectObjectEnd
  pure (header, body)

/-- Bytes after the message are ignored. -/
def decodeMessage (bytes : Bytes) : Except WireError (MessageHeader × QuackMessage) :=
  (decodeEnvelope.run bytes).map Prod.fst

end Sqe.Quack
