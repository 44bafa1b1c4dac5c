import KafGo.Wire.Admin
import KafGo.Wire.Client
import KafGo.Wire.Fetch

/-!
# Requests

The header of a request and the choice of the decoder by its API key.
-/

namespace KafGo.Wire
open Lib Scanner

variable [Memory]

structure RequestHeader where
  apiKey : Int16
  apiVersion : Int16
  correlationId : Int32
  clientId : NullableString

/-- The first version of an API with the flexible encoding. -/
def apiFlexibleVersions : List (Int16 × Int16) :=
  [(0, 9), (1, 12), (2, 6), (3, 9), (8, 8), (9, 6), (10, 3), (11, 6), (12, 4), (13, 4), (14, 4), (18, 3), (19, 5),
    (20, 4), (22, 2), (32, 4), (37, 2), (62, 0), (63, 0)]

def isFlexible (apiKey apiVersion : Int16) : Bool :=
  match apiFlexibleVersions.lookup apiKey with
  | none => false
  | some minFlex => decide (apiVersion ≥ minFlex)

def RequestHeader.decode : Decoder RequestHeader := do
  let apiKey ← readInt16
  let apiVersion ← readInt16
  let correlationId ← readInt32
  let clientId ← readNullableString
  if isFlexible apiKey apiVersion then
    readTaggedFields
    return ⟨apiKey, apiVersion, correlationId, clientId⟩
  else return ⟨apiKey, apiVersion, correlationId, clientId⟩

inductive Request where
  | produce (body : ProduceRequest)
  | fetch (body : FetchRequest)
  | listOffsets (body : ListOffsetsRequest)
  | metaData (body : MetaDataRequest)
  | offsetCommit (body : OffsetCommitRequest)
  | offsetFetch (body : OffsetFetchRequest)
  | findCoordinator (body : FindCoordinatorRequest)
  | joinGroup (body : JoinGroupRequest)
  | heartbeat (body : HeartbeatRequest)
  | leaveGroup (body : LeaveGroupRequest)
  | syncGroup (body : SyncGroupRequest)
  | createTopics (body : CreateTopicsRequest)
  | initProducerId (body : InitProducerIdRequest)
  | brokerRegistration (body : BrokerRegistrationRequest)
  | brokerHeartbeat (body : BrokerHeartbeatRequest)
  | undecoded

/-- The `switch` of `HandleRequest`. The body of an ApiVersions request is not decoded, and other keys are not
supported. -/
def decodeBody (apiKey : Int16) : Decoder Request :=
  if apiKey = 0 then do return .produce (← ProduceRequest.decode)
  else if apiKey = 1 then do return .fetch (← FetchRequest.decode)
  else if apiKey = 2 then do return .listOffsets (← ListOffsetsRequest.decode)
  else if apiKey = 3 then do return .metaData (← MetaDataRequest.decode)
  else if apiKey = 8 then do return .offsetCommit (← OffsetCommitRequest.decode)
  else if apiKey = 9 then do return .offsetFetch (← OffsetFetchRequest.decode)
  else if apiKey = 10 then do return .findCoordinator (← FindCoordinatorRequest.decode)
  else if apiKey = 11 then do return .joinGroup (← JoinGroupRequest.decode)
  else if apiKey = 12 then do return .heartbeat (← HeartbeatRequest.decode)
  else if apiKey = 13 then do return .leaveGroup (← LeaveGroupRequest.decode)
  else if apiKey = 14 then do return .syncGroup (← SyncGroupRequest.decode)
  else if apiKey = 19 then do return .createTopics (← CreateTopicsRequest.decode)
  else if apiKey = 22 then do return .initProducerId (← InitProducerIdRequest.decode)
  else if apiKey = 62 then do return .brokerRegistration (← BrokerRegistrationRequest.decode)
  else if apiKey = 63 then do return .brokerHeartbeat (← BrokerHeartbeatRequest.decode)
  else return .undecoded

def decodeRequest : Decoder (RequestHeader × Request) := do
  let header ← RequestHeader.decode
  let body ← decodeBody header.apiKey
  return (header, body)

def maxPayloadSize : Nat := 1024 * 1024 * 100

/-- What `ReadFraming` returns: the payload of a frame, neither empty nor too large. -/
structure Payload where
  bytes : Bytes
  nonempty : bytes ≠ []
  fits : bytes.length ≤ maxPayloadSize

/-- `NewReader(framing)`. -/
def Payload.reader (p : Payload) : Cursor :=
  .start ⟨p.bytes, Nat.le_trans p.fits (by decide)⟩

end KafGo.Wire
