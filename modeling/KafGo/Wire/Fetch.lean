import KafGo.Wire.Basic

/-!
# Fetch requests and responses

The request decodes the tagged fields it knows and skips the others. The response is decoded by followers, which skip
all its tagged fields.
-/

namespace KafGo.Wire
open Lib Scanner

variable [Memory]

/-! ### Request -/

structure FetchPartition where
  partition : Int32
  currentLeaderEpoch : Int32
  fetchOffset : Int64
  lastFetchedEpoch : Int32
  logStartOffset : Int64
  partitionMaxBytes : Int32
  replicaDirectoryId : Option UUID
  highWatermark : Option Int64

instance : Sized FetchPartition := .ofBytes 56

structure FetchTopic where
  topicId : UUID
  partitions : Slice FetchPartition

instance : Sized FetchTopic := .ofBytes 40

structure ForgottenTopic where
  topicId : UUID
  partitions : Slice Int32

instance : Sized ForgottenTopic := .ofBytes 40

structure ReplicaState where
  replicaId : Int32
  replicaEpoch : Int64

structure FetchRequest where
  maxWaitMs : Int32
  minBytes : Int32
  maxBytes : Int32
  isolationLevel : Int8
  sessionId : Int32
  sessionEpoch : Int32
  topics : Slice FetchTopic
  forgottenTopics : Slice ForgottenTopic
  rackId : CompactString
  clusterId : CompactNullableString
  replicaState : Option ReplicaState

def optional {α : Type} (value : Option α) (write : α → Bytes) : Bytes := (value.map write).getD []

def setFields (fields : List Bool) : UInt64 := .ofNat (fields.count true)

namespace FetchPartition

def encodeTaggedFields (p : FetchPartition) : Bytes :=
  writeUVarInt (setFields [p.replicaDirectoryId.isSome, p.highWatermark.isSome]) ++
    optional p.replicaDirectoryId (fun id => writeUVarInt 0 ++ writeUVarInt 16 ++ writeUUID id) ++
    optional p.highWatermark (fun hw => writeUVarInt 1 ++ writeUVarInt 8 ++ writeInt64 hw)

def encode (p : FetchPartition) : Bytes :=
  writeInt32 p.partition ++ writeInt32 p.currentLeaderEpoch ++ writeInt64 p.fetchOffset ++
    writeInt32 p.lastFetchedEpoch ++ writeInt64 p.logStartOffset ++ writeInt32 p.partitionMaxBytes ++
    p.encodeTaggedFields

def decodeTaggedField (fields : Option UUID × Option Int64) : Decoder (Option UUID × Option Int64) := do
  let (tag, size) ← readTag
  if tag = 0 then return (some (← within "replica_directory_id tag" readUUID), fields.2)
  else if tag = 1 then return (fields.1, some (← within "high_watermark tag" readInt64))
  else
    within ("skip unknown tag " ++ toString tag) (readRawBytes (asInt size))
    return fields

def decodeTaggedFields : Decoder (Option UUID × Option Int64) := do
  let count ← readUVarInt
  repeated decodeTaggedField count.toNat (none, none)

def decode : Decoder FetchPartition := do
  let partition ← readInt32
  let currentLeaderEpoch ← readInt32
  let fetchOffset ← readInt64
  let lastFetchedEpoch ← readInt32
  let logStartOffset ← readInt64
  let partitionMaxBytes ← readInt32
  let fields ← decodeTaggedFields
  return ⟨partition, currentLeaderEpoch, fetchOffset, lastFetchedEpoch, logStartOffset, partitionMaxBytes, fields.1,
    fields.2⟩

end FetchPartition

namespace FetchTopic

def encode (t : FetchTopic) : Bytes :=
  writeUUID t.topicId ++ writeCompactArray t.partitions FetchPartition.encode ++ writeEmptyTaggedFields

def decode : Decoder FetchTopic := do
  let topicId ← readUUID
  let partitions ← readArray fun i => within (indexed "partition" i) FetchPartition.decode
  readTaggedFields
  return ⟨topicId, partitions⟩

end FetchTopic

namespace ForgottenTopic

def encode (f : ForgottenTopic) : Bytes :=
  writeUUID f.topicId ++ writeCompactArray f.partitions writeInt32 ++ writeEmptyTaggedFields

def decode : Decoder ForgottenTopic := do
  let topicId ← readUUID
  let partitions ← readArray fun i => within (indexed "forgotten partition" i) readInt32
  readTaggedFields
  return ⟨topicId, partitions⟩

end ForgottenTopic

namespace FetchRequest

def encodeTaggedFields (f : FetchRequest) : Bytes :=
  writeUVarInt (setFields [f.clusterId.isSome, f.replicaState.isSome]) ++
    optional f.clusterId (fun s =>
      let size := uvarIntSize (.ofNat (s.bytes.length + 1)) + s.bytes.length
      writeUVarInt 0 ++ writeUVarInt (.ofNat size) ++ writeCompactNullableString (some s)) ++
    optional f.replicaState (fun state =>
      writeUVarInt 1 ++ writeUVarInt 12 ++ writeInt32 state.replicaId ++ writeInt64 state.replicaEpoch)

def encode (f : FetchRequest) : Bytes :=
  writeInt32 f.maxWaitMs ++ writeInt32 f.minBytes ++ writeInt32 f.maxBytes ++ writeInt8 f.isolationLevel ++
    writeInt32 f.sessionId ++ writeInt32 f.sessionEpoch ++ writeCompactArray f.topics FetchTopic.encode ++
    writeCompactArray f.forgottenTopics ForgottenTopic.encode ++ writeCompactString f.rackId ++ f.encodeTaggedFields

def decodeTaggedField (fields : CompactNullableString × Option ReplicaState) :
    Decoder (CompactNullableString × Option ReplicaState) := do
  let (tag, size) ← readTag
  if tag = 0 then return (← within "cluster_id tag" readCompactNullableString, fields.2)
  else if tag = 1 then
    let replicaId ← within "replica_state.replica_id" readInt32
    let replicaEpoch ← within "replica_state.replica_epoch" readInt64
    return (fields.1, some ⟨replicaId, replicaEpoch⟩)
  else
    within ("skip unknown tag " ++ toString tag) (readRawBytes (asInt size))
    return fields

def decodeTaggedFields : Decoder (CompactNullableString × Option ReplicaState) := do
  let count ← readUVarInt
  repeated decodeTaggedField count.toNat (none, none)

def decode : Decoder FetchRequest := do
  let maxWaitMs ← readInt32
  let minBytes ← readInt32
  let maxBytes ← readInt32
  let isolationLevel ← readInt8
  let sessionId ← readInt32
  let sessionEpoch ← readInt32
  let topics ← readArray fun i => within (indexed "topic" i) FetchTopic.decode
  let forgottenTopics ← readArray fun i => within (indexed "forgotten_topic" i) ForgottenTopic.decode
  let rackId ← readCompactString
  let fields ← decodeTaggedFields
  return ⟨maxWaitMs, minBytes, maxBytes, isolationLevel, sessionId, sessionEpoch, topics, forgottenTopics, rackId,
    fields.1, fields.2⟩

end FetchRequest

/-! ### Response -/

structure AbortedTransaction where
  producerId : Int64
  firstOffset : Int64

instance : Sized AbortedTransaction := .ofBytes 16

structure DivergingEpoch where
  epoch : Int32
  endOffset : Int64

structure CurrentLeader where
  leaderId : Int32
  leaderEpoch : Int32

structure SnapshotId where
  endOffset : Int64
  epoch : Int32

structure NodeEndpoint where
  nodeId : Int32
  host : CompactString
  port : Int32
  rack : CompactNullableString

instance : Sized NodeEndpoint := .ofBytes 40

structure FetchPartitionResponse where
  partitionIndex : Int32
  errorCode : Int16
  highWatermark : Int64
  lastStableOffset : Int64
  logStartOffset : Int64
  abortedTransactions : Slice AbortedTransaction
  preferredReadReplica : Int32
  records : CompactRecords
  divergingEpoch : Option DivergingEpoch
  currentLeader : Option CurrentLeader
  snapshotId : Option SnapshotId

instance : Sized FetchPartitionResponse := .ofBytes 112

structure FetchTopicResponse where
  topicId : UUID
  partitions : Slice FetchPartitionResponse

instance : Sized FetchTopicResponse := .ofBytes 40

structure FetchResponse where
  throttleTimeMs : Int32
  errorCode : Int16
  sessionId : Int32
  responses : Slice FetchTopicResponse
  nodeEndpoints : Slice NodeEndpoint

def AbortedTransaction.encode (at' : AbortedTransaction) : Bytes :=
  writeInt64 at'.producerId ++ writeInt64 at'.firstOffset ++ writeEmptyTaggedFields

def AbortedTransaction.decode : Decoder AbortedTransaction := do
  let producerId ← readInt64
  let firstOffset ← readInt64
  readTaggedFields
  return ⟨producerId, firstOffset⟩

def NodeEndpoint.encode (n : NodeEndpoint) : Bytes :=
  writeInt32 n.nodeId ++ writeCompactString n.host ++ writeInt32 n.port ++ writeCompactNullableString n.rack ++
    writeEmptyTaggedFields

namespace FetchPartitionResponse

def encodeTaggedFields (p : FetchPartitionResponse) : Bytes :=
  writeUVarInt (setFields [p.divergingEpoch.isSome, p.currentLeader.isSome, p.snapshotId.isSome]) ++
    optional p.divergingEpoch (fun d => writeTag 0 (writeInt32 d.epoch ++ writeInt64 d.endOffset)) ++
    optional p.currentLeader (fun l => writeTag 1 (writeInt32 l.leaderId ++ writeInt32 l.leaderEpoch)) ++
    optional p.snapshotId (fun s => writeTag 2 (writeInt64 s.endOffset ++ writeInt32 s.epoch))

def encode (p : FetchPartitionResponse) : Bytes :=
  writeInt32 p.partitionIndex ++ writeInt16 p.errorCode ++ writeInt64 p.highWatermark ++
    writeInt64 p.lastStableOffset ++ writeInt64 p.logStartOffset ++
    writeCompactArray p.abortedTransactions AbortedTransaction.encode ++ writeInt32 p.preferredReadReplica ++
    writeCompactRecords p.records ++ p.encodeTaggedFields

def decode : Decoder FetchPartitionResponse := do
  let partitionIndex ← readInt32
  let errorCode ← readInt16
  let highWatermark ← readInt64
  let lastStableOffset ← readInt64
  let logStartOffset ← readInt64
  let abortedTransactions ← appendArray AbortedTransaction.decode
  let preferredReadReplica ← readInt32
  let records ← readCompactRecords
  readTaggedFields
  return ⟨partitionIndex, errorCode, highWatermark, lastStableOffset, logStartOffset, abortedTransactions,
    preferredReadReplica, records, none, none, none⟩

end FetchPartitionResponse

namespace FetchTopicResponse

def encode (t : FetchTopicResponse) : Bytes :=
  writeUUID t.topicId ++ writeCompactArray t.partitions FetchPartitionResponse.encode ++ writeEmptyTaggedFields

def decode : Decoder FetchTopicResponse := do
  let topicId ← readUUID
  let partitions ← readArray fun _ => FetchPartitionResponse.decode
  readTaggedFields
  return ⟨topicId, partitions⟩

end FetchTopicResponse

namespace FetchResponse

def encodeTaggedFields (f : FetchResponse) : Bytes :=
  if f.nodeEndpoints.elems.length = 0 then writeEmptyTaggedFields
  else writeUVarInt 1 ++ writeTag 0 (writeCompactArray f.nodeEndpoints NodeEndpoint.encode)

def encode (f : FetchResponse) : Bytes :=
  writeInt32 f.throttleTimeMs ++ writeInt16 f.errorCode ++ writeInt32 f.sessionId ++
    writeCompactArray f.responses FetchTopicResponse.encode ++ f.encodeTaggedFields

def decode : Decoder FetchResponse := do
  let throttleTimeMs ← readInt32
  let errorCode ← readInt16
  let sessionId ← readInt32
  let responses ← readArray fun _ => FetchTopicResponse.decode
  readTaggedFields
  return ⟨throttleTimeMs, errorCode, sessionId, responses, .nil⟩

end FetchResponse

end KafGo.Wire
