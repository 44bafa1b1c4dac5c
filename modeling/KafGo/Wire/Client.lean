import KafGo.Wire.Basic

/-!
# Producers and consumer groups

The requests of producers and of the members of consumer groups.
-/

namespace KafGo.Wire
open Lib Scanner

variable [Memory]

structure ProduceRequestPartitionData where
  index : Int32
  records : CompactRecords

instance : Sized ProduceRequestPartitionData := .ofBytes 32

structure ProduceRequestTopicData where
  topicId : UUID
  partitionData : Slice ProduceRequestPartitionData

instance : Sized ProduceRequestTopicData := .ofBytes 56

structure ProduceRequest where
  transactionId : CompactNullableString
  acks : Int16
  timeoutMs : Int32
  topicData : Slice ProduceRequestTopicData

structure InitProducerIdRequest where
  transactionalId : CompactNullableString
  transactionTimeoutMs : Int32
  producerId : Int64
  producerEpoch : Int16

def ProduceRequestPartitionData.decode : Decoder ProduceRequestPartitionData := do
  let index ← readInt32
  let records ← readCompactRecords
  readTaggedFields
  return ⟨index, records⟩

def ProduceRequestTopicData.decode : Decoder ProduceRequestTopicData := do
  let topicId ← readUUID
  let partitionData ← readArray fun _ => ProduceRequestPartitionData.decode
  readTaggedFields
  return ⟨topicId, partitionData⟩

def ProduceRequest.decode : Decoder ProduceRequest := do
  let transactionId ← readCompactNullableString
  let acks ← readInt16
  let timeoutMs ← readInt32
  let topicData ← readArray fun _ => ProduceRequestTopicData.decode
  readTaggedFields
  return ⟨transactionId, acks, timeoutMs, topicData⟩

def InitProducerIdRequest.decode : Decoder InitProducerIdRequest := do
  let transactionalId ← readCompactNullableString
  let transactionTimeoutMs ← readInt32
  let producerId ← readInt64
  let producerEpoch ← readInt16
  readTaggedFields
  return ⟨transactionalId, transactionTimeoutMs, producerId, producerEpoch⟩

structure FindCoordinatorRequest where
  keyType : Int8
  coordinatorKeys : Slice CompactString

structure HeartbeatRequest where
  groupID : CompactString
  generationID : Int32
  memberID : CompactString
  groupInstanceID : CompactNullableString

structure JoinGroupProtocol where
  name : CompactString
  metadata : CompactBytes

instance : Sized JoinGroupProtocol := .ofBytes 40

structure JoinGroupRequest where
  groupID : CompactString
  sessionTimeoutMs : Int32
  rebalanceTimeoutMs : Int32
  memberID : CompactString
  groupInstanceID : CompactNullableString
  protocolType : CompactString
  protocols : Slice JoinGroupProtocol
  reason : CompactNullableString

structure SyncGroupAssignment where
  memberID : CompactString
  assignment : CompactBytes

instance : Sized SyncGroupAssignment := .ofBytes 40

structure SyncGroupRequest where
  groupID : CompactString
  generationID : Int32
  memberID : CompactString
  groupInstanceID : CompactNullableString
  protocolType : CompactNullableString
  protocolName : CompactNullableString
  assignments : Slice SyncGroupAssignment

structure LeaveGroupMember where
  memberID : CompactString
  groupInstanceID : CompactNullableString
  reason : CompactNullableString

instance : Sized LeaveGroupMember := .ofBytes 32

structure LeaveGroupRequest where
  groupID : CompactString
  members : Slice LeaveGroupMember

def FindCoordinatorRequest.decode : Decoder FindCoordinatorRequest := do
  let keyType ← readInt8
  let coordinatorKeys ← readArray fun _ => readCompactString
  readTaggedFields
  return ⟨keyType, coordinatorKeys⟩

def HeartbeatRequest.decode : Decoder HeartbeatRequest := do
  let groupID ← readCompactString
  let generationID ← readInt32
  let memberID ← readCompactString
  let groupInstanceID ← readCompactNullableString
  readTaggedFields
  return ⟨groupID, generationID, memberID, groupInstanceID⟩

def JoinGroupProtocol.decode : Decoder JoinGroupProtocol := do
  let name ← readCompactString
  let metadata ← readCompactBytes
  readTaggedFields
  return ⟨name, metadata⟩

def JoinGroupRequest.decode : Decoder JoinGroupRequest := do
  let groupID ← readCompactString
  let sessionTimeoutMs ← readInt32
  let rebalanceTimeoutMs ← readInt32
  let memberID ← readCompactString
  let groupInstanceID ← readCompactNullableString
  let protocolType ← readCompactString
  let protocols ← readArray fun _ => JoinGroupProtocol.decode
  let reason ← readCompactNullableString
  readTaggedFields
  return ⟨groupID, sessionTimeoutMs, rebalanceTimeoutMs, memberID, groupInstanceID, protocolType, protocols, reason⟩

def SyncGroupAssignment.decode : Decoder SyncGroupAssignment := do
  let memberID ← readCompactString
  let assignment ← readCompactBytes
  readTaggedFields
  return ⟨memberID, assignment⟩

def SyncGroupRequest.decode : Decoder SyncGroupRequest := do
  let groupID ← readCompactString
  let generationID ← readInt32
  let memberID ← readCompactString
  let groupInstanceID ← readCompactNullableString
  let protocolType ← readCompactNullableString
  let protocolName ← readCompactNullableString
  let assignments ← readArray fun _ => SyncGroupAssignment.decode
  readTaggedFields
  return ⟨groupID, generationID, memberID, groupInstanceID, protocolType, protocolName, assignments⟩

def LeaveGroupMember.decode : Decoder LeaveGroupMember := do
  let memberID ← readCompactString
  let groupInstanceID ← readCompactNullableString
  let reason ← readCompactNullableString
  readTaggedFields
  return ⟨memberID, groupInstanceID, reason⟩

def LeaveGroupRequest.decode : Decoder LeaveGroupRequest := do
  let groupID ← readCompactString
  let members ← readArray fun _ => LeaveGroupMember.decode
  readTaggedFields
  return ⟨groupID, members⟩

structure OffsetCommitPartition where
  partitionIndex : Int32
  committedOffset : Int64
  committedLeaderEpoch : Int32
  committedMetadata : CompactNullableString

instance : Sized OffsetCommitPartition := .ofBytes 32

structure OffsetCommitTopic where
  topic : CompactString
  partitions : Slice OffsetCommitPartition

instance : Sized OffsetCommitTopic := .ofBytes 40

structure OffsetCommitRequest where
  groupID : CompactString
  generationIDOrMemberEpoch : Int32
  memberID : CompactString
  groupInstanceID : CompactNullableString
  topics : Slice OffsetCommitTopic

structure OffsetFetchTopic where
  topic : CompactString
  partitionIndexes : Slice Int32

instance : Sized OffsetFetchTopic := .ofBytes 40

structure OffsetFetchGroup where
  groupID : CompactString
  topics : Slice OffsetFetchTopic

instance : Sized OffsetFetchGroup := .ofBytes 40

structure OffsetFetchRequest where
  groups : Slice OffsetFetchGroup
  requireStable : Bool

def OffsetCommitPartition.decode : Decoder OffsetCommitPartition := do
  let partitionIndex ← readInt32
  let committedOffset ← readInt64
  let committedLeaderEpoch ← readInt32
  let committedMetadata ← readCompactNullableString
  readTaggedFields
  return ⟨partitionIndex, committedOffset, committedLeaderEpoch, committedMetadata⟩

def OffsetCommitTopic.decode : Decoder OffsetCommitTopic := do
  let topic ← readCompactString
  let partitions ← readArray fun _ => OffsetCommitPartition.decode
  readTaggedFields
  return ⟨topic, partitions⟩

def OffsetCommitRequest.decode : Decoder OffsetCommitRequest := do
  let groupID ← readCompactString
  let generationIDOrMemberEpoch ← readInt32
  let memberID ← readCompactString
  let groupInstanceID ← readCompactNullableString
  let topics ← readArray fun _ => OffsetCommitTopic.decode
  readTaggedFields
  return ⟨groupID, generationIDOrMemberEpoch, memberID, groupInstanceID, topics⟩

def OffsetFetchTopic.decode : Decoder OffsetFetchTopic := do
  let topic ← readCompactString
  let partitionIndexes ← readArray fun _ => readInt32
  readTaggedFields
  return ⟨topic, partitionIndexes⟩

def OffsetFetchGroup.decode : Decoder OffsetFetchGroup := do
  let groupID ← readCompactString
  let topics ← readArray fun _ => OffsetFetchTopic.decode
  readTaggedFields
  return ⟨groupID, topics⟩

def OffsetFetchRequest.decode : Decoder OffsetFetchRequest := do
  let groups ← readArray fun _ => OffsetFetchGroup.decode
  let requireStable ← readBool
  readTaggedFields
  return ⟨groups, requireStable⟩

end KafGo.Wire
