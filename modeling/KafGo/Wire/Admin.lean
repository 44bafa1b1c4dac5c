import KafGo.Wire.Basic

/-!
# Topics, metadata and brokers

The requests for topics, offsets of a log and metadata, and those that brokers send to the controller.
-/

namespace KafGo.Wire
open Lib Scanner

variable [Memory]

/-! ### Creating topics -/

structure CreateTopicAssignment where
  partitionIndex : Int32
  brokerIds : Slice Int32

instance : Sized CreateTopicAssignment := .ofBytes 32

structure CreateTopicConfig where
  name : CompactString
  value : CompactNullableString

instance : Sized CreateTopicConfig := .ofBytes 24

structure CreateTopicData where
  name : CompactString
  numPartitions : Int32
  replicationFactor : Int16
  assignments : Slice CreateTopicAssignment
  configs : Slice CreateTopicConfig

instance : Sized CreateTopicData := .ofBytes 72

structure CreateTopicsRequest where
  topics : Slice CreateTopicData
  timeoutMs : Int32
  validateOnly : Bool

namespace CreateTopicAssignment

def encode (c : CreateTopicAssignment) : Bytes :=
  writeInt32 c.partitionIndex ++ writeCompactArray c.brokerIds writeInt32 ++ writeUVarInt 0

def decode : Decoder CreateTopicAssignment := do
  let partitionIndex ← readInt32
  let brokerIds ← appendArray readInt32
  readTaggedFields
  return ⟨partitionIndex, brokerIds⟩

end CreateTopicAssignment

namespace CreateTopicConfig

def encode (c : CreateTopicConfig) : Bytes :=
  writeCompactString c.name ++ writeCompactNullableString c.value ++ writeUVarInt 0

def decode : Decoder CreateTopicConfig := do
  let name ← readCompactString
  let value ← readCompactNullableString
  readTaggedFields
  return ⟨name, value⟩

end CreateTopicConfig

namespace CreateTopicData

def encode (c : CreateTopicData) : Bytes :=
  writeCompactString c.name ++ writeInt32 c.numPartitions ++ writeInt16 c.replicationFactor ++
    writeCompactArray c.assignments CreateTopicAssignment.encode ++
    writeCompactArray c.configs CreateTopicConfig.encode ++ writeUVarInt 0

def decode : Decoder CreateTopicData := do
  let name ← readCompactString
  let numPartitions ← readInt32
  let replicationFactor ← readInt16
  let assignments ← appendArray CreateTopicAssignment.decode
  let configs ← appendArray CreateTopicConfig.decode
  readTaggedFields
  return ⟨name, numPartitions, replicationFactor, assignments, configs⟩

end CreateTopicData

namespace CreateTopicsRequest

def encode (c : CreateTopicsRequest) : Bytes :=
  writeCompactArray c.topics CreateTopicData.encode ++ writeInt32 c.timeoutMs ++ writeBool c.validateOnly ++
    writeEmptyTaggedFields

def decode : Decoder CreateTopicsRequest := do
  let topics ← appendArray CreateTopicData.decode
  let timeoutMs ← readInt32
  let validateOnly ← readBool
  readTaggedFields
  return ⟨topics, timeoutMs, validateOnly⟩

end CreateTopicsRequest

structure CreateTopicConfigResponse where
  name : CompactString
  value : CompactNullableString
  readOnly : Bool
  configSource : Int8
  isSensitive : Bool
  topicConfigErrorCode : Int16

instance : Sized CreateTopicConfigResponse := .ofBytes 32

structure CreateTopicResponseData where
  name : CompactString
  topicId : UUID
  errorCode : Int16
  errorMessage : CompactNullableString
  numPartitions : Int32
  replicationFactor : Int16
  configs : Slice CreateTopicConfigResponse

instance : Sized CreateTopicResponseData := .ofBytes 80

structure CreateTopicsResponse where
  throttleTimeMs : Int32
  topics : Slice CreateTopicResponseData

namespace CreateTopicConfigResponse

def encode (c : CreateTopicConfigResponse) : Bytes :=
  writeCompactString c.name ++ writeCompactNullableString c.value ++ writeBool c.readOnly ++
    writeInt8 c.configSource ++ writeBool c.isSensitive ++ writeInt16 c.topicConfigErrorCode ++ writeEmptyTaggedFields

def decode : Decoder CreateTopicConfigResponse := do
  let name ← readCompactString
  let value ← readCompactNullableString
  let readOnly ← readBool
  let configSource ← readInt8
  let isSensitive ← readBool
  let topicConfigErrorCode ← readInt16
  readTaggedFields
  return ⟨name, value, readOnly, configSource, isSensitive, topicConfigErrorCode⟩

end CreateTopicConfigResponse

namespace CreateTopicResponseData

def encode (c : CreateTopicResponseData) : Bytes :=
  writeCompactString c.name ++ writeUUID c.topicId ++ writeInt16 c.errorCode ++
    writeCompactNullableString c.errorMessage ++ writeInt32 c.numPartitions ++ writeInt16 c.replicationFactor ++
    writeCompactArray c.configs CreateTopicConfigResponse.encode ++ writeEmptyTaggedFields

def decode : Decoder CreateTopicResponseData := do
  let name ← readCompactString
  let topicId ← readUUID
  let errorCode ← readInt16
  let errorMessage ← readCompactNullableString
  let numPartitions ← readInt32
  let replicationFactor ← readInt16
  let configs ← appendArray CreateTopicConfigResponse.decode
  readTaggedFields
  return ⟨name, topicId, errorCode, errorMessage, numPartitions, replicationFactor, configs⟩

end CreateTopicResponseData

namespace CreateTopicsResponse

def encode (c : CreateTopicsResponse) : Bytes :=
  writeInt32 c.throttleTimeMs ++ writeCompactArray c.topics CreateTopicResponseData.encode ++ writeEmptyTaggedFields

def decode : Decoder CreateTopicsResponse := do
  let throttleTimeMs ← readInt32
  let topics ← appendArray CreateTopicResponseData.decode
  readTaggedFields
  return ⟨throttleTimeMs, topics⟩

end CreateTopicsResponse

/-! ### Brokers -/

structure BrokerListener where
  name : CompactString
  host : CompactString
  port : Int32
  securityProtocol : Int16

instance : Sized BrokerListener := .ofBytes 40

structure BrokerFeature where
  name : CompactString
  minSupportedVersion : Int16
  maxSupportedVersion : Int16

instance : Sized BrokerFeature := .ofBytes 24

structure BrokerRegistrationRequest where
  brokerId : Int32
  clusterId : CompactString
  incarnationId : UUID
  listeners : Slice BrokerListener
  features : Slice BrokerFeature
  rack : CompactNullableString

structure BrokerRegistrationResponse where
  throttleTimeMs : Int32
  errorCode : Int16
  brokerEpoch : Int64

structure BrokerHeartbeatRequest where
  brokerId : Int32
  brokerEpoch : Int64
  currentMetadataOffset : Int64
  wantFence : Bool
  wantShutDown : Bool

structure BrokerHeartbeatResponse where
  throttleTimeMs : Int32
  errorCode : Int16
  isCaughtUp : Bool
  isFenced : Bool
  shouldShutDown : Bool

namespace BrokerListener

def encode (l : BrokerListener) : Bytes :=
  writeCompactString l.name ++ writeCompactString l.host ++ writeInt32 l.port ++ writeInt16 l.securityProtocol ++
    writeEmptyTaggedFields

def decode : Decoder BrokerListener := do
  let name ← readCompactString
  let host ← readCompactString
  let port ← readInt32
  let securityProtocol ← readInt16
  readTaggedFields
  return ⟨name, host, port, securityProtocol⟩

end BrokerListener

namespace BrokerFeature

def encode (f : BrokerFeature) : Bytes :=
  writeCompactString f.name ++ writeInt16 f.minSupportedVersion ++ writeInt16 f.maxSupportedVersion ++
    writeEmptyTaggedFields

def decode : Decoder BrokerFeature := do
  let name ← readCompactString
  let minSupportedVersion ← readInt16
  let maxSupportedVersion ← readInt16
  readTaggedFields
  return ⟨name, minSupportedVersion, maxSupportedVersion⟩

end BrokerFeature

namespace BrokerRegistrationRequest

def encode (b : BrokerRegistrationRequest) : Bytes :=
  writeInt32 b.brokerId ++ writeCompactString b.clusterId ++ writeUUID b.incarnationId ++
    writeCompactArray b.listeners BrokerListener.encode ++ writeCompactArray b.features BrokerFeature.encode ++
    writeCompactNullableString b.rack ++ writeEmptyTaggedFields

def decode : Decoder BrokerRegistrationRequest := do
  let brokerId ← readInt32
  let clusterId ← readCompactString
  let incarnationId ← readUUID
  let listeners ← readArray fun _ => BrokerListener.decode
  let features ← readArray fun _ => BrokerFeature.decode
  let rack ← readCompactNullableString
  readTaggedFields
  return ⟨brokerId, clusterId, incarnationId, listeners, features, rack⟩

end BrokerRegistrationRequest

namespace BrokerRegistrationResponse

def encode (b : BrokerRegistrationResponse) : Bytes :=
  writeInt32 b.throttleTimeMs ++ writeInt16 b.errorCode ++ writeInt64 b.brokerEpoch ++ writeEmptyTaggedFields

def decode : Decoder BrokerRegistrationResponse := do
  let throttleTimeMs ← readInt32
  let errorCode ← readInt16
  let brokerEpoch ← readInt64
  readTaggedFields
  return ⟨throttleTimeMs, errorCode, brokerEpoch⟩

end BrokerRegistrationResponse

namespace BrokerHeartbeatRequest

def encode (b : BrokerHeartbeatRequest) : Bytes :=
  writeInt32 b.brokerId ++ writeInt64 b.brokerEpoch ++ writeInt64 b.currentMetadataOffset ++ writeBool b.wantFence ++
    writeBool b.wantShutDown ++ writeEmptyTaggedFields

def decode : Decoder BrokerHeartbeatRequest := do
  let brokerId ← readInt32
  let brokerEpoch ← readInt64
  let currentMetadataOffset ← readInt64
  let wantFence ← readBool
  let wantShutDown ← readBool
  readTaggedFields
  return ⟨brokerId, brokerEpoch, currentMetadataOffset, wantFence, wantShutDown⟩

end BrokerHeartbeatRequest

namespace BrokerHeartbeatResponse

def encode (b : BrokerHeartbeatResponse) : Bytes :=
  writeInt32 b.throttleTimeMs ++ writeInt16 b.errorCode ++ writeBool b.isCaughtUp ++ writeBool b.isFenced ++
    writeBool b.shouldShutDown ++ writeEmptyTaggedFields

def decode : Decoder BrokerHeartbeatResponse := do
  let throttleTimeMs ← readInt32
  let errorCode ← readInt16
  let isCaughtUp ← readBool
  let isFenced ← readBool
  let shouldShutDown ← readBool
  readTaggedFields
  return ⟨throttleTimeMs, errorCode, isCaughtUp, isFenced, shouldShutDown⟩

end BrokerHeartbeatResponse

structure ListOffsetsPartition where
  partitionIndex : Int32
  currentLeaderEpoch : Int32
  timestamp : Int64

instance : Sized ListOffsetsPartition := .ofBytes 16

structure ListOffsetsTopic where
  name : CompactString
  partitions : Slice ListOffsetsPartition

instance : Sized ListOffsetsTopic := .ofBytes 40

structure ListOffsetsRequest where
  replicaId : Int32
  isolationLevel : Int8
  topics : Slice ListOffsetsTopic
  timeoutMs : Int32

structure TopicMetadataRequest where
  topicId : UUID
  name : CompactNullableString

instance : Sized TopicMetadataRequest := .ofBytes 24

/-- No topics at all stand for all of them. -/
structure MetaDataRequest where
  topics : Option (Slice TopicMetadataRequest)
  allowAutoTopicCreation : Bool
  includeTopicAuthorizedOperations : Bool

def ListOffsetsPartition.decode : Decoder ListOffsetsPartition := do
  let partitionIndex ← readInt32
  let currentLeaderEpoch ← readInt32
  let timestamp ← readInt64
  readTaggedFields
  return ⟨partitionIndex, currentLeaderEpoch, timestamp⟩

def ListOffsetsTopic.decode : Decoder ListOffsetsTopic := do
  let name ← readCompactString
  let partitions ← readArray fun _ => ListOffsetsPartition.decode
  readTaggedFields
  return ⟨name, partitions⟩

def ListOffsetsRequest.decode : Decoder ListOffsetsRequest := do
  let replicaId ← readInt32
  let isolationLevel ← readInt8
  let topics ← readArray fun _ => ListOffsetsTopic.decode
  let timeoutMs ← readInt32
  readTaggedFields
  return ⟨replicaId, isolationLevel, topics, timeoutMs⟩

def TopicMetadataRequest.decode : Decoder TopicMetadataRequest := do
  let topicId ← readUUID
  let name ← readCompactNullableString
  readTaggedFields
  return ⟨topicId, name⟩

def MetaDataRequest.decodeTopics (topicLen : Int) : Decoder (Option (Slice TopicMetadataRequest)) :=
  if topicLen = -1 then return none
  else do return some (← makeSlice topicLen fun _ => TopicMetadataRequest.decode)

def MetaDataRequest.decode : Decoder MetaDataRequest := do
  let topicLen ← readCompactArrayLen
  let topics ← decodeTopics topicLen
  let allowAutoTopicCreation ← readBool
  let includeTopicAuthorizedOperations ← readBool
  readTaggedFields
  return ⟨topics, allowAutoTopicCreation, includeTopicAuthorizedOperations⟩

end KafGo.Wire
