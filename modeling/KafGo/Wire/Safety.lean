import KafGo.Wire.Bounds

/-!
# Requests that are decoded safely

The route of each message, from its fields in their order, and the payloads whose decoding does not panic and stays in
the buffer.
-/

namespace KafGo.Wire
open Lib Scanner Bounds

theorem follows_case {P : Prop} [Decidable P] {α : Type} {d : Decoder α} {others : Decoder Request} {r s : Route}
    (f : α → Request) (follows : Follows d r) (rest : Follows others s) :
    Follows (if P then do return f (← d) else others) (if P then r else s) := by
  split
  · exact follows_last follows f
  · exact rest

section Memory
variable [Memory]

/-! ### Producers and consumer groups -/

def ProduceRequestPartitionData.route : Route := .all [fixed 4, compactRecords, taggedFields]

instance : Follows ProduceRequestPartitionData.decode ProduceRequestPartitionData.route := by
  unfold ProduceRequestPartitionData.decode ProduceRequestPartitionData.route
  infer_instance

def ProduceRequestTopicData.route : Route :=
  .all [fixed 16, made ProduceRequestPartitionData ProduceRequestPartitionData.route, taggedFields]

instance : Follows ProduceRequestTopicData.decode ProduceRequestTopicData.route := by
  unfold ProduceRequestTopicData.decode ProduceRequestTopicData.route
  infer_instance

def ProduceRequest.route : Route :=
  .all [compactNullableString, fixed 2, fixed 4, made ProduceRequestTopicData ProduceRequestTopicData.route,
    taggedFields]

instance : Follows ProduceRequest.decode ProduceRequest.route := by
  unfold ProduceRequest.decode ProduceRequest.route
  infer_instance

def InitProducerIdRequest.route : Route := .all [compactNullableString, fixed 4, fixed 8, fixed 2, taggedFields]

instance : Follows InitProducerIdRequest.decode InitProducerIdRequest.route := by
  unfold InitProducerIdRequest.decode InitProducerIdRequest.route
  infer_instance

def FindCoordinatorRequest.route : Route := .all [fixed 1, made CompactString compactString, taggedFields]

instance : Follows FindCoordinatorRequest.decode FindCoordinatorRequest.route := by
  unfold FindCoordinatorRequest.decode FindCoordinatorRequest.route
  infer_instance

def HeartbeatRequest.route : Route := .all [compactString, fixed 4, compactString, compactNullableString, taggedFields]

instance : Follows HeartbeatRequest.decode HeartbeatRequest.route := by
  unfold HeartbeatRequest.decode HeartbeatRequest.route
  infer_instance

def JoinGroupProtocol.route : Route := .all [compactString, compactBytes, taggedFields]

instance : Follows JoinGroupProtocol.decode JoinGroupProtocol.route := by
  unfold JoinGroupProtocol.decode JoinGroupProtocol.route
  infer_instance

def JoinGroupRequest.route : Route :=
  .all [compactString, fixed 4, fixed 4, compactString, compactNullableString, compactString,
    made JoinGroupProtocol JoinGroupProtocol.route, compactNullableString, taggedFields]

instance : Follows JoinGroupRequest.decode JoinGroupRequest.route := by
  unfold JoinGroupRequest.decode JoinGroupRequest.route
  infer_instance

def SyncGroupAssignment.route : Route := .all [compactString, compactBytes, taggedFields]

instance : Follows SyncGroupAssignment.decode SyncGroupAssignment.route := by
  unfold SyncGroupAssignment.decode SyncGroupAssignment.route
  infer_instance

def SyncGroupRequest.route : Route :=
  .all [compactString, fixed 4, compactString, compactNullableString, compactNullableString, compactNullableString,
    made SyncGroupAssignment SyncGroupAssignment.route, taggedFields]

instance : Follows SyncGroupRequest.decode SyncGroupRequest.route := by
  unfold SyncGroupRequest.decode SyncGroupRequest.route
  infer_instance

def LeaveGroupMember.route : Route := .all [compactString, compactNullableString, compactNullableString, taggedFields]

instance : Follows LeaveGroupMember.decode LeaveGroupMember.route := by
  unfold LeaveGroupMember.decode LeaveGroupMember.route
  infer_instance

def LeaveGroupRequest.route : Route := .all [compactString, made LeaveGroupMember LeaveGroupMember.route, taggedFields]

instance : Follows LeaveGroupRequest.decode LeaveGroupRequest.route := by
  unfold LeaveGroupRequest.decode LeaveGroupRequest.route
  infer_instance

def OffsetCommitPartition.route : Route := .all [fixed 4, fixed 8, fixed 4, compactNullableString, taggedFields]

instance : Follows OffsetCommitPartition.decode OffsetCommitPartition.route := by
  unfold OffsetCommitPartition.decode OffsetCommitPartition.route
  infer_instance

def OffsetCommitTopic.route : Route :=
  .all [compactString, made OffsetCommitPartition OffsetCommitPartition.route, taggedFields]

instance : Follows OffsetCommitTopic.decode OffsetCommitTopic.route := by
  unfold OffsetCommitTopic.decode OffsetCommitTopic.route
  infer_instance

def OffsetCommitRequest.route : Route :=
  .all [compactString, fixed 4, compactString, compactNullableString, made OffsetCommitTopic OffsetCommitTopic.route,
    taggedFields]

instance : Follows OffsetCommitRequest.decode OffsetCommitRequest.route := by
  unfold OffsetCommitRequest.decode OffsetCommitRequest.route
  infer_instance

def OffsetFetchTopic.route : Route := .all [compactString, made Int32 (fixed 4), taggedFields]

instance : Follows OffsetFetchTopic.decode OffsetFetchTopic.route := by
  unfold OffsetFetchTopic.decode OffsetFetchTopic.route
  infer_instance

def OffsetFetchGroup.route : Route := .all [compactString, made OffsetFetchTopic OffsetFetchTopic.route, taggedFields]

instance : Follows OffsetFetchGroup.decode OffsetFetchGroup.route := by
  unfold OffsetFetchGroup.decode OffsetFetchGroup.route
  infer_instance

def OffsetFetchRequest.route : Route := .all [made OffsetFetchGroup OffsetFetchGroup.route, fixed 1, taggedFields]

instance : Follows OffsetFetchRequest.decode OffsetFetchRequest.route := by
  unfold OffsetFetchRequest.decode OffsetFetchRequest.route
  infer_instance

def CreateTopicAssignment.route : Route := .all [fixed 4, grown Int32 (fixed 4), taggedFields]

instance : Follows CreateTopicAssignment.decode CreateTopicAssignment.route := by
  unfold CreateTopicAssignment.decode CreateTopicAssignment.route
  infer_instance

def CreateTopicConfig.route : Route := .all [compactString, compactNullableString, taggedFields]

instance : Follows CreateTopicConfig.decode CreateTopicConfig.route := by
  unfold CreateTopicConfig.decode CreateTopicConfig.route
  infer_instance

def CreateTopicData.route : Route :=
  .all [compactString, fixed 4, fixed 2, grown CreateTopicAssignment CreateTopicAssignment.route,
    grown CreateTopicConfig CreateTopicConfig.route, taggedFields]

instance : Follows CreateTopicData.decode CreateTopicData.route := by
  unfold CreateTopicData.decode CreateTopicData.route
  infer_instance

def CreateTopicsRequest.route :
    Route := .all [grown CreateTopicData CreateTopicData.route, fixed 4, fixed 1, taggedFields]

instance : Follows CreateTopicsRequest.decode CreateTopicsRequest.route := by
  unfold CreateTopicsRequest.decode CreateTopicsRequest.route
  infer_instance

def BrokerListener.route : Route := .all [compactString, compactString, fixed 4, fixed 2, taggedFields]

instance : Follows BrokerListener.decode BrokerListener.route := by
  unfold BrokerListener.decode BrokerListener.route
  infer_instance

def BrokerFeature.route : Route := .all [compactString, fixed 2, fixed 2, taggedFields]

instance : Follows BrokerFeature.decode BrokerFeature.route := by
  unfold BrokerFeature.decode BrokerFeature.route
  infer_instance

def BrokerRegistrationRequest.route : Route :=
  .all [fixed 4, compactString, fixed 16, made BrokerListener BrokerListener.route,
    made BrokerFeature BrokerFeature.route, compactNullableString, taggedFields]

instance : Follows BrokerRegistrationRequest.decode BrokerRegistrationRequest.route := by
  unfold BrokerRegistrationRequest.decode BrokerRegistrationRequest.route
  infer_instance

def BrokerHeartbeatRequest.route : Route := .all [fixed 4, fixed 8, fixed 8, fixed 1, fixed 1, taggedFields]

instance : Follows BrokerHeartbeatRequest.decode BrokerHeartbeatRequest.route := by
  unfold BrokerHeartbeatRequest.decode BrokerHeartbeatRequest.route
  infer_instance

def ListOffsetsPartition.route : Route := .all [fixed 4, fixed 4, fixed 8, taggedFields]

instance : Follows ListOffsetsPartition.decode ListOffsetsPartition.route := by
  unfold ListOffsetsPartition.decode ListOffsetsPartition.route
  infer_instance

def ListOffsetsTopic.route : Route :=
  .all [compactString, made ListOffsetsPartition ListOffsetsPartition.route, taggedFields]

instance : Follows ListOffsetsTopic.decode ListOffsetsTopic.route := by
  unfold ListOffsetsTopic.decode ListOffsetsTopic.route
  infer_instance

def ListOffsetsRequest.route : Route :=
  .all [fixed 4, fixed 1, made ListOffsetsTopic ListOffsetsTopic.route, fixed 4, taggedFields]

instance : Follows ListOffsetsRequest.decode ListOffsetsRequest.route := by
  unfold ListOffsetsRequest.decode ListOffsetsRequest.route
  infer_instance

def TopicMetadataRequest.route : Route := .all [fixed 16, compactNullableString, taggedFields]

instance : Follows TopicMetadataRequest.decode TopicMetadataRequest.route := by
  unfold TopicMetadataRequest.decode TopicMetadataRequest.route
  infer_instance

def MetaDataRequest.route : Route :=
  .all [madeOrNull TopicMetadataRequest TopicMetadataRequest.route, fixed 1, fixed 1, taggedFields]

instance : Follows (do MetaDataRequest.decodeTopics (← readCompactArrayLen))
    (madeOrNull TopicMetadataRequest TopicMetadataRequest.route) := by
  refine follows_parsed readCompactArrayLen_parses fun n => ?_
  unfold MetaDataRequest.decodeTopics
  split
  · exact follows_pure _
  · exact follows_last (follows_makeSlice (fun _ => inferInstance) n) _

instance : Follows MetaDataRequest.decode MetaDataRequest.route := by
  unfold MetaDataRequest.decode
  rw [← bind_bind]
  unfold MetaDataRequest.route
  infer_instance

def FetchPartition.route : Route :=
  .all [fixed 4, fixed 4, fixed 8, fixed 4, fixed 8, fixed 4, knownFields (fixed 16) (fixed 8)]

instance : Follows FetchPartition.decodeTaggedFields (knownFields (fixed 16) (fixed 8)) := by
  refine follows_tagged (fun fields => follows_parsed readTag_parses fun ⟨tag, size⟩ => ?_) _
  dsimp only
  split
  · exact follows_last inferInstance _
  · split
    · exact follows_last inferInstance _
    · exact follows_last inferInstance _

instance : Follows FetchPartition.decode FetchPartition.route := by
  unfold FetchPartition.decode FetchPartition.route
  infer_instance

def FetchTopic.route : Route := .all [fixed 16, made FetchPartition FetchPartition.route, taggedFields]

instance : Follows FetchTopic.decode FetchTopic.route := by
  unfold FetchTopic.decode FetchTopic.route
  infer_instance

def ForgottenTopic.route : Route := .all [fixed 16, made Int32 (fixed 4), taggedFields]

instance : Follows ForgottenTopic.decode ForgottenTopic.route := by
  unfold ForgottenTopic.decode ForgottenTopic.route
  infer_instance

def FetchRequest.route : Route :=
  .all [fixed 4, fixed 4, fixed 4, fixed 1, fixed 4, fixed 4, made FetchTopic FetchTopic.route,
    made ForgottenTopic ForgottenTopic.route, compactString,
    knownFields compactNullableString (.all [fixed 4, fixed 8])]

instance : Follows FetchRequest.decodeTaggedFields
    (knownFields compactNullableString (.all [fixed 4, fixed 8])) := by
  refine follows_tagged (fun fields => follows_parsed readTag_parses fun ⟨tag, size⟩ => ?_) _
  dsimp only
  split
  · exact follows_last inferInstance _
  · split
    · infer_instance
    · exact follows_last inferInstance _

instance : Follows FetchRequest.decode FetchRequest.route := by
  unfold FetchRequest.decode FetchRequest.route
  infer_instance

def bodyRoute (apiKey : Int16) : Route :=
  if apiKey = 0 then ProduceRequest.route
  else if apiKey = 1 then FetchRequest.route
  else if apiKey = 2 then ListOffsetsRequest.route
  else if apiKey = 3 then MetaDataRequest.route
  else if apiKey = 8 then OffsetCommitRequest.route
  else if apiKey = 9 then OffsetFetchRequest.route
  else if apiKey = 10 then FindCoordinatorRequest.route
  else if apiKey = 11 then JoinGroupRequest.route
  else if apiKey = 12 then HeartbeatRequest.route
  else if apiKey = 13 then LeaveGroupRequest.route
  else if apiKey = 14 then SyncGroupRequest.route
  else if apiKey = 19 then CreateTopicsRequest.route
  else if apiKey = 22 then InitProducerIdRequest.route
  else if apiKey = 62 then BrokerRegistrationRequest.route
  else if apiKey = 63 then BrokerHeartbeatRequest.route
  else .stay

def requestRoute : Route :=
  .parsed takeInt16 fun apiKey => .parsed takeInt16 fun apiVersion =>
    .all [fixed 4, nullableString, if isFlexible apiKey apiVersion then taggedFields else .stay, bodyRoute apiKey]

theorem decodeBody_follows (apiKey : Int16) : Follows (decodeBody apiKey) (bodyRoute apiKey) := by
  unfold decodeBody bodyRoute
  -- One case for each API key that has a decoder.
  repeat refine follows_case _ inferInstance ?_
  exact follows_pure _

/-- The key that chooses the decoder is the one that the header was read with. -/
theorem decodeRequest_follows : Follows decodeRequest requestRoute := by
  unfold decodeRequest RequestHeader.decode requestRoute
  rw [bind_bind]
  refine follows_parsed readInt16_parses fun apiKey => ?_
  rw [bind_bind]
  refine follows_parsed readInt16_parses fun apiVersion => ?_
  rw [bind_bind]
  refine follows_bind inferInstance fun correlationId => ?_
  rw [bind_bind]
  refine follows_bind inferInstance fun clientId => ?_
  have body : ∀ header : RequestHeader, Follows
      (do let body ← decodeBody apiKey; return (header, body)) (.all [bodyRoute apiKey]) := fun header =>
    follows_bind (decodeBody_follows apiKey) fun _ => follows_pure _
  by_cases flexible : isFlexible apiKey apiVersion = true
  · rw [if_pos flexible, if_pos flexible, bind_bind]
    exact follows_bind inferInstance fun _ => body _
  · rw [if_neg flexible, if_neg flexible]
    exact body ⟨apiKey, apiVersion, correlationId, clientId⟩

/-- A value or an error is returned, and the position has stayed in the payload and never gone back. -/
def DecodedSafely (p : Payload) : Prop :=
  (decodeRequest p.reader).1 ≠ .error .panics ∧ (decodeRequest p.reader).2.Forward

instance (p : Payload) : Decidable (DecodedSafely p) :=
  inferInstanceAs (Decidable ((decodeRequest p.reader).1 ≠ .error .panics ∧ (decodeRequest p.reader).2.Forward))

theorem decodedSafely_iff (p : Payload) : DecodedSafely p ↔ requestRoute p.bytes.length p.bytes ≠ .strays := by
  have goes := decodeRequest_follows.goes p.reader (Cursor.start_forward _)
  change Goes _ (requestRoute p.bytes.length p.bytes) at goes
  unfold DecodedSafely
  cases trip : requestRoute p.bytes.length p.bytes with
  | ends =>
    rw [trip] at goes
    obtain ⟨⟨e, failed⟩, forward⟩ := goes
    simp [failed, forward]
  | strays =>
    rw [trip] at goes
    rcases goes with panicked | strayed
    · simp [panicked]
    · simp [strayed]
  | reaches rest =>
    rw [trip] at goes
    obtain ⟨⟨a, ok⟩, forward, _⟩ := goes
    simp [ok, forward]

end Memory

def heartbeatHeader : Bytes := [0, 12, 0, 4, 0, 0, 0, 1, 255, 255]

def nullGroup : Payload := ⟨heartbeatHeader ++ [0, 0], by decide, by decide⟩

def backwards : Payload :=
  ⟨heartbeatHeader ++ [1, 0, 255, 255, 255, 255, 255, 255, 255, 255, 255, 1], by decide, by decide⟩

def crowded : Payload :=
  ⟨[0, 0, 0, 13, 0, 0, 0, 1, 255, 255, 0, 0, 0, 1, 0, 0, 3, 232, 129, 128, 128, 128, 128, 128, 1], by decide, by decide⟩

/-- A null string panics, a tagged field that is too large leads back, and 25 bytes can ask for more memory than any
machine has. -/
theorem requests_stray : (decodeRequest nullGroup.reader).1 = .error .panics ∧
    (decodeRequest backwards.reader).1 ≠ .error .panics ∧ ¬ (decodeRequest backwards.reader).2.Forward ∧
    ¬ DecodedSafely nullGroup ∧ ¬ DecodedSafely backwards ∧ ¬ @DecodedSafely (.limited (2 ^ 40)) crowded := by
  decide +kernel

end KafGo.Wire
