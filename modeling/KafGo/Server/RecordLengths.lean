import KafGo.Lib.Stuck
import KafGo.Server.Registry

/-!
# Lengths in metadata records

The records of the metadata log are packed by hand. A host or a topic name has a length field of two bytes, but neither
the registration of a broker nor the validation of a topic bounds it.
-/

namespace KafGo.Protocol
open Lib

namespace Payload

variable {α β : Type} {post : β → Bytes → Prop}

theorem runs_put {read : Payload α} {next : α → Payload β} {buf rest : Bytes} {a : α}
    (ran : read.run buf = some (a, rest)) :
    Runs (read >>= next) post buf ↔ Runs (next a) post rest := runs_bind.trans (runs_some ran)

theorem uint16_put (n : Nat) (rest : Bytes) : uint16.run (beBytes 2 n ++ rest) = some (n % 2 ^ 16, rest) := by
  have value : beNat (beBytes 2 n) = n % 2 ^ 16 := beNat_beBytes 2 n
  rw [← value]
  exact fixed_put _ (length_beBytes 2 n) rest

theorem uint32_put (n : Nat) (rest : Bytes) : uint32.run (beBytes 4 n ++ rest) = some (n % 2 ^ 32, rest) := by
  have value : beNat (beBytes 4 n) = n % 2 ^ 32 := beNat_beBytes 4 n
  rw [← value]
  exact fixed_put _ (length_beBytes 4 n) rest

theorem topicId_put {id : Bytes} (size : id.length = 16) (rest : Bytes) :
    topicId.run (beBytes 16 (beNat id) ++ rest) = some (beNat id, rest) := by
  rw [← size, beBytes_beNat]
  exact fixed_put _ size rest

theorem int32s_put (xs : List Int32) (rest : Bytes) :
    (int32s xs.length).run ((xs.map Int32.toInt).flatMap MetadataValue.putInt32 ++ rest) =
      some (xs.map Int32.toInt, rest) := by
  induction xs with
  | nil => rfl
  | cons x xs ih =>
    rw [List.length_cons, int32s, List.map_cons, List.flatMap_cons, List.append_assoc, StateT.run_bind, int32_put,
      wrapSigned_int32]
    simp only [Option.bind_eq_bind, Option.bind_some, StateT.run_bind, ih]
    rfl

theorem take_length {n : Nat} {buf part rest : Bytes} (ran : (take n).run buf = some (part, rest)) :
    part.length = n := by
  change (if n ≤ buf.length then some (buf.take n, buf.drop n) else none) = some (part, rest) at ran
  split at ran
  · rename_i room
    obtain ⟨rfl, rfl⟩ := Prod.mk.inj (Option.some.inj ran)
    exact List.length_take_of_le room
  · cases ran

theorem int32s_length {n : Nat} {buf rest : Bytes} {xs : List Int} (ran : (int32s n).run buf = some (xs, rest)) :
    xs.length = n := by
  induction n generalizing buf xs rest with
  | zero =>
    cases ran
    rfl
  | succ n ih =>
    have runs : Runs (int32s (n + 1)) (fun ys _ => ys = xs) buf := ⟨xs, rest, ran, rfl⟩
    rw [int32s, runs_bind] at runs
    obtain ⟨x, _, _, later⟩ := runs
    obtain ⟨ys, _, others, returned⟩ := runs_bind.mp later
    rw [← runs_pure.mp returned, List.length_cons, ih others]

end Payload

/-! ### Each kind of record -/

namespace MetadataValue
open Payload

/-- Every length is below the range of its field. -/
def LengthsFit : MetadataValue → Prop
  | .broker _ host _ _ => host.length < 2 ^ 16
  | .topic _ name _ _ => name.length < 2 ^ 16
  | .partition _ _ _ _ replicas isr => replicas.length < 2 ^ 32 ∧ isr.length < 2 ^ 32
  | .producerIds _ _ _ => True

theorem run'_eq_some {record : Payload MetadataValue} {buf : Bytes} {v : MetadataValue} :
    (record.run' buf).map some = some (some v) ↔ Runs record (fun found _ => found = v) buf := by
  rw [StateT.run'_eq]
  unfold Runs
  cases record.run buf with
  | none =>
    constructor
    · intro found
      cases found
    · rintro ⟨_, _, ran, _⟩
      cases ran
  | some result =>
    constructor
    · intro same
      exact ⟨result.1, result.2, rfl, Option.some.inj (Option.some.inj same)⟩
    · rintro ⟨_, _, ran, rfl⟩
      rw [Option.some.inj ran]
      rfl

theorem broker_reads_iff (brokerId port : Int32) (epoch : Int64) (host : Bytes) :
    decode (encode (.broker brokerId.toInt host port.toInt epoch.toInt)) =
        some (some (.broker brokerId.toInt host port.toInt epoch.toInt)) ↔ host.length < 2 ^ 16 := by
  have split : encode (.broker brokerId.toInt host port.toInt epoch.toInt) = recordTypeBroker :: 0 ::
      (putInt32 brokerId.toInt ++ (putInt64 epoch.toInt ++
        (beBytes 2 host.length ++ (host ++ (putInt32 port.toInt ++ []))))) := by
    simp only [encode, List.append_assoc, List.append_nil, List.cons_append, List.nil_append]
  rw [split, decode, if_pos rfl, run'_eq_some]
  unfold decodeBrokerRecord
  rw [runs_put (int32_put _ _), runs_put (int64_put _ _), runs_put (uint16_put _ _), wrapSigned_int32, wrapSigned_int64]
  constructor
  · intro runs
    obtain ⟨part, _, taken, later⟩ := runs_bind.mp runs
    obtain ⟨_, _, _, returned⟩ := runs_bind.mp later
    have same := runs_pure.mp returned
    obtain ⟨_, rfl, _⟩ := MetadataValue.broker.inj same
    have length := take_length taken
    omega
  · intro fits
    rw [Nat.mod_eq_of_lt fits, runs_put (take_append _ _), runs_put (int32_put _ _), wrapSigned_int32]
    exact runs_pure.mpr rfl

theorem topic_reads_iff {id : Bytes} (size : id.length = 16) (numPartitions : Int32) (minInsyncReplicas : Int16)
    (name : Bytes) :
    decode (encode (.topic (beNat id) name numPartitions.toInt minInsyncReplicas.toInt)) =
        some (some (.topic (beNat id) name numPartitions.toInt minInsyncReplicas.toInt)) ↔ name.length < 2 ^ 16 := by
  have split : encode (.topic (beNat id) name numPartitions.toInt minInsyncReplicas.toInt) = recordTypeTopic :: 1 ::
      (beBytes 16 (beNat id) ++ (putInt32 numPartitions.toInt ++ (beBytes 2 name.length ++ (name ++
        (putInt16 minInsyncReplicas.toInt ++ []))))) := by
    simp only [encode, List.append_assoc, List.append_nil, List.cons_append, List.nil_append]
  have left : ∀ buf : Bytes, (get : Payload Bytes).run buf = some (buf, buf) := fun _ => rfl
  rw [split, decode, if_neg (by decide), if_pos rfl, run'_eq_some]
  unfold decodeTopicRecord
  rw [runs_put (topicId_put size _), runs_put (int32_put _ _), runs_put (uint16_put _ _), wrapSigned_int32]
  constructor
  · intro runs
    obtain ⟨part, rest, taken, later⟩ := runs_bind.mp runs
    have length := take_length taken
    rw [runs_put (left rest)] at later
    split at later
    · obtain ⟨_, _, _, returned⟩ := runs_bind.mp later
      have same := runs_pure.mp returned
      obtain ⟨_, rfl, _⟩ := MetadataValue.topic.inj same
      omega
    · have same := runs_pure.mp later
      obtain ⟨_, rfl, _⟩ := MetadataValue.topic.inj same
      omega
  · intro fits
    rw [Nat.mod_eq_of_lt fits, runs_put (take_append _ _), runs_put (left _), if_pos (by simp [putInt16]),
      runs_put (int16_put _ _), wrapSigned_int16]
    exact runs_pure.mpr rfl

theorem partition_reads_iff {id : Bytes} (size : id.length = 16) (partitionId leader leaderEpoch : Int32)
    (replicas isr : List Int32) :
    decode (encode (.partition (beNat id) partitionId.toInt leader.toInt leaderEpoch.toInt (replicas.map Int32.toInt)
          (isr.map Int32.toInt))) =
        some (some (.partition (beNat id) partitionId.toInt leader.toInt leaderEpoch.toInt (replicas.map Int32.toInt)
          (isr.map Int32.toInt))) ↔ replicas.length < 2 ^ 32 ∧ isr.length < 2 ^ 32 := by
  have split : encode (.partition (beNat id) partitionId.toInt leader.toInt leaderEpoch.toInt (replicas.map Int32.toInt)
      (isr.map Int32.toInt)) = recordTypePartition :: 0 :: (beBytes 16 (beNat id) ++ (putInt32 partitionId.toInt ++
      (putInt32 leader.toInt ++ (putInt32 leaderEpoch.toInt ++ (beBytes 4 replicas.length ++
      ((replicas.map Int32.toInt).flatMap putInt32 ++ (beBytes 4 isr.length ++
      ((isr.map Int32.toInt).flatMap putInt32 ++ [])))))))) := by
    simp only [encode, List.length_map, List.append_assoc, List.append_nil, List.cons_append, List.nil_append]
  rw [split, decode, if_neg (by decide), if_neg (by decide), if_pos rfl, run'_eq_some]
  unfold decodePartitionRecord
  rw [runs_put (topicId_put size _), runs_put (int32_put _ _), runs_put (int32_put _ _), runs_put (int32_put _ _),
    runs_put (uint32_put _ _), wrapSigned_int32, wrapSigned_int32, wrapSigned_int32]
  constructor
  · intro runs
    have first : replicas.length < 2 ^ 32 := by
      obtain ⟨found, _, ran, later⟩ := runs_bind.mp runs
      obtain ⟨_, _, _, later⟩ := runs_bind.mp later
      obtain ⟨_, _, _, returned⟩ := runs_bind.mp later
      have same := runs_pure.mp returned
      obtain ⟨_, _, _, _, rfl, _⟩ := MetadataValue.partition.inj same
      have length := int32s_length ran
      rw [List.length_map] at length
      omega
    refine ⟨first, ?_⟩
    rw [Nat.mod_eq_of_lt first, runs_put (int32s_put _ _), runs_put (uint32_put _ _)] at runs
    obtain ⟨found, _, ran, returned⟩ := runs_bind.mp runs
    have same := runs_pure.mp returned
    obtain ⟨_, _, _, _, _, rfl⟩ := MetadataValue.partition.inj same
    have length := int32s_length ran
    rw [List.length_map] at length
    omega
  · rintro ⟨first, second⟩
    rw [Nat.mod_eq_of_lt first, runs_put (int32s_put _ _), runs_put (uint32_put _ _), Nat.mod_eq_of_lt second,
      runs_put (int32s_put _ _)]
    exact runs_pure.mpr rfl

end MetadataValue
end KafGo.Protocol

namespace KafGo.Server
open Lib Protocol Controller

/-- A requested topic as it is validated. A name with a byte above 127 is refused, so bytes and characters are
the same. -/
def topicDataOf (d : Wire.CreateTopicData) : CreateTopicData where
  name := String.ofList (d.name.bytes.map fun b => Char.ofNat b.toNat)
  numPartitions := d.numPartitions.toInt
  replicationFactor := d.replicationFactor.toInt
  configs := []

def topicRecord (id : Wire.UUID) (d : Wire.CreateTopicData) (minInsyncReplicas : Int16) : MetadataValue :=
  .topic (beNat id.bytes) d.name.bytes d.numPartitions.toInt minInsyncReplicas.toInt

/-- The records that the handlers write. -/
inductive Built : MetadataValue → Prop where
  | broker (req : Wire.BrokerRegistrationRequest) (epoch : Int64) : Built (brokerRecord req epoch)
  | topic (id : Wire.UUID) (d : Wire.CreateTopicData) (accepted : validateTopicData (topicDataOf d) = 0)
      (minInsyncReplicas : Int16) : Built (topicRecord id d minInsyncReplicas)
  | partition (id : Wire.UUID) (partitionId leader leaderEpoch : Int32) (replicas isr : List Int32) :
      Built (.partition (beNat id.bytes) partitionId.toInt leader.toInt leaderEpoch.toInt (replicas.map Int32.toInt)
        (isr.map Int32.toInt))
  | producerIds (brokerId : Int32) (brokerEpoch nextProducerId : Int64) :
      Built (.producerIds brokerId.toInt brokerEpoch.toInt nextProducerId.toInt)

theorem registration_builds {c : Controller} {now : Int} {req : Wire.BrokerRegistrationRequest}
    (accepted : (c.handleBrokerRegistration now req).2.errorCode = 0) : ∃ epoch,
      (c.handleBrokerRegistration now req).1.metadataLog =
        (c.metadataLog.append now (brokerRecord req epoch).encode).1 := by
  unfold Controller.handleBrokerRegistration at accepted ⊢
  by_cases other : (!c.isController) = true
  · rw [if_pos other] at accepted
    cases accepted
  · rw [if_neg other] at accepted ⊢
    by_cases unnamed : req.brokerId ≤ 0
    · rw [if_pos unnamed] at accepted
      cases accepted
    · rw [if_neg unnamed]
      exact ⟨_, rfl⟩

/-- A record is read back exactly if its lengths fit. -/
theorem built_reads_iff (r : MetadataValue) (built : Built r) :
    MetadataValue.decode r.encode = some (some r) ↔ r.LengthsFit := by
  cases built with
  | broker req epoch => exact MetadataValue.broker_reads_iff _ _ _ _
  | topic id d _ minInsyncReplicas => exact MetadataValue.topic_reads_iff id.length _ _ _
  | partition id partitionId leader leaderEpoch replicas isr =>
    have same := MetadataValue.partition_reads_iff id.length partitionId leader leaderEpoch replicas isr
    rw [same]
    show _ ↔ (replicas.map Int32.toInt).length < 2 ^ 32 ∧ (isr.map Int32.toInt).length < 2 ^ 32
    rw [List.length_map, List.length_map]
  | producerIds brokerId brokerEpoch nextProducerId =>
    rw [MetadataValue.decode_producerIds, wrapSigned_int32, wrapSigned_int64, wrapSigned_int64]
    exact iff_of_true rfl trivial

theorem built_reads_partition :
    MetadataValue.decode (MetadataValue.partition (beNat (Wire.UUID.copy []).bytes) (0 : Int32).toInt (1 : Int32).toInt
        (0 : Int32).toInt ([1, 2].map Int32.toInt) ([1].map Int32.toInt)).encode =
      some (some (.partition (beNat (Wire.UUID.copy []).bytes) (0 : Int32).toInt (1 : Int32).toInt (0 : Int32).toInt
        ([1, 2].map Int32.toInt) ([1].map Int32.toInt))) :=
  (built_reads_iff _ (.partition _ _ _ _ _ _)).mpr ⟨by decide, by decide⟩

def longName : Octets := ⟨List.replicate 65536 97, by rw [List.length_replicate]; decide⟩

def longHost : Wire.BrokerRegistrationRequest :=
  ⟨1, .nil, .copy [], ⟨[⟨⟨plaintext, by decide⟩, longName, 9092, 0⟩], by decide⟩, .nil, none⟩

def longTopic : Wire.CreateTopicData := ⟨longName, 1, 1, .nil, .nil⟩

theorem longTopic_accepted : validateTopicData (topicDataOf longTopic) = 0 := by
  have chars : (topicDataOf longTopic).name.toList = List.replicate 65536 'a' := by
    unfold topicDataOf longTopic longName
    rw [String.toList_ofList, List.map_replicate]
    rfl
  have named : isTopicNameChar 'a' = true := by decide
  unfold validateTopicData
  rw [chars, List.all_replicate, named]
  decide

/-- Both are written and neither is read back. -/
theorem long_names_lost :
    (Built (brokerRecord longHost 1) ∧
        MetadataValue.decode (brokerRecord longHost 1).encode ≠ some (some (brokerRecord longHost 1))) ∧
      (Built (topicRecord (.copy []) longTopic 1) ∧
        MetadataValue.decode (topicRecord (.copy []) longTopic 1).encode ≠
          some (some (topicRecord (.copy []) longTopic 1))) := by
  have size : ¬ longName.bytes.length < 2 ^ 16 := by
    unfold longName
    rw [List.length_replicate]
    decide
  have host : (listenerAddr longHost.listeners.elems).1 = longName.bytes := by
    show (if longName.bytes = [] then (longName.bytes, (9092 : Int32)) else (longName.bytes, 9092)).1 = _
    rw [ite_self]
  refine ⟨⟨.broker _ _, fun same => size ?_⟩, ⟨.topic _ _ longTopic_accepted _, fun same => size ?_⟩⟩
  · rw [← host]
    exact (MetadataValue.broker_reads_iff _ _ _ _).mp same
  · exact (MetadataValue.topic_reads_iff (Wire.UUID.copy []).length _ _ _).mp same

end KafGo.Server
