import KafGo.Lib.Bytes

/-!
# Values of the metadata log

What the controller writes to the metadata log: a type byte, a version and the fields of the record. Decoding slices
the value without checking its length, so a value that breaks off is a panic.
-/

namespace KafGo.Protocol
open Lib

def recordTypeBroker : UInt8 := 0
def recordTypeTopic : UInt8 := 1
def recordTypePartition : UInt8 := 2
def recordTypeProducerIds : UInt8 := 3

/-- The sixteen bytes of a topic id are read as a number. -/
inductive MetadataValue where
  | broker (brokerId : Int) (host : Bytes) (port epoch : Int)
  | topic (topicId : Nat) (name : Bytes) (numPartitions minInsyncReplicas : Int)
  | partition (topicId : Nat) (partitionId leader leaderEpoch : Int) (replicas isr : List Int)
  | producerIds (brokerId brokerEpoch nextProducerId : Int)
  deriving DecidableEq, Repr

namespace MetadataValue

def putInt16 (x : Int) : Bytes := beBytes 2 (unsigned 16 x)
def putInt32 (x : Int) : Bytes := beBytes 4 (unsigned 32 x)
def putInt64 (x : Int) : Bytes := beBytes 8 (unsigned 64 x)

/-- Lengths are cut to the width of their field. -/
def encode : MetadataValue → Bytes
  | .broker brokerId host port epoch =>
    [recordTypeBroker, 0] ++ putInt32 brokerId ++ putInt64 epoch ++ beBytes 2 host.length ++ host ++ putInt32 port
  | .topic topicId name numPartitions minInsyncReplicas =>
    [recordTypeTopic, 1] ++ beBytes 16 topicId ++ putInt32 numPartitions ++ beBytes 2 name.length ++ name ++
      putInt16 minInsyncReplicas
  | .partition topicId partitionId leader leaderEpoch replicas isr =>
    [recordTypePartition, 0] ++ beBytes 16 topicId ++ putInt32 partitionId ++ putInt32 leader ++ putInt32 leaderEpoch ++
      beBytes 4 replicas.length ++ replicas.flatMap putInt32 ++ beBytes 4 isr.length ++ isr.flatMap putInt32
  | .producerIds brokerId brokerEpoch nextProducerId =>
    [recordTypeProducerIds, 0] ++ putInt32 brokerId ++ putInt64 brokerEpoch ++ putInt64 nextProducerId

end MetadataValue

/-- A read from the payload that remains. No result is a panic. -/
abbrev Payload (α : Type) := StateT Bytes Option α

namespace Payload

def take (n : Nat) : Payload Bytes := fun payload =>
  if n ≤ payload.length then some (payload.take n, payload.drop n) else none

def uint16 : Payload Nat := do return beNat (← take 2)
def uint32 : Payload Nat := do return beNat (← take 4)
def int16 : Payload Int := do return signed 16 (beNat (← take 2))
def int32 : Payload Int := do return signed 32 (beNat (← take 4))
def int64 : Payload Int := do return signed 64 (beNat (← take 8))
def topicId : Payload Nat := do return beNat (← take 16)

def int32s : Nat → Payload (List Int)
  | 0 => return []
  | n + 1 => do
    let x ← int32
    return x :: (← int32s n)

end Payload

namespace MetadataValue
open Payload

def decodeBrokerRecord : Payload MetadataValue := do
  let brokerId ← int32
  let epoch ← int64
  let hostLen ← uint16
  let host ← take hostLen
  let port ← int32
  return .broker brokerId host port epoch

def decodeTopicRecord (version : UInt8) : Payload MetadataValue := do
  let id ← topicId
  let numPartitions ← int32
  let nameLen ← uint16
  let name ← take nameLen
  if version ≥ 1 ∧ (← get).length ≥ 2 then return .topic id name numPartitions (← int16)
  else return .topic id name numPartitions 1

def decodePartitionRecord : Payload MetadataValue := do
  let id ← topicId
  let partitionId ← int32
  let leader ← int32
  let leaderEpoch ← int32
  let replicas ← int32s (← uint32)
  let isr ← int32s (← uint32)
  return .partition id partitionId leader leaderEpoch replicas isr

def decodeProducerIdsRecord : Payload MetadataValue := do
  let brokerId ← int32
  let brokerEpoch ← int64
  let nextProducerId ← int64
  return .producerIds brokerId brokerEpoch nextProducerId

/-- The inner `none` is the nil of an unknown type. -/
def decode : Bytes → Option (Option MetadataValue)
  | [] => some none
  | [_] => some none
  | kind :: version :: payload =>
    if kind = recordTypeBroker then (decodeBrokerRecord.run' payload).map some
    else if kind = recordTypeTopic then ((decodeTopicRecord version).run' payload).map some
    else if kind = recordTypePartition then (decodePartitionRecord.run' payload).map some
    else if kind = recordTypeProducerIds then (decodeProducerIdsRecord.run' payload).map some
    else some none

end MetadataValue

namespace Payload

theorem take_append (a rest : Bytes) : (take a.length).run (a ++ rest) = some (a, rest) := by
  have room : a.length ≤ (a ++ rest).length := by
    rw [List.length_append]
    omega
  show (if a.length ≤ (a ++ rest).length then some ((a ++ rest).take a.length, (a ++ rest).drop a.length) else none) = _
  rw [if_pos room, List.take_left, List.drop_left]

theorem fixed_put {α : Type} (f : Bytes → α) {n : Nat} {field : Bytes} (size : field.length = n) (rest : Bytes) :
    (do return f (← take n) : Payload α).run (field ++ rest) = some (f field, rest) := by
  subst size
  rw [StateT.run_bind, take_append]
  rfl

theorem int16_put (x : Int) (rest : Bytes) :
    int16.run (MetadataValue.putInt16 x ++ rest) = some (wrapSigned 16 x, rest) := by
  have value : beNat (beBytes 2 (unsigned 16 x)) = unsigned 16 x := beNat_unsigned 2 x
  rw [wrapSigned, ← value]
  exact fixed_put _ (length_beBytes 2 _) rest

theorem int32_put (x : Int) (rest : Bytes) :
    int32.run (MetadataValue.putInt32 x ++ rest) = some (wrapSigned 32 x, rest) := by
  have value : beNat (beBytes 4 (unsigned 32 x)) = unsigned 32 x := beNat_unsigned 4 x
  rw [wrapSigned, ← value]
  exact fixed_put _ (length_beBytes 4 _) rest

theorem int64_put (x : Int) (rest : Bytes) :
    int64.run (MetadataValue.putInt64 x ++ rest) = some (wrapSigned 64 x, rest) := by
  have value : beNat (beBytes 8 (unsigned 64 x)) = unsigned 64 x := beNat_unsigned 8 x
  rw [wrapSigned, ← value]
  exact fixed_put _ (length_beBytes 8 _) rest

end Payload

namespace MetadataValue

theorem decode_producerIds (brokerId brokerEpoch nextProducerId : Int) :
    decode (encode (.producerIds brokerId brokerEpoch nextProducerId)) =
      some (some (.producerIds (wrapSigned 32 brokerId) (wrapSigned 64 brokerEpoch)
        (wrapSigned 64 nextProducerId))) := by
  have fields : decodeProducerIdsRecord.run' (putInt32 brokerId ++
    (putInt64 brokerEpoch ++ (putInt64 nextProducerId ++ []))) =
      some (.producerIds (wrapSigned 32 brokerId) (wrapSigned 64 brokerEpoch) (wrapSigned 64 nextProducerId)) := by
    unfold decodeProducerIdsRecord
    simp only [StateT.run'_eq, StateT.run_bind, Payload.int32_put, Payload.int64_put, Option.bind_eq_bind,
      Option.bind_some, StateT.run_pure, Option.pure_def, Option.map_eq_map, Option.map_some]
  have split : encode (.producerIds brokerId brokerEpoch nextProducerId) = recordTypeProducerIds :: 0 ::
      (putInt32 brokerId ++ (putInt64 brokerEpoch ++ (putInt64 nextProducerId ++ []))) := by
    simp only [encode, List.append_assoc, List.append_nil, List.cons_append, List.nil_append]
  rw [split, decode, if_neg (by decide), if_neg (by decide), if_neg (by decide), if_pos rfl, fields, Option.map_some]

end MetadataValue

end KafGo.Protocol
