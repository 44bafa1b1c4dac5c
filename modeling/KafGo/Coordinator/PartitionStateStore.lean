import KafGo.Coordinator.Idempotence
import KafGo.Coordinator.PartitionState
import KafGo.Coordinator.Purgatory
import KafGo.Lib.Keyed
import KafGo.Lib.NumberedName
import Mathlib.Data.List.Perm.Subperm
import Mathlib.Data.List.Rotate

/-!
# The partition states of a broker

The store keeps one state for each key, made of the topic name and the partition number. `SetLeader` changes the
leader of a state that exists and makes one otherwise; `SetPartitionState` and `AssignReplicas` always make a new
one, whose log end and high watermark are zero.
-/

namespace KafGo.Coordinator
open Lib

/-- The rest of a `PartitionState`: what is not part of its replication state. -/
structure PartitionEntry where
  topicName : String
  partitionIndex : Int
  leaderEpoch : Int
  ps : PartitionState
  purgatory : PartitionPurgatory
  idempotence : Option IdempotenceState

def newPartition (topicName : String) (partition leader leaderEpoch : Int) (replicas isr : List Int) :
    PartitionEntry where
  topicName := topicName
  partitionIndex := partition
  leaderEpoch := leaderEpoch
  ps := ⟨leader, replicas, isr, 0, 0, fun _ => none, fun _ => none⟩
  purgatory := .empty
  idempotence := some .empty

def PartitionEntry.withLeader (e : PartitionEntry) (brokerID : Int) : PartitionEntry :=
  { e with
    ps := { e.ps with leaderBrokerID := brokerID }
    idempotence := some (e.idempotence.getD .empty) }

def partitionKey (topicName : String) (partition : Int) : String := numbered '-' topicName partition

def PartitionEntry.key (e : PartitionEntry) : String := partitionKey e.topicName e.partitionIndex

structure PartitionStateStore where
  partitions : String → Option PartitionEntry

def newPartitionStateStore : PartitionStateStore := ⟨fun _ => none⟩

namespace PartitionStateStore

def put (store : PartitionStateStore) (key : String) (e : PartitionEntry) : PartitionStateStore :=
  ⟨Function.update store.partitions key (some e)⟩

def getPartitionState (store : PartitionStateStore) (topicName : String) (partition : Int) : Option PartitionEntry :=
  store.partitions (partitionKey topicName partition)

def setLeader (store : PartitionStateStore) (topicName : String) (partition brokerID : Int) : PartitionStateStore :=
  let key := partitionKey topicName partition
  match store.partitions key with
  | some e => store.put key (e.withLeader brokerID)
  | none => store.put key (newPartition topicName partition brokerID 0 [brokerID] [brokerID])

def setPartitionState (store : PartitionStateStore) (topicName : String) (partitionId leader leaderEpoch : Int)
    (replicas isr : List Int) : PartitionStateStore :=
  store.put (partitionKey topicName partitionId) (newPartition topicName partitionId leader leaderEpoch replicas isr)

/-- The replicas of a partition, round-robin with a shift. -/
def replicasOf (brokerIDs : List Int) (replicationFactor : Int) (partition : Nat) : List Int :=
  (List.range replicationFactor.toNat).map fun i => brokerIDs.getD ((partition + i) % brokerIDs.length) 0

def assignedPartition (topicName : String) (brokerIDs : List Int) (replicationFactor : Int) (partition : Nat) :
    PartitionEntry :=
  let replicas := replicasOf brokerIDs replicationFactor partition
  newPartition topicName partition (replicas.headD 0) 0 replicas [replicas.headD 0]

def assignReplicas (store : PartitionStateStore) (topicName : String) (numPartitions replicationFactor : Int)
    (brokerIDs : List Int) : PartitionStateStore :=
  (List.range numPartitions.toNat).foldl (fun store (partition : Nat) =>
    store.put (partitionKey topicName partition)
      (assignedPartition topicName brokerIDs replicationFactor partition)) store

theorem put_self (store : PartitionStateStore) (key : String) (e : PartitionEntry) :
    (store.put key e).partitions key = some e := Function.update_self ..

variable {key topicName : String} {partition brokerID : Int}

theorem put_other (store : PartitionStateStore) {key' : String} (e : PartitionEntry) (other : key' ≠ key) :
    (store.put key e).partitions key' = store.partitions key' := Function.update_of_ne other ..

theorem getPartitionState_setLeader (store : PartitionStateStore) (topicName : String) (partition brokerID : Int) :
    ∃ e, (store.setLeader topicName partition brokerID).getPartitionState topicName partition = some e ∧
      e.ps.leaderBrokerID = brokerID := by
  unfold setLeader
  dsimp only
  split
  · exact ⟨_, store.put_self .., rfl⟩
  · exact ⟨_, store.put_self .., rfl⟩

theorem setLeader_found {store : PartitionStateStore} {e : PartitionEntry}
    (found : store.partitions (partitionKey topicName partition) = some e) :
    (store.setLeader topicName partition brokerID).partitions (partitionKey topicName partition) =
      some (e.withLeader brokerID) := by
  simp only [setLeader, found]
  exact store.put_self ..

theorem setLeader_other (store : PartitionStateStore) (other : key ≠ partitionKey topicName partition) :
    (store.setLeader topicName partition brokerID).partitions key = store.partitions key := by
  unfold setLeader
  dsimp only
  split
  · exact store.put_other _ other
  · exact store.put_other _ other

theorem getPartitionState_assignReplicas (store : PartitionStateStore) (topicName : String)
    (numPartitions replicationFactor : Int) (brokerIDs : List Int) {n : Nat} (inside : n < numPartitions.toNat) :
    (store.assignReplicas topicName numPartitions replicationFactor brokerIDs).getPartitionState topicName n =
      some (assignedPartition topicName brokerIDs replicationFactor n) := by
  have distinct : ((List.range numPartitions.toNat).map id).Nodup := by
    rw [List.map_id]
    exact List.nodup_range
  unfold assignReplicas
  refine foldl_at (p := fun _ => True)
    (q := fun store => getPartitionState store topicName n =
      some (assignedPartition topicName brokerIDs replicationFactor n))
    distinct (List.mem_range.mpr inside) (fun _ _ _ _ _ => trivial) ?_ ?_ trivial
  · exact fun store _ => store.put_self ..
  · intro store m _ other set
    refine (store.put_other _ ?_).trans set
    exact fun same => other (numbered_injective (by decide) same).2.symm

section Replicas

variable {brokerIDs : List Int} {replicationFactor : Int} {n : Nat}

theorem length_replicasOf : (replicasOf brokerIDs replicationFactor n).length = replicationFactor.toNat := by
  rw [replicasOf, List.length_map, List.length_range]

theorem replicasOf_subset (known : brokerIDs ≠ []) : replicasOf brokerIDs replicationFactor n ⊆ brokerIDs := by
  intro id member
  obtain ⟨i, -, rfl⟩ := List.mem_map.mp member
  have inside : (n + i) % brokerIDs.length < brokerIDs.length := Nat.mod_lt _ (List.length_pos_iff.mpr known)
  rw [List.getD_eq_getElem?_getD, List.getElem?_eq_getElem inside]
  exact List.getElem_mem inside

theorem replicasOf_rotate (few : replicationFactor.toNat ≤ brokerIDs.length) :
    replicasOf brokerIDs replicationFactor n = (brokerIDs.rotate n).take replicationFactor.toNat := by
  apply List.ext_getElem
  · rw [length_replicasOf, List.length_take, List.length_rotate, Nat.min_eq_left few]
  · intro i inside _
    rw [length_replicasOf] at inside
    have wrapped : (n + i) % brokerIDs.length < brokerIDs.length := Nat.mod_lt _ (by omega)
    simp only [replicasOf, List.getElem_map, List.getElem_range, List.getElem_take, List.getElem_rotate]
    rw [List.getD_eq_getElem?_getD, List.getElem?_eq_getElem wrapped, Option.getD_some]
    simp only [Nat.add_comm n i]

theorem nodup_replicasOf_iff (distinct : brokerIDs.Nodup) (known : brokerIDs ≠ []) :
    (replicasOf brokerIDs replicationFactor n).Nodup ↔ replicationFactor ≤ brokerIDs.length := by
  constructor
  · intro nodup
    have few := (List.subperm_of_subset nodup (replicasOf_subset known)).length_le
    rw [length_replicasOf] at few
    omega
  · intro few
    rw [replicasOf_rotate (by omega)]
    exact (List.nodup_rotate.mpr distinct).sublist (List.take_sublist ..)

theorem head?_replicasOf (positive : 0 < replicationFactor) :
    (replicasOf brokerIDs replicationFactor n).head? = some ((replicasOf brokerIDs replicationFactor n).headD 0) := by
  have length : (replicasOf brokerIDs replicationFactor n).length = _ := length_replicasOf
  cases replicas : replicasOf brokerIDs replicationFactor n with
  | nil =>
    rw [replicas, List.length_nil] at length
    omega
  | cons id rest => rfl

end Replicas

def All (store : PartitionStateStore) (P : String → PartitionEntry → Prop) : Prop :=
  ∀ key e, store.partitions key = some e → P key e

variable {store : PartitionStateStore} {P : String → PartitionEntry → Prop}

theorem newPartitionStateStore_all : newPartitionStateStore.All P := fun _ _ => nofun

theorem All.put (all : store.All P) {e : PartitionEntry} (new : P key e) : (store.put key e).All P := by
  intro key' e' found
  by_cases same : key' = key
  · rw [same, put_self] at found
    rw [same, ← Option.some.inj found]
    exact new
  · rw [put_other _ _ same] at found
    exact all key' e' found

theorem All.setLeader (all : store.All P)
    (kept : ∀ e, P (partitionKey topicName partition) e → P (partitionKey topicName partition) (e.withLeader brokerID))
    (new : P (partitionKey topicName partition) (newPartition topicName partition brokerID 0 [brokerID] [brokerID])) :
    (store.setLeader topicName partition brokerID).All P := by
  unfold PartitionStateStore.setLeader
  dsimp only
  split
  · rename_i e found
    exact all.put (kept e (all _ e found))
  · exact all.put new

theorem All.assignReplicas (all : store.All P) {numPartitions replicationFactor : Int} {brokerIDs : List Int}
    (new : ∀ partition < numPartitions.toNat, P (partitionKey topicName partition)
      (assignedPartition topicName brokerIDs replicationFactor partition)) :
    (store.assignReplicas topicName numPartitions replicationFactor brokerIDs).All P := by
  unfold PartitionStateStore.assignReplicas
  refine List.foldlRecOn (motive := fun store => PartitionStateStore.All store P) _ _ all ?_
  intro store all partition member
  exact all.put (new partition (List.mem_range.mp member))

end PartitionStateStore

end KafGo.Coordinator
