import KafGo.Server.Naming
import KafGo.Server.Process

/-!
# Applying a partition record again

`ApplyMetadataRecord` replaces the state of the partition by a new one, and on the leader also the registered log.
Nothing of what produce requests and fetches did to the old state is carried over.
-/

namespace KafGo.Server
open Lib Coordinator Storage Partition

namespace Process

variable {s : Process} {topicId : Uuid} {topicData : TopicData} {e : PartitionEntry}

/-- What other goroutines rely on. `registrations` says that the log is the same object. -/
structure Unchanged (s s' : Process) (topicId : Uuid) (partition : Int) (e e' : PartitionEntry) : Prop where
  leo : e'.ps.leo = e.ps.leo
  hwm : e'.ps.hwm = e.ps.hwm
  replicaLEO : e'.ps.replicaLEO = e.ps.replicaLEO
  dedup : e'.idempotence = e.idempotence
  waiters : e'.purgatory.waiters = e.purgatory.waiters
  registered : s'.registrations topicId partition = s.registrations topicId partition
  log : s'.topicStore.getCommitLog topicId partition = s.topicStore.getCommitLog topicId partition

/-- No produce request or fetch has touched the state. -/
structure Untouched (e : PartitionEntry) : Prop where
  leo : e.ps.leo = 0
  hwm : e.ps.hwm = 0
  replicaLEO : e.ps.replicaLEO = fun _ => none
  dedup : e.idempotence = some .empty
  waiters : e.purgatory.waiters = []

theorem newPartition_untouched (topicName : String) (partition leader leaderEpoch : Int) (replicas isr : List Int) :
    Untouched (Coordinator.newPartition topicName partition leader leaderEpoch replicas isr) :=
      ⟨rfl, rfl, rfl, rfl, rfl⟩

/-! ### The state that a record makes -/

theorem adopt_one {b : Broker} {key : String} (made : b.partitionStates.partitions key = some e) :
    (s.adopt b [key]).states = s.states.renew key e := by
  simp only [adopt, List.foldl_cons, List.foldl_nil, made]

section Applied

variable (reachable : Bool) (clock : Int → Int) (partitionId leaderEpoch : Int) (replicas isr : List Int)

theorem apply_followed (known : s.topicStore.getTopic topicId = some topicData) {leader : Int}
    (other : leader ≠ s.brokerID) :
    let s' := s.applyMetadataRecord reachable clock (.partition topicId partitionId leader leaderEpoch replicas isr)
    s'.getPartitionState topicData.name partitionId =
      some (Coordinator.newPartition topicData.name partitionId leader leaderEpoch replicas isr) ∧
    s'.registrations = s.registrations ∧ s'.topicStore = s.topicStore := by
  have found : s.broker.topicStore.getTopic topicId = some topicData := known
  have away : leader ≠ s.broker.brokerID := other
  let b := { s.broker with
    partitionStates :=
      s.broker.partitionStates.setPartitionState topicData.name partitionId leader leaderEpoch replicas isr }
  have applied : s.broker.applyMetadataRecord reachable
    (.partition topicId partitionId leader leaderEpoch replicas isr) =
      b.addFetcher topicData.name partitionId reachable := by
    simp only [Broker.applyMetadataRecord, found, away, ↓reduceIte, b]
  have made : (b.addFetcher topicData.name partitionId reachable).partitionStates.partitions
      (partitionKey topicData.name partitionId) =
        some (Coordinator.newPartition topicData.name partitionId leader leaderEpoch replicas isr) := by
    rw [(addFetcher_same b _ _ _).2]
    exact PartitionStateStore.put_self ..
  have after : s.applyMetadataRecord reachable clock (.partition topicId partitionId leader leaderEpoch replicas isr) =
      s.adopt (b.addFetcher topicData.name partitionId reachable) [partitionKey topicData.name partitionId] := by
    simp only [applyMetadataRecord, known, applied]
    exact if_neg other
  rw [after]
  refine ⟨?_, rfl, addFetcher_topicStore b _ _ _⟩
  rw [getPartitionState, adopt_one made]
  exact Objects.get_renew_self ..

theorem recoverProducers_state (topicId : Uuid) {topicName : String} {partition : Int} {i : Nat}
    (points : s.states.live (partitionKey topicName partition) = some i) (read : s.states.heap[i]? = some e) :
    ∃ e', (s.recoverProducers clock topicId topicName partition).getPartitionState topicName partition = some e' ∧
      e'.ps = e.ps ∧ e'.purgatory = e.purgatory := by
  have before : s.getPartitionState topicName partition = some e := (Objects.get_live points).trans read
  unfold recoverProducers
  split
  · rename_i j log points' _
    obtain rfl := Option.some.inj (points.symm.trans points')
    simp only [read]
    exact ⟨_, Objects.get_write_live points read, rfl, rfl⟩
  · exact ⟨e, before, rfl, rfl⟩
  · exact ⟨e, before, rfl, rfl⟩

theorem recoverProducers_registrations (s : Process) (topicId : Uuid) (topicName : String) (partition : Int) :
    (s.recoverProducers clock topicId topicName partition).registrations = s.registrations := by
  unfold recoverProducers
  split
  · split
    · rfl
    · rfl
  · rfl
  · rfl

theorem apply_led (known : s.topicStore.getTopic topicId = some topicData) :
    let s' := s.applyMetadataRecord reachable clock (.partition topicId partitionId s.brokerID leaderEpoch replicas isr)
    ∃ e', s'.getPartitionState topicData.name partitionId = some e' ∧
      e'.ps = (Coordinator.newPartition topicData.name partitionId s.brokerID leaderEpoch replicas isr).ps ∧
      e'.purgatory = .empty ∧ s'.registrations topicId partitionId = s.registrations topicId partitionId + 1 := by
  let key := partitionKey topicData.name partitionId
  let new := Coordinator.newPartition topicData.name partitionId s.brokerID leaderEpoch replicas isr
  let b := s.broker.applyMetadataRecord reachable (.partition topicId partitionId s.brokerID leaderEpoch replicas isr)
  have made : b.partitionStates.partitions key = some (new.withLeader s.brokerID) := by
    have found : s.broker.topicStore.getTopic topicId = some topicData := known
    have own : s.brokerID = s.broker.brokerID := rfl
    simp only [b, Broker.applyMetadataRecord, found, own, ↓reduceIte]
    exact PartitionStateStore.setLeader_found (PartitionStateStore.put_self ..)
  have after : s.applyMetadataRecord reachable clock
    (.partition topicId partitionId s.brokerID leaderEpoch replicas isr) =
      ((s.adopt b [key]).registerLogs topicId (decide <| · = partitionId)).recoverProducers clock topicId topicData.name
        partitionId := by
    simp only [applyMetadataRecord, known]
    exact if_pos rfl
  have states : (s.adopt b [key]).states = s.states.renew key (new.withLeader s.brokerID) := adopt_one made
  have points : (s.adopt b [key]).states.live key = some s.states.heap.length := by
    rw [states]
    exact Objects.live_renew_self ..
  have read : (s.adopt b [key]).states.heap[s.states.heap.length]? = some (new.withLeader s.brokerID) := by
    rw [states]
    exact List.getElem?_concat_length
  rw [after]
  obtain ⟨e', found, ps, purgatory⟩ := recoverProducers_state
    (s := (s.adopt b [key]).registerLogs topicId (decide <| · = partitionId)) clock topicId points read
  refine ⟨e', found, ps, purgatory, ?_⟩
  rw [recoverProducers_registrations]
  simp only [registerLogs, Function.update_self, decide_true, ↓reduceIte, adopt]

/-- Applying a partition record leaves everything in place exactly if the broker is not to lead the partition and no
one has used its state. The high watermark falls unless it is zero. -/
theorem reapplied_iff (known : s.topicStore.getTopic topicId = some topicData) (leader : Int) :
    ∃ s' e', s.applyMetadataRecord reachable clock
      (.partition topicId partitionId leader leaderEpoch replicas isr) = s' ∧
      s'.getPartitionState topicData.name partitionId = some e' ∧
      ∀ e, s.getPartitionState topicData.name partitionId = some e →
        (Unchanged s s' topicId partitionId e e' ↔ leader ≠ s.brokerID ∧ Untouched e) ∧
        (e.ps.hwm ≤ e'.ps.hwm ↔ e.ps.hwm ≤ 0) := by
  by_cases own : leader = s.brokerID
  · subst own
    obtain ⟨e', found, ps, _, registered⟩ := apply_led reachable clock partitionId leaderEpoch replicas isr known
    refine ⟨_, e', rfl, found, ?_⟩
    intro e _
    constructor
    · refine iff_of_false ?_ fun others => others.1 rfl
      intro unchanged
      have same := registered.symm.trans unchanged.registered
      omega
    · rw [ps]
      exact Iff.rfl
  · obtain ⟨found, registrations, topicStore⟩ :=
      apply_followed reachable clock partitionId leaderEpoch replicas isr known own
    refine ⟨_, _, rfl, found, ?_⟩
    intro e _
    refine ⟨?_, Iff.rfl⟩
    constructor
    · intro unchanged
      exact ⟨own, unchanged.leo.symm, unchanged.hwm.symm, unchanged.replicaLEO.symm, unchanged.dedup.symm,
        unchanged.waiters.symm⟩
    · rintro ⟨_, untouched⟩
      refine ⟨untouched.leo.symm, untouched.hwm.symm, untouched.replicaLEO.symm, untouched.dedup.symm,
        untouched.waiters.symm, ?_, ?_⟩
      · rw [registrations]
      · rw [topicStore]

end Applied

def partitionLedBy (leader : Int) : MetadataRecord := .partition 10 0 leader 0 [1, 2] [leader]

def ofLedBy (leader : Int) (steps : List ProcessAction) : List ProcessAction :=
  [.apply true id (.topic 10 "t" 1 1), .apply true id (partitionLedBy leader)] ++ steps

def hwmOf (s : Process) (topicName : String) (partition : Int) : Option Int :=
  (s.getPartitionState topicName partition).map (·.ps.hwm)

/-- Broker 1 leads, and the record comes twice in a row. -/
theorem reapplied_iff_follower : ∃ s s' e e', (machine fun _ => none).Run s ∧
    s.getPartitionState "t" 0 = some e ∧ s.applyMetadataRecord true id (partitionLedBy 1) = s' ∧
    s'.getPartitionState "t" 0 = some e' ∧ Unchanged s s' 10 0 e e' ∧ e.ps.hwm ≤ e'.ps.hwm := by
  let before := (firstProcess 2 [1]).applyMetadataRecord true id (.topic 10 "t" 1 1)
  let s := before.applyMetadataRecord true id (partitionLedBy 1)
  have absent : (firstProcess 2 [1]).topicStore.topics 10 = none := rfl
  have known : before.topicStore.getTopic 10 = some ⟨"t", 10, 1, 1⟩ := by
    show ((firstProcess 2 [1]).topicStore.registerTopic 10 "t" 1).getTopic 10 = _
    exact TopicStore.registerTopic_absent absent "t" 1
  obtain ⟨present, _, topicStore⟩ := apply_followed true id 0 0 [1, 2] [1] known
    (by decide : (1 : Int) ≠ before.brokerID)
  have registered : (machine fun _ => none).Run before :=
    .act (a := .apply true id (.topic 10 "t" 1 1)) (.start (firstProcess_start _ 2 [1])) trivial rfl
  have reached : (machine fun _ => none).Run s := .act (a := .apply true id (partitionLedBy 1)) registered trivial rfl
  have again : s.topicStore.getTopic 10 = some ⟨"t", 10, 1, 1⟩ :=
    (congrArg (fun store => TopicStore.getTopic store 10) topicStore).trans known
  obtain ⟨s', e', applied, found, compared⟩ := reapplied_iff true id 0 0 [1, 2] [1] again 1
  obtain ⟨unchanged, higher⟩ := compared _ present
  have away : (1 : Int) ≠ s.brokerID := by decide
  have kept := unchanged.mpr ⟨away, newPartition_untouched ..⟩
  exact ⟨s, s', _, e', reached, present, applied, found, kept, higher.mpr (Int.le_refl 0)⟩

/-- Broker 2 leads and has written one record. After the same record of the metadata log it starts from zero, and with
another log object. -/
theorem reapplied_resets : ∃ s s', (machine fun _ => none).Run s ∧
    (machine fun _ => none).step (.apply true id (partitionLedBy 2)) s = some s' ∧
    s.leoOf "t" 0 = some 1 ∧ s'.leoOf "t" 0 = some 0 ∧ s.hwmOf "t" 0 = some 1 ∧ s'.hwmOf "t" 0 = some 0 ∧
    s.registrations 10 0 = 1 ∧ s'.registrations 10 0 = 2 := by
  have schedule := (machine fun _ => none).exec_reaches (fun _ _ => True) (fun _ _ => true) (fun _ _ _ => trivial)
    (ofLedBy 2 (.produce 10 0 ⟨1, some (soloBatch 7 0 0)⟩ :: List.replicate 8 (.run 0 calm)))
    (fun s => decide (s.leoOf "t" 0 = some 1 ∧ s.hwmOf "t" 0 = some 1 ∧ s.registrations 10 0 = 1) &&
      ((machine fun _ => none).step (.apply true id (partitionLedBy 2)) s).any fun s' =>
        decide (s'.leoOf "t" 0 = some 0 ∧ s'.hwmOf "t" 0 = some 0 ∧ s'.registrations 10 0 = 2))
    (firstProcess_start _ 2 [1]) (by decide +kernel)
  obtain ⟨s, reached, ends⟩ := schedule
  obtain ⟨before, after⟩ := Bool.and_eq_true_iff.mp ends
  obtain ⟨leo, hwm, once⟩ := of_decide_eq_true before
  obtain ⟨s', moved, after⟩ := (Option.any_eq_true _ _).mp after
  obtain ⟨leo', hwm', twice⟩ := of_decide_eq_true after
  exact ⟨s, s', reached, moved, leo, leo', hwm, hwm', once, twice⟩

end Process

end KafGo.Server
