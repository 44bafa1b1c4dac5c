import KafGo.Server.Process

/-!
# Partitions do not disturb each other

Every step of a broker is addressed to partitions, by the name of a topic and a number. It changes the states of no
other partitions, except that the key of a partition with a negative number is also the key of a partition of another
topic: the number -1 of "a" and the number 1 of "a-" are one entry of the store.
-/

namespace KafGo.Server
open Lib Coordinator Storage Partition

namespace Process

/-- The partitions that an action is about. -/
def Addresses (s : Process) (a : ProcessAction) (topicName : String) (partition : Int) : Prop :=
  match a with
  | .create _ d _ => topicName = d.name ∧ 0 ≤ partition ∧ partition < d.numPartitions
  | .apply _ _ (.partition topicId partitionId _ _ _ _) =>
    (s.topicStore.getTopic topicId).map (·.name) = some topicName ∧ partition = partitionId
  | .apply _ _ (.broker ..) => False
  | .apply _ _ (.topic ..) => False
  | .apply _ _ (.producerIds ..) => False
  | .produce topicId partition' _ => (s.topicStore.getTopic topicId).map (·.name) = some topicName ∧
      partition = partition'
  | .fetch topicId partition' _ _ => (s.topicStore.getTopic topicId).map (·.name) = some topicName ∧
      partition = partition'
  | .tick state _ => (s.states.heap[state]?).map (fun e => (e.topicName, e.partitionIndex)) =
      some (topicName, partition)
  | .publish _ => topicName = clusterMetadata ∧ partition = 0
  | .snapshot topicName' partition' _ => topicName = topicName' ∧ partition = partition'
  | .run i _ => (s.handlers[i]?).map (fun h => (h.topicName, h.partition)) = some (topicName, partition)

/-- Objects are held under the key they were made for. -/
structure Sound (s : Process) : Prop where
  owned : s.states.Owned PartitionEntry.key
  handlers : ∀ h ∈ s.handlers, s.states.Refers PartitionEntry.key h.state (partitionKey h.topicName h.partition)
  metadata : ∀ i, s.metadataState = some i → s.states.Refers PartitionEntry.key i (partitionKey clusterMetadata 0)

def Named (key : String) (e : PartitionEntry) : Prop := e.key = key

theorem createTopic_named {b : Broker} (all : b.partitionStates.All Named) (topicId : Uuid) (d : CreateTopicData)
    (reachable : Int → Bool) : (b.createTopic topicId d reachable).1.partitionStates.All Named := by
  rw [(createTopic_same b topicId d reachable).2]
  exact all.assignReplicas fun n _ => rfl

theorem applyMetadataRecord_named {b : Broker} (all : b.partitionStates.All Named) (reachable : Bool)
    (record : MetadataRecord) : (b.applyMetadataRecord reachable record).partitionStates.All Named := by
  cases record with
  | broker brokerId =>
    simp only [Broker.applyMetadataRecord, Broker.registerBroker]
    split
    · exact all
    · exact all
  | topic => exact all
  | producerIds => exact all
  | partition topicId partitionId leader leaderEpoch replicas isr =>
    simp only [Broker.applyMetadataRecord]
    split
    · exact all
    · rename_i topicData _
      have put :
        (b.partitionStates.setPartitionState topicData.name partitionId leader leaderEpoch replicas isr).All Named :=
        all.put rfl
      split
      · exact put.setLeader (fun _ named => named) rfl
      · rw [(addFetcher_same _ _ _ _).2]
        exact put

/-! ### Steps -/

section Steps

variable {s s' : Process} {changed : String → Prop}

theorem Sound.moves (sound : Sound s) (moves : Objects.Moves s.states s'.states PartitionEntry.key changed)
    (handlers : ∀ h ∈ s'.handlers, h ∈ s.handlers ∨ s.states.Refers PartitionEntry.key h.state
      (partitionKey h.topicName h.partition))
    (metadata : s'.metadataState = s.metadataState) : Sound s' where
  owned := moves.owned
  handlers h member := moves.refers _ _ ((handlers h member).elim (sound.handlers h) id)
  metadata i here := moves.refers _ _ (sound.metadata i (metadata.symm.trans here))

theorem broker_named (sound : Sound s) : s.broker.partitionStates.All Named := fun _ _ found => sound.owned.get found

theorem adopt_moves (sound : Sound s) {b : Broker} (named : b.partitionStates.All Named) (renewed : List String)
    (inside : ∀ key ∈ renewed, changed key) :
    Objects.Moves s.states (s.adopt b renewed).states PartitionEntry.key changed := by
  refine List.foldlRecOn (motive := fun states : Objects String PartitionEntry =>
    Objects.Moves s.states states PartitionEntry.key changed) _ _ (sound.owned.moves _) ?_
  intro states moves key member
  split
  · exact moves
  · rename_i e found
    exact moves.trans ((Objects.renew_moves moves.owned (named key e found)).mono fun _ here =>
      here ▸ inside key member)

theorem createTopic_moves (sound : Sound s) (topicId : Uuid) (d : CreateTopicData) (reachable : Int → Bool) :
    Objects.Moves s.states (s.createTopic topicId d reachable).states PartitionEntry.key
      fun key => ∃ topicName partition, s.Addresses (.create topicId d reachable) topicName partition ∧
        key = partitionKey topicName partition := by
  refine adopt_moves sound (createTopic_named (broker_named sound) topicId d reachable) _ ?_
  intro key member
  obtain ⟨n, inside, rfl⟩ := List.mem_map.mp member
  have bound := List.mem_range.mp inside
  exact ⟨d.name, n, ⟨rfl, by omega, by omega⟩, rfl⟩

theorem recoverProducers_moves (sound : Sound s) (clock : Int → Int) (topicId : Uuid) (topicName : String)
    (partition : Int) : Objects.Moves s.states (s.recoverProducers clock topicId topicName partition).states
      PartitionEntry.key (· = partitionKey topicName partition) := by
  unfold recoverProducers
  split
  · rename_i i log points _
    split
    · exact sound.owned.moves _
    · rename_i e read
      have refers := sound.owned _ i points
      refine Objects.write_moves sound.owned refers ?_
      rw [Objects.Refers, read] at refers
      exact Option.some.inj refers
  · exact sound.owned.moves _
  · exact sound.owned.moves _

theorem recoverProducers_handlers (s : Process) (clock : Int → Int) (topicId : Uuid) (topicName : String)
    (partition : Int) :
    (s.recoverProducers clock topicId topicName partition).handlers = s.handlers ∧
      (s.recoverProducers clock topicId topicName partition).metadataState = s.metadataState := by
  unfold recoverProducers
  split
  · split
    · exact ⟨rfl, rfl⟩
    · exact ⟨rfl, rfl⟩
  · exact ⟨rfl, rfl⟩
  · exact ⟨rfl, rfl⟩

theorem applyMetadataRecord_moves (sound : Sound s) (reachable : Bool) (clock : Int → Int) (record : MetadataRecord) :
    Objects.Moves s.states (s.applyMetadataRecord reachable clock record).states PartitionEntry.key
      (fun key => ∃ topicName partition, s.Addresses (.apply reachable clock record) topicName partition ∧
        key = partitionKey topicName partition) ∧
    (s.applyMetadataRecord reachable clock record).handlers = s.handlers ∧
    (s.applyMetadataRecord reachable clock record).metadataState = s.metadataState := by
  have named := applyMetadataRecord_named (broker_named sound) reachable record
  cases record with
  | broker | topic | producerIds => exact ⟨adopt_moves sound named [] nofun, rfl, rfl⟩
  | partition topicId partitionId leader leaderEpoch replicas isr =>
    simp only [applyMetadataRecord]
    split
    · exact ⟨sound.owned.moves _, rfl, rfl⟩
    · rename_i topicData found
      have here : ∃ topicName partition, s.Addresses (.apply reachable clock
          (.partition topicId partitionId leader leaderEpoch replicas isr)) topicName partition ∧
          partitionKey topicData.name partitionId = partitionKey topicName partition := by
        refine ⟨topicData.name, partitionId, ⟨?_, rfl⟩, rfl⟩
        rw [found, Option.map_some]
      have adopted := adopt_moves sound named [partitionKey topicData.name partitionId] fun key member =>
        List.mem_singleton.mp member ▸ here
      have between := sound.moves adopted (fun _ old => .inl old) rfl
      split
      · have registered : Sound ((s.adopt _ [partitionKey topicData.name partitionId]).registerLogs topicId
            (decide <| · = partitionId)) := ⟨between.owned, between.handlers, between.metadata⟩
        obtain ⟨handlers, metadata⟩ := recoverProducers_handlers _ clock topicId topicData.name partitionId
        refine ⟨adopted.trans ((recoverProducers_moves registered clock topicId topicData.name partitionId).mono ?_),
          handlers, metadata⟩
        exact fun key same => same ▸ here
      · exact ⟨adopted, rfl, rfl⟩

theorem spawn_moves (sound : Sound s) {h : Handler}
    (refers : s.states.Refers PartitionEntry.key h.state (partitionKey h.topicName h.partition)) :
    Sound (s.spawn h) := by
  refine sound.moves (sound.owned.moves fun _ => False) ?_ rfl
  intro h' member
  rcases List.mem_append.mp member with old | new
  · exact .inl old
  · rw [List.mem_singleton.mp new]
    exact .inr refers

theorem produce_sound (sound : Sound s) (topicId : Uuid) (partition : Int) (q : ProduceRequest) :
    Sound (s.produce topicId partition q) ∧ (s.produce topicId partition q).states = s.states := by
  unfold produce
  split
  · exact ⟨sound, rfl⟩
  · split
    · exact ⟨sound, rfl⟩
    · rename_i state points
      exact ⟨spawn_moves sound (sound.owned _ state points), rfl⟩

theorem fetch_sound (sound : Sound s) (topicId : Uuid) (partition replicaId fetchOffset : Int) :
    Sound (s.fetch topicId partition replicaId fetchOffset) ∧
      (s.fetch topicId partition replicaId fetchOffset).states = s.states := by
  unfold fetch
  split
  · exact ⟨sound, rfl⟩
  · split
    · exact ⟨sound, rfl⟩
    · rename_i state points
      split
      · exact ⟨sound, rfl⟩
      · split
        · exact ⟨sound, rfl⟩
        · split
          · exact ⟨spawn_moves sound (sound.owned _ state points), rfl⟩
          · exact ⟨sound, rfl⟩

theorem tick_sound (sound : Sound s) {state : Nat} {lagMax : Int} (moved : s.tick state lagMax = some s') :
    Sound s' ∧ s'.states = s.states := by
  unfold tick at moved
  split at moved
  · cases moved
  · rename_i e read
    obtain ⟨_, same⟩ := Option.ite_none_right_eq_some.mp moved
    obtain rfl := Option.some.inj same
    refine ⟨spawn_moves sound ?_, rfl⟩
    rw [Objects.Refers, read]
    rfl

theorem publish_moves (sound : Sound s) (offset : Int) : Sound (s.publish offset) ∧
    Objects.Moves s.states (s.publish offset).states PartitionEntry.key (· = partitionKey clusterMetadata 0) := by
  unfold publish
  split
  · exact ⟨sound, sound.owned.moves _⟩
  · rename_i state here
    split
    · exact ⟨sound, sound.owned.moves _⟩
    · rename_i e read
      have refers := sound.metadata state here
      have named : e.key = partitionKey clusterMetadata 0 := by
        rw [Objects.Refers, read] at refers
        exact Option.some.inj refers
      have moves : Objects.Moves s.states (s.states.write state { e with ps := e.ps.onLeaderAppend offset })
          PartitionEntry.key (· = partitionKey clusterMetadata 0) := Objects.write_moves sound.owned refers named
      refine ⟨spawn_moves ?_ (moves.refers _ _ refers), moves⟩
      exact sound.moves moves (fun _ old => .inl old) rfl

theorem writeLog_same (s : Process) (h : Handler) (log : CommitLog) :
    (s.writeLog h log).metadataState = s.metadataState := by
  unfold writeLog
  split
  · rfl
  · split
    · rfl
    · rfl

theorem run_moves {snappy : Bytes → Option Bytes} (sound : Sound s) {i : Nat} {env : Env}
    (moved : s.run snappy i env = some s') : Sound s' ∧ ∃ h, s.handlers[i]? = some h ∧
      Objects.Moves s.states s'.states PartitionEntry.key (· = partitionKey h.topicName h.partition) := by
  unfold run at moved
  split at moved
  · cases moved
  · rename_i h found
    split at moved
    · cases moved
    · rename_i e read
      obtain ⟨⟨l, task⟩, _, rfl⟩ := Option.map_eq_some_iff.mp moved
      have member := List.mem_of_getElem? found
      have refers := sound.handlers h member
      have named : e.key = partitionKey h.topicName h.partition := by
        rw [Objects.Refers, read] at refers
        exact Option.some.inj refers
      have moves : Objects.Moves s.states (s.stepped i h e l task).states PartitionEntry.key
          (· = partitionKey h.topicName h.partition) := Objects.write_moves sound.owned refers named
      refine ⟨sound.moves moves ?_ (writeLog_same s h l.log), h, found, moves⟩
      intro h' member'
      rcases List.mem_or_eq_of_mem_set member' with old | rfl
      · exact .inl old
      · exact .inr refers

/-- A step changes the states of the partitions it is addressed to, and only them. -/
theorem step_moves {snappy : Bytes → Option Bytes} (sound : Sound s) {a : ProcessAction}
    (moved : step snappy a s = some s') : Sound s' ∧ Objects.Moves s.states s'.states PartitionEntry.key
      fun key => ∃ topicName partition, s.Addresses a topicName partition ∧ key = partitionKey topicName partition := by
  cases a with
  | create topicId d reachable =>
    obtain ⟨_, same⟩ := Option.ite_none_right_eq_some.mp moved
    obtain rfl := Option.some.inj same
    have moves := createTopic_moves sound topicId d reachable
    exact ⟨sound.moves moves (fun _ old => .inl old) rfl, moves⟩
  | apply reachable clock record =>
    obtain rfl := Option.some.inj moved
    obtain ⟨moves, handlers, metadata⟩ := applyMetadataRecord_moves sound reachable clock record
    exact ⟨sound.moves moves (fun _ old => .inl (handlers ▸ old)) metadata, moves⟩
  | produce topicId partition q =>
    obtain rfl := Option.some.inj moved
    obtain ⟨after, same⟩ := produce_sound sound topicId partition q
    exact ⟨after, same ▸ sound.owned.moves _⟩
  | fetch topicId partition replicaId fetchOffset =>
    obtain rfl := Option.some.inj moved
    obtain ⟨after, same⟩ := fetch_sound sound topicId partition replicaId fetchOffset
    exact ⟨after, same ▸ sound.owned.moves _⟩
  | tick state lagMax =>
    obtain ⟨after, same⟩ := tick_sound sound moved
    exact ⟨after, same ▸ sound.owned.moves _⟩
  | publish offset =>
    obtain rfl := Option.some.inj (Option.ite_none_right_eq_some.mp moved).2
    obtain ⟨after, moves⟩ := publish_moves sound offset
    exact ⟨after, moves.mono fun _ here => ⟨clusterMetadata, 0, ⟨rfl, rfl⟩, here⟩⟩
  | snapshot topicName partition dir =>
    obtain rfl := Option.some.inj moved
    exact ⟨⟨sound.owned, sound.handlers, sound.metadata⟩, sound.owned.moves _⟩
  | run i env =>
    obtain ⟨after, h, found, moves⟩ := run_moves sound moved
    refine ⟨after, moves.mono fun _ here => ⟨h.topicName, h.partition, ?_, here⟩⟩
    exact congrArg (Option.map fun h : Handler => (h.topicName, h.partition)) found

end Steps

theorem start_named (brokerID : Int) (peers : List Int) (disk : Disk) :
    (newServer brokerID peers disk).start.partitionStates.All Named := by
  obtain ⟨states, _, _, _⟩ := newServer_fresh brokerID peers disk
  have recovered : (newServer brokerID peers disk).recoverTopic.partitionStates.All Named := by
    refine (Broker.recoverTopic_all ?_ ?_).2
    · rw [states]
      exact PartitionStateStore.newPartitionStateStore_all
    · exact fun dir _ topicMeta _ partition _ => ⟨fun _ named => named, rfl⟩
  rw [Broker.start_states]
  exact recovered.put rfl

theorem startStates_owned {b : Broker} (named : b.partitionStates.All Named) (keys : List String)
    (producers : String → IdempotenceState) : (startStates b keys producers).Owned PartitionEntry.key := by
  refine List.foldlRecOn (motive := fun states : Objects String PartitionEntry => states.Owned PartitionEntry.key) _ _
    Objects.empty_owned ?_
  intro states owned key _
  split
  · exact owned
  · rename_i e found
    exact owned.renew (named key e found)

theorem started_sound {b : Broker} (named : b.partitionStates.All Named) (keys : List String)
    (producers : String → IdempotenceState) (snapshots : String → Int → SnapshotDir) :
    Sound (started b keys producers snapshots) where
  owned := startStates_owned named keys producers
  handlers _ member := absurd member List.not_mem_nil
  metadata i points := startStates_owned named keys producers _ i points

theorem reached_sound {snappy : Bytes → Option Bytes} {s : Process} (reached : (machine snappy).Run s) : Sound s := by
  refine Machine.reached_invariant Sound ?_ ?_ reached
  · rintro _ ⟨brokerID, peers, disk, keys, producers, snapshots, _, rfl⟩
    exact started_sound (start_named brokerID peers disk) keys producers snapshots
  · intro s a s' sound _ moved
    obtain ⟨_, moved⟩ := Option.ite_none_left_eq_some.mp moved
    exact (step_moves sound moved).1

/-- Two partitions have the same key only if the minus of a negative number is the end of the other's name. In every
run, each step leaves the states of all partitions alone whose keys are not those of partitions it is addressed to. -/
theorem partitions_isolated (snappy : Bytes → Option Bytes) {s s' : Process} {a : ProcessAction}
    (reached : (machine snappy).Run s) (moved : (machine snappy).step a s = some s') {topicName : String}
    {partition : Int} (other : ¬ s.Addresses a topicName partition)
    (apart : ∀ (name : String) (number : Int), s.Addresses a name number → ¬ Clash topicName partition name number ∧
      ¬ Clash name number topicName partition) :
    s'.getPartitionState topicName partition = s.getPartitionState topicName partition ∧
      ∀ (name : String) (number : Int), s.Addresses a name number →
        partitionKey topicName partition ≠ partitionKey name number := by
  have keys : ∀ (name : String) (number : Int), s.Addresses a name number →
      partitionKey topicName partition ≠ partitionKey name number := by
    intro name number addressed same
    rcases numbered_eq_iff.mp same with ⟨rfl, rfl⟩ | clash | clash
    · exact other addressed
    · exact (apart name number addressed).1 clash
    · exact (apart name number addressed).2 clash
  refine ⟨?_, keys⟩
  obtain ⟨_, moved⟩ := Option.ite_none_left_eq_some.mp moved
  refine (step_moves (reached_sound reached) moved).2.others _ ?_
  rintro ⟨name, number, addressed, same⟩
  exact keys name number addressed same

def ofTwoTopics (steps : List ProcessAction) : List ProcessAction :=
  [.create 10 ⟨"a", 1, 1, []⟩ fun _ => true, .create 11 ⟨"a-", 2, 1, []⟩ fun _ => true,
    .produce 11 1 ⟨1, some (soloBatch 7 0 0)⟩] ++ steps

def addressee (s : Process) (i : Nat) :
    Option (String × Int) := (s.handlers[i]?).map fun h => (h.topicName, h.partition)

/-- A produce request raises the log end of its partition, and the first partition of "a" stays as it is. -/
theorem partitions_isolated_produce : ∃ s s', (machine fun _ => none).Run s ∧
    (machine fun _ => none).step (.run 0 calm) s = some s' ∧ s.leoOf "a-" 1 = some 0 ∧ s'.leoOf "a-" 1 = some 1 ∧
    s'.getPartitionState "a" 0 = s.getPartitionState "a" 0 ∧ (s.getPartitionState "a" 0).isSome = true := by
  have schedule := (machine fun _ => none).exec_reaches (fun _ _ => True) (fun _ _ => true) (fun _ _ _ => trivial)
    (ofTwoTopics [.run 0 calm, .run 0 calm, .run 0 calm, .run 0 calm])
    (fun s => decide (s.addressee 0 = some ("a-", 1) ∧ s.leoOf "a-" 1 = some 0) && (s.getPartitionState "a" 0).isSome &&
      ((machine fun _ => none).step (.run 0 calm) s).any fun s' => decide (s'.leoOf "a-" 1 = some 1))
    (firstProcess_start _ 1 []) (by decide +kernel)
  obtain ⟨s, reached, ends⟩ := schedule
  obtain ⟨before, after⟩ := Bool.and_eq_true_iff.mp ends
  obtain ⟨first, there⟩ := Bool.and_eq_true_iff.mp before
  obtain ⟨addressed, low⟩ := of_decide_eq_true first
  obtain ⟨s', moved, high⟩ := (Option.any_eq_true _ _).mp after
  have only : ∀ name number, s.Addresses (.run 0 calm) name number → name = "a-" ∧ number = 1 := by
    intro name number here
    obtain ⟨rfl, rfl⟩ := Prod.mk.inj (Option.some.inj (addressed.symm.trans here))
    exact ⟨rfl, rfl⟩
  refine ⟨s, s', reached, moved, low, of_decide_eq_true high, ?_, there⟩
  refine (partitions_isolated _ reached moved ?_ ?_).1
  · intro here
    exact absurd (only _ _ here).1 (by decide)
  · intro name number here
    obtain ⟨rfl, rfl⟩ := only name number here
    exact ⟨by decide, by decide⟩

def twoHoursLater : Env := { calm with now := 2 * 60 * 60 * 1000 }

/-- Producer 7 has written to the second partition of "a-". Two hours later a request for partition -1 of "a" makes
that partition forget the producer. -/
theorem partitions_share_state : ∃ s s', (machine fun _ => none).Run s ∧
    (machine fun _ => none).step (.run 1 twoHoursLater) s = some s' ∧ s.Addresses (.run 1 twoHoursLater) "a" (-1) ∧
    ¬ s.Addresses (.run 1 twoHoursLater) "a-" 1 ∧ partitionKey "a" (-1) = partitionKey "a-" 1 ∧
    s.remembers "a-" 1 7 = true ∧ s'.remembers "a-" 1 7 = false := by
  have schedule := (machine fun _ => none).exec_reaches (fun _ _ => True) (fun _ _ => true) (fun _ _ _ => trivial)
    (ofTwoTopics
      (List.replicate 8 (.run 0 calm) ++ [.produce 10 (-1) ⟨1, some (soloBatch 7 0 1)⟩, .run 1 twoHoursLater]))
    (fun s => decide (s.addressee 1 = some ("a", -1)) && s.remembers "a-" 1 7 &&
      ((machine fun _ => none).step (.run 1 twoHoursLater) s).any fun s' => !s'.remembers "a-" 1 7)
    (firstProcess_start _ 1 []) (by decide +kernel)
  obtain ⟨s, reached, ends⟩ := schedule
  obtain ⟨before, after⟩ := Bool.and_eq_true_iff.mp ends
  obtain ⟨first, known⟩ := Bool.and_eq_true_iff.mp before
  have addressed : s.addressee 1 = some ("a", -1) := of_decide_eq_true first
  obtain ⟨s', moved, forgotten⟩ := (Option.any_eq_true _ _).mp after
  refine ⟨s, s', reached, moved, addressed, ?_, by decide, known, by simpa using forgotten⟩
  intro here
  exact absurd (Option.some.inj (addressed.symm.trans here)) (by decide)

end Process

end KafGo.Server
