import KafGo.Coordinator.ProducerStateManager
import KafGo.Lib.Machine
import KafGo.Lib.Objects
import KafGo.Partition.Leader
import KafGo.Server.Plan

/-!
# A broker at work

The goroutines of a broker with all its partitions. A handler looks up the state of its partition once, by the name
of the topic and the number of the partition, and works on that object to the end, even if `SetPartitionState` or
`AssignReplicas` replaces it in the store. The steps of a handler are those of `leaderSystem`.

A request or a tick that also appends to the metadata log does so in a step of its own, `publish`. Snapshots of
producer states are written by hooks that run at any time after a roll; here any files may appear.
-/

namespace KafGo.Server
open Lib Coordinator Storage Partition

/-- What a goroutine works on. The ISR manager has no topic id, it asks for the topic by name. -/
structure Handler where
  topicId : Option Uuid
  topicName : String
  partition : Int
  state : Nat
  task : Task

/-- `metadataState` is the state that the metadata log raises. `registrations` counts the logs that were registered
for a partition; the last one is the log it has. -/
structure Process where
  brokerID : Int
  brokers : List Int
  topicStore : TopicStore
  fetchers : List String
  disk : Disk
  states : Objects String PartitionEntry
  metadataState : Option Nat
  snapshots : String → Int → SnapshotDir
  registrations : Uuid → Int → Nat
  handlers : List Handler
  crashed : Bool

inductive ProcessAction where
  | create (topicId : Uuid) (d : CreateTopicData) (reachable : Int → Bool)
  | apply (reachable : Bool) (clock : Int → Int) (record : MetadataRecord)
  | produce (topicId : Uuid) (partition : Int) (q : ProduceRequest)
  | fetch (topicId : Uuid) (partition replicaId fetchOffset : Int)
  | tick (state : Nat) (lagMax : Int)
  | publish (offset : Int)
  | snapshot (topicName : String) (partition : Int) (dir : SnapshotDir)
  | run (handler : Nat) (env : Env)

def appends : Task → Bool
  | .append _ => true
  | _ => false

def Disk.writePartition (disk : Disk) (topicName : String) (partition : Int) (files : List SegmentFiles) : Disk :=
  let topic := disk.topicDir topicName
  insertKey (·.name) disk
    { topic with partitions := insertKey (·.name) topic.partitions ⟨numbered '-' topicName partition, files⟩ }

namespace Process

def broker (s : Process) : Broker :=
  ⟨s.brokerID, s.brokers, s.topicStore, ⟨s.states.get⟩, s.fetchers, s.disk⟩

def getPartitionState (s : Process) (topicName : String) (partition : Int) : Option PartitionEntry :=
  s.states.get (partitionKey topicName partition)

/-- Go on with a changed broker that has new objects under the given keys. -/
def adopt (s : Process) (b : Broker) (renewed : List String) : Process :=
  { s with
    brokers := b.brokers
    topicStore := b.topicStore
    fetchers := b.fetchers
    disk := b.disk
    states := renewed.foldl (fun states key => match b.partitionStates.partitions key with
      | none => states
      | some e => states.renew key e) s.states }

def registerLogs (s : Process) (topicId : Uuid) (partitions : Int → Bool) : Process :=
  { s with
    registrations := Function.update s.registrations topicId fun partition =>
      s.registrations topicId partition + if partitions partition then 1 else 0 }

def createTopic (s : Process) (topicId : Uuid) (d : CreateTopicData) (reachable : Int → Bool) : Process :=
  (s.adopt (s.broker.createTopic topicId d reachable).1
    ((List.range d.numPartitions.toNat).map fun (n : Nat) => partitionKey d.name n)).registerLogs topicId
      fun partition => decide (0 ≤ partition ∧ partition < d.numPartitions)

/-- `Recover` on the log that was just opened. Its callback does not fail, so neither does `Recover`. -/
def recovered (s : Process) (clock : Int → Int) (topicName : String) (partition : Int) (log : CommitLog)
    (state : IdempotenceState) : IdempotenceState :=
  match (newProducerStateManager (s.snapshots topicName partition) state).recover clock log with
  | .ok manager => manager.state
  | .error _ => state

def recoverProducers (s : Process) (clock : Int → Int) (topicId : Uuid) (topicName : String) (partition : Int) :
    Process :=
  match s.states.live (partitionKey topicName partition), s.topicStore.getCommitLog topicId partition with
  | some i, some log => match s.states.heap[i]? with
    | none => s
    | some e =>
      { s with
        states := s.states.write i
          { e with idempotence := e.idempotence.map (s.recovered clock topicName partition log) } }
  | some _, none => s
  | none, _ => s

def applyMetadataRecord (s : Process) (reachable : Bool) (clock : Int → Int) (record : MetadataRecord) : Process :=
  let b := s.broker.applyMetadataRecord reachable record
  match record with
  | .broker .. => s.adopt b []
  | .topic .. => s.adopt b []
  | .producerIds .. => s.adopt b []
  | .partition topicId partitionId leader _ _ _ => match s.topicStore.getTopic topicId with
    | none => s
    | some topicData =>
      let s := s.adopt b [partitionKey topicData.name partitionId]
      if leader = s.brokerID then
        (s.registerLogs topicId (decide <| · = partitionId)).recoverProducers clock topicId topicData.name partitionId
      else s

/-! ### Handlers -/

def spawn (s : Process) (h : Handler) : Process := { s with handlers := s.handlers ++ [h] }

def produce (s : Process) (topicId : Uuid) (partition : Int) (q : ProduceRequest) : Process :=
  match s.topicStore.getTopic topicId with
  | none => s
  | some topicData => match s.states.live (partitionKey topicData.name partition) with
    | none => s
    | some state => s.spawn ⟨some topicId, topicData.name, partition, state, .arrive q⟩

/-- Only a fetch of a replica changes the state. -/
def fetch (s : Process) (topicId : Uuid) (partition replicaId fetchOffset : Int) : Process :=
  match s.topicStore.getTopic topicId with
  | none => s
  | some topicData => match s.states.live (partitionKey topicData.name partition) with
    | none => s
    | some state =>
      if (s.states.heap[state]?).map (·.ps.leaderBrokerID) ≠ some s.brokerID then s
      else if (s.topicStore.getCommitLog topicId partition).isNone then s
      else if replicaId > 0 then
        s.spawn ⟨some topicId, topicData.name, partition, state, .replicaFetch replicaId fetchOffset⟩
      else s

/-- `PartitionsLedBy` picks up one state. -/
def tick (s : Process) (state : Nat) (lagMax : Int) : Option Process :=
  match s.states.heap[state]? with
  | none => none
  | some e =>
    if s.states.live e.key = some state ∧ e.ps.leaderBrokerID = s.brokerID then
      some (s.spawn ⟨none, e.topicName, e.partitionIndex, state, .tick lagMax⟩)
    else none

/-- `OnLeaderAppend` after an append to the metadata log. -/
def publish (s : Process) (offset : Int) : Process :=
  match s.metadataState with
  | none => s
  | some state => match s.states.heap[state]? with
    | none => s
    | some e =>
      { s with states := s.states.write state { e with ps := e.ps.onLeaderAppend offset } }.spawn
        ⟨none, clusterMetadata, 0, state, .advance .finished⟩

def topicIdOf (s : Process) (h : Handler) : Option Uuid := h.topicId.or (s.topicStore.topicNames h.topicName)

def logOf (s : Process) (h : Handler) : Option CommitLog :=
  (s.topicIdOf h).bind fun topicId => s.topicStore.getCommitLog topicId h.partition

def leaderOf (s : Process) (h : Handler) (e : PartitionEntry) : Leader where
  brokerID := s.brokerID
  topicKnown := (s.topicStore.getTopicByName h.topicName).isSome
  minInsync := ((s.topicIdOf h).bind s.topicStore.metas).map (·.minInsyncReplicas)
  ps := e.ps
  purgatory := e.purgatory
  idempotence := e.idempotence.getD .empty
  log := (s.logOf h).getD (newCommitLog defaultCommitLogConfig [])
  stored := []
  crash := none

def writeLog (s : Process) (h : Handler) (log : CommitLog) : Process :=
  match s.topicIdOf h with
  | none => s
  | some topicId =>
    if appends h.task && (s.logOf h).isSome then
      { s with
        topicStore := s.topicStore.addCommitLog topicId h.partition log
        disk := s.disk.writePartition h.topicName h.partition log.files }
    else s

def stepped (s : Process) (i : Nat) (h : Handler) (e : PartitionEntry) (l : Leader) (task : Task) : Process :=
  { s.writeLog h l.log with
    states := s.states.write h.state
      { e with
        ps := l.ps
        purgatory := l.purgatory
        idempotence := e.idempotence.map fun _ => l.idempotence }
    handlers := s.handlers.set i { h with task := task }
    crashed := l.crash.isSome }

def run (snappy : Bytes → Option Bytes) (s : Process) (i : Nat) (env : Env) : Option Process :=
  match s.handlers[i]? with
  | none => none
  | some h => match s.states.heap[h.state]? with
    | none => none
    | some e =>
      ((leaderSystem snappy).step { env with logMissing := (s.logOf h).isNone } (s.leaderOf h e) h.task).map fun next =>
        s.stepped i h e next.1 next.2

def step (snappy : Bytes → Option Bytes) : ProcessAction → Process → Option Process
  | .create topicId d reachable, s => if validateTopicData d = 0 then some (s.createTopic topicId d reachable) else none
  | .apply reachable clock record, s => some (s.applyMetadataRecord reachable clock record)
  | .produce topicId partition q, s => some (s.produce topicId partition q)
  | .fetch topicId partition replicaId fetchOffset, s => some (s.fetch topicId partition replicaId fetchOffset)
  | .tick state lagMax, s => s.tick state lagMax
  | .publish offset, s => if offset + 1 < 2 ^ 63 then some (s.publish offset) else none
  | .snapshot topicName partition dir, s =>
    some { s with
      snapshots := Function.update s.snapshots topicName (Function.update (s.snapshots topicName) partition dir) }
  | .run i env, s => s.run snappy i env

def startStates (b : Broker) (keys : List String) (producers : String → IdempotenceState) :
    Objects String PartitionEntry :=
  keys.foldl (fun states key => match b.partitionStates.partitions key with
    | none => states
    | some e => states.renew key { e with idempotence := some (producers key) }) Objects.empty

def started (b : Broker) (keys : List String) (producers : String → IdempotenceState)
    (snapshots : String → Int → SnapshotDir) : Process where
  brokerID := b.brokerID
  brokers := b.brokers
  topicStore := b.topicStore
  fetchers := b.fetchers
  disk := b.disk
  states := startStates b keys producers
  metadataState := (startStates b keys producers).live (partitionKey clusterMetadata 0)
  snapshots := snapshots
  registrations topicId partition := if (b.topicStore.getCommitLog topicId partition).isSome then 1 else 0
  handlers := []
  crashed := false

/-- `keys` are the keys of the states that `Start` made. -/
def machine (snappy : Bytes → Option Bytes) : Machine Process ProcessAction where
  start s := ∃ brokerID peers disk keys producers snapshots,
    (∀ key, (newServer brokerID peers disk).start.partitionStates.partitions key ≠ none → key ∈ keys) ∧
      s = started (newServer brokerID peers disk).start keys producers snapshots
  step a s := if s.crashed then none else step snappy a s

def firstProcess (brokerID : Int) (peers : List Int) : Process :=
  started (newServer brokerID peers []).start [partitionKey clusterMetadata 0] (fun _ => .empty) fun _ _ => []

theorem firstProcess_start (snappy : Bytes → Option Bytes) (brokerID : Int) (peers : List Int) :
    (machine snappy).start (firstProcess brokerID peers) := by
  refine ⟨brokerID, peers, [], [partitionKey clusterMetadata 0], fun _ => .empty, fun _ _ => [], ?_, rfl⟩
  intro key found
  by_contra other
  obtain ⟨states, _, _, disk⟩ := newServer_fresh brokerID peers []
  have recovered : (newServer brokerID peers []).recoverTopic = newServer brokerID peers [] := by
    rw [Broker.recoverTopic, disk]
    rfl
  rw [Broker.start_states, recovered, states] at found
  refine found (PartitionStateStore.put_other _ _ ?_)
  exact fun same => other (same ▸ List.mem_singleton_self _)

def leoOf (s : Process) (topicName : String) (partition : Int) : Option Int :=
  (s.getPartitionState topicName partition).map (·.ps.leo)

def remembers (s : Process) (topicName : String) (partition pid : Int) : Bool :=
  ((s.getPartitionState topicName partition).bind (·.idempotence)).any fun state => (state.producers pid).isSome

end Process

end KafGo.Server
