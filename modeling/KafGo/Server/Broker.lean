import KafGo.Coordinator.PartitionStateStore
import KafGo.Lib.Keyed
import KafGo.Server.Fetch
import KafGo.Storage.TopicStore

/-!
# A broker

What a broker knows about topics and partitions, on disk and in memory. `Start` rebuilds the memory from the
directories, `CreateTopics` runs on the controller and `ApplyMetadataRecord` on the brokers that follow it.

The producer state that goes with a partition is in `Coordinator.ProducerStateManager`. Neither it nor the producer
ids, which `recoverPidManager` restores, have an influence on what is modelled here.
-/

namespace KafGo.Server
open Lib Coordinator Storage

def errUnknownTopicOrPartition : Int := 3
def errNotLeaderForPartition : Int := 6

def defaultCommitLogConfig : CommitLogConfig := ⟨1024 * 1024 * 100, 4 * 1024⟩

def clusterMetadataTopicID : Uuid := 1
def clusterMetadata : String := "__cluster_metadata"

structure PartitionDir where
  name : String
  files : List SegmentFiles

/-- `metaFile` is `none` when `meta.json` is missing or cannot be read. -/
structure TopicDir where
  name : String
  metaFile : Option TopicMeta
  partitions : List PartitionDir

abbrev Disk := List TopicDir

namespace Disk

def topicDir (disk : Disk) (name : String) : TopicDir := (lookupKey (·.name) disk name).getD ⟨name, none, []⟩

def saveTopicMeta (disk : Disk) (topicMeta : TopicMeta) : Disk :=
  insertKey (·.name) disk { disk.topicDir topicMeta.name with metaFile := some topicMeta }

/-- `NewCommitLog` on the directory of a partition, which is made if it does not exist. -/
def openPartition (disk : Disk) (topicName : String) (partition : Int) : Disk × CommitLog :=
  let dir := numbered '-' topicName partition
  let topic := disk.topicDir topicName
  match lookupKey (·.name) topic.partitions dir with
  | some found => (disk, newCommitLog defaultCommitLogConfig found.files)
  | none =>
    let log := newCommitLog defaultCommitLogConfig []
    (insertKey (·.name) disk { topic with partitions := topic.partitions ++ [⟨dir, log.files⟩] }, log)

end Disk

def readTopics (disk : Disk) : List TopicDir := disk.insertionSort fun a b => a.name ≤ b.name

def TopicDir.readPartitions (dir : TopicDir) :
    List PartitionDir := dir.partitions.insertionSort fun a b => a.name ≤ b.name

def parsePartitionIndex (dirName topicName : String) : Int :=
  match parseInt 64 (trimStart dirName (topicName ++ "-")) with
  | none => 0
  | some idx => wrapSigned 32 idx

theorem parsePartitionIndex_numbered (topicName : String) {n : Nat} (small : n < 2 ^ 31) :
    parsePartitionIndex (numbered '-' topicName n) topicName = n := by
  have name : numbered '-' topicName n = topicName ++ "-" ++ toString (n : Int) := rfl
  unfold parsePartitionIndex
  rw [name, trimStart_append, parseInt_natCast (Nat.lt_trans small (by decide))]
  exact wrapSigned_natCast (by decide) small

/-- `brokers` are the ids in the registry, `fetchers` the keys of the replica fetchers. -/
structure Broker where
  brokerID : Int
  brokers : List Int
  topicStore : TopicStore
  partitionStates : PartitionStateStore
  fetchers : List String
  disk : Disk

namespace Broker

def registerBroker (b : Broker) (id : Int) : Broker :=
  if id ∈ b.brokers then b else { b with brokers := b.brokers ++ [id] }

end Broker

/-- `NewServer` and `SetPeers`. -/
def newServer (brokerID : Int) (peers : List Int) (disk : Disk) : Broker :=
  peers.foldl Broker.registerBroker ⟨brokerID, [brokerID], newTopicStore, newPartitionStateStore, [], disk⟩

def lowestID (brokers : List Int) : Int :=
  let lowest := brokers.foldl (fun lowest id => if id < lowest then id else lowest) (2 ^ 31 - 1)
  if lowest = 2 ^ 31 - 1 then -1 else lowest

namespace Broker

def lowestBrokerID (b : Broker) : Int := lowestID b.brokers

def isController (b : Broker) : Bool := decide (b.brokerID = b.lowestBrokerID)

def getAllBrokerIDs (b : Broker) : List Int := b.brokers.insertionSort (· ≤ ·)

def recoverPartition (topicMeta : TopicMeta) (topicId : Uuid) (b : Broker) (dir : PartitionDir) : Broker :=
  let partition := parsePartitionIndex dir.name topicMeta.name
  { b with
    topicStore := b.topicStore.addCommitLog topicId partition (newCommitLog defaultCommitLogConfig dir.files)
    partitionStates := b.partitionStates.setLeader topicMeta.name partition b.brokerID }

def recoverTopicDir (b : Broker) (dir : TopicDir) : Broker :=
  match dir.metaFile with
  | none => b
  | some topicMeta => match b.topicStore.addTopicMetadata topicMeta with
    | none => b
    | some (topicId, topicStore) =>
      dir.readPartitions.foldl (recoverPartition topicMeta topicId) { b with topicStore := topicStore }

def recoverTopic (b : Broker) : Broker := (readTopics b.disk).foldl recoverTopicDir b

def initMetadataLog (b : Broker) : Broker :=
  let (disk, log) := b.disk.openPartition clusterMetadata 0
  let controllerID := b.lowestBrokerID
  { b with
    disk := disk
    topicStore := (b.topicStore.registerTopic clusterMetadataTopicID clusterMetadata 1).addCommitLog
      clusterMetadataTopicID 0 log
    partitionStates :=
      b.partitionStates.setPartitionState clusterMetadata 0 controllerID 0 [controllerID] [controllerID] }

def start (b : Broker) : Broker := b.recoverTopic.initMetadataLog

end Broker

inductive MetadataRecord where
  | broker (brokerId : Int) (host : String) (port epoch : Int)
  | topic (topicId : Uuid) (name : String) (numPartitions minInsyncReplicas : Int)
  | partition (topicId : Uuid) (partitionId leader leaderEpoch : Int) (replicas isr : List Int)
  | producerIds (brokerId brokerEpoch nextProducerId : Int)

namespace Broker

/-- `reachable` says whether there is a connection to the leader, or one can be made. -/
def addFetcher (b : Broker) (topicName : String) (partition : Int) (reachable : Bool) : Broker :=
  let key := partitionKey topicName partition
  if key ∈ b.fetchers then b
  else if !reachable then b
  else
    let (disk, _) := b.disk.openPartition topicName partition
    match b.topicStore.getTopicByName topicName with
    | none => { b with disk := disk }
    | some _ => { b with disk := disk, fetchers := b.fetchers ++ [key] }

def createPartitionLog (b : Broker) (topicName : String) (topicId : Uuid) (partitionId : Int) : Broker :=
  let (disk, log) := b.disk.openPartition topicName partitionId
  { b with
    disk := disk
    topicStore := b.topicStore.addCommitLog topicId partitionId log
    partitionStates := b.partitionStates.setLeader topicName partitionId b.brokerID }

def applyTopicRecord (b : Broker) (topicId : Uuid) (name : String) (numPartitions minInsyncReplicas : Int) : Broker :=
  let minISR := if minInsyncReplicas ≤ 0 then 1 else minInsyncReplicas
  let topicMeta : TopicMeta := ⟨name, some topicId, numPartitions, 1, minISR⟩
  { b with
    disk := b.disk.saveTopicMeta topicMeta
    topicStore := (b.topicStore.registerTopic topicId name numPartitions).setTopicMeta topicId topicMeta }

def applyMetadataRecord (b : Broker) (reachable : Bool) : MetadataRecord → Broker
  | .broker brokerId _ _ _ => b.registerBroker brokerId
  | .topic topicId name numPartitions minInsyncReplicas =>
      b.applyTopicRecord topicId name numPartitions minInsyncReplicas
  | .producerIds _ _ _ => b
  | .partition topicId partitionId leader leaderEpoch replicas isr => match b.topicStore.getTopic topicId with
    | none => b
    | some topicData =>
      let b := { b with
        partitionStates :=
          b.partitionStates.setPartitionState topicData.name partitionId leader leaderEpoch replicas isr }
      if leader = b.brokerID then b.createPartitionLog topicData.name topicId partitionId
      else b.addFetcher topicData.name partitionId reachable

end Broker

structure CreateTopicData where
  name : String
  numPartitions : Int
  replicationFactor : Int
  configs : List (String × Option String)

def isTopicNameChar (c : Char) : Bool := c.isAlphanum || c == '.' || c == '_' || c == '-'

def validateTopicData (d : CreateTopicData) : Int :=
  if d.name.toList.isEmpty then errInvalidTopicException
  else if !d.name.toList.all isTopicNameChar then errInvalidTopicException
  else if d.numPartitions ≤ 0 then errInvalidTopicException
  else if d.replicationFactor ≤ 0 then errInvalidTopicException
  else 0

/-- The value of `min.insync.replicas`, or `none` if it is not a number. -/
def parseTopicConfig (configs : List (String × Option String)) : Option Int :=
  configs.foldlM (fun minInsyncReplicas config => match config.2 with
    | none => some minInsyncReplicas
    | some value => if config.1 = "min.insync.replicas" then parseInt 16 value else some minInsyncReplicas) 1

namespace Broker

def knownBrokers (b : Broker) : List Int := if b.getAllBrokerIDs.length = 0 then [b.brokerID] else b.getAllBrokerIDs

def createTopicStorage (b : Broker) (topicId : Uuid) (d : CreateTopicData) (minInsyncReplicas : Int) : Broker :=
  let minISR := if minInsyncReplicas > 0 then minInsyncReplicas else 1
  let topicMeta : TopicMeta := ⟨d.name, some topicId, d.numPartitions, d.replicationFactor, minISR⟩
  let b := { b with
    disk := b.disk.saveTopicMeta topicMeta
    topicStore := b.topicStore.setTopicMeta topicId topicMeta }
  (List.range d.numPartitions.toNat).foldl (fun b (partition : Nat) =>
    let (disk, log) := b.disk.openPartition d.name partition
    { b with disk := disk, topicStore := b.topicStore.addCommitLog topicId partition log }) b

/-- The controller follows the partitions that others lead. -/
def startFollowerFetch (b : Broker) (d : CreateTopicData) (reachable : Int → Bool) : Broker :=
  (List.range d.numPartitions.toNat).foldl (fun b (partition : Nat) =>
    match b.partitionStates.getPartitionState d.name partition with
    | none => b
    | some e =>
      if e.ps.leaderBrokerID = b.brokerID then b else b.addFetcher d.name partition (reachable e.ps.leaderBrokerID)) b

/-- The records of a new topic, for the brokers that follow the metadata log. -/
def topicRecords (b : Broker) (topicId : Uuid) (d : CreateTopicData) (minInsyncReplicas : Int) : List MetadataRecord :=
  .topic topicId d.name d.numPartitions minInsyncReplicas ::
    (List.range d.numPartitions.toNat).filterMap fun (partition : Nat) =>
      (b.partitionStates.getPartitionState d.name partition).map fun e =>
        .partition topicId partition e.ps.leaderBrokerID 0 e.ps.replicas e.ps.isr

def createTopic (b : Broker) (topicId : Uuid) (d : CreateTopicData) (reachable : Int → Bool) :
    Broker × List MetadataRecord :=
  let b := { b with
    partitionStates := b.partitionStates.assignReplicas d.name d.numPartitions d.replicationFactor b.knownBrokers }
  let topicStore := match b.topicStore.addTopic ⟨d.name, topicId, d.numPartitions, d.replicationFactor⟩ with
    | .ok topicStore => topicStore
    | .error _ => b.topicStore
  let minInsyncReplicas := (parseTopicConfig d.configs).getD 1
  let b := { b with topicStore := topicStore }.createTopicStorage topicId d minInsyncReplicas
  let b := b.startFollowerFetch d reachable
  (b, b.topicRecords topicId d minInsyncReplicas)

/-- The partition that a fetch asks for, or the code why there is none to be had here. -/
def findPartition (b : Broker) (topicId : Uuid) (partition : Int) : Except Int (String × PartitionEntry × CommitLog) :=
  match b.topicStore.getTopic topicId with
  | none => .error errUnknownTopicOrPartition
  | some topicData => match b.partitionStates.getPartitionState topicData.name partition with
    | none => .error errUnknownTopicOrPartition
    | some e =>
      if e.ps.leaderBrokerID ≠ b.brokerID then .error errNotLeaderForPartition
      else match b.topicStore.getCommitLog topicId partition with
        | none => .error errUnknownTopicOrPartition
        | some log => .ok (partitionKey topicData.name partition, e, log)

variable {b : Broker} {topicId : Uuid} {partition : Int} {dir : TopicDir}

theorem findPartition_log {key : String} {e : PartitionEntry} {log : CommitLog}
    (found : b.findPartition topicId partition = .ok (key, e, log)) :
    b.topicStore.getCommitLog topicId partition = some log := by
  unfold findPartition at found
  split at found
  · cases found
  split at found
  · cases found
  split at found
  · cases found
  split at found
  · cases found
  · cases found
    assumption

theorem findPartition_code {code : Int} (refused : b.findPartition topicId partition = .error code) :
    code = errUnknownTopicOrPartition ∨ code = errNotLeaderForPartition := by
  unfold findPartition at refused
  repeat' split at refused
  all_goals cases refused
  · exact Or.inl rfl
  · exact Or.inl rfl
  · exact Or.inr rfl
  · exact Or.inl rfl

structure Fetched where
  highWatermark : Int
  logStartOffset : Int
  records : Option Bytes

/-- The answer to a fetch of one partition, and the broker after it has seen the fetch. -/
def fetch (b : Broker) (now replicaId : Int) (topicId : Uuid) (partition fetchOffset maxBytes : Int) :
    Except Int Fetched × Broker :=
  match b.findPartition topicId partition with
  | .error code => (.error code, b)
  | .ok (key, e, log) =>
    let ps := seenBy e.ps now replicaId fetchOffset
    (.ok ⟨ps.hwm, logStart log fetchOffset maxBytes, fetchRecords log fetchOffset maxBytes (visibleTo ps replicaId)⟩,
      { b with partitionStates := b.partitionStates.put key { e with ps := ps } })

theorem fetch_refused {now replicaId : Int} {fetchOffset maxBytes code : Int}
    (refused : b.findPartition topicId partition = .error code) :
    b.fetch now replicaId topicId partition fetchOffset maxBytes = (.error code, b) := by
  unfold fetch
  rw [refused]

theorem fetch_found {now replicaId : Int} {fetchOffset maxBytes : Int} {key : String} {e : PartitionEntry}
    {log : CommitLog} (found : b.findPartition topicId partition = .ok (key, e, log)) :
    b.fetch now replicaId topicId partition fetchOffset maxBytes =
      let ps := seenBy e.ps now replicaId fetchOffset
      (.ok ⟨ps.hwm, logStart log fetchOffset maxBytes, fetchRecords log fetchOffset maxBytes (visibleTo ps replicaId)⟩,
        { b with partitionStates := b.partitionStates.put key { e with ps := ps } }) := by
  unfold fetch
  rw [found]

def fetchPartition (b : Broker) (now replicaId : Int) (topicId : Uuid) (partition fetchOffset maxBytes : Int) :
    Except Int (Option Bytes) :=
  (b.fetch now replicaId topicId partition fetchOffset maxBytes).1.map Fetched.records

theorem mem_readTopics {disk : Disk} : dir ∈ readTopics disk ↔ dir ∈ disk := List.mem_insertionSort _

theorem mem_readPartitions {partition : PartitionDir} :
    partition ∈ dir.readPartitions ↔ partition ∈ dir.partitions := List.mem_insertionSort _

/-- A property of partition states that `SetLeader` has for every partition directory with a topic. -/
def Recovers (P : String → PartitionEntry → Prop) (brokerID : Int) (dir : TopicDir) : Prop :=
  ∀ topicMeta, dir.metaFile = some topicMeta → ∀ partition ∈ dir.partitions,
    let index := parsePartitionIndex partition.name topicMeta.name
    (∀ e, P (partitionKey topicMeta.name index) e → P (partitionKey topicMeta.name index) (e.withLeader brokerID)) ∧
      P (partitionKey topicMeta.name index) (newPartition topicMeta.name index brokerID 0 [brokerID] [brokerID])

theorem recoverTopicDir_all {P : String → PartitionEntry → Prop} (all : b.partitionStates.All P)
    (recovers : Recovers P b.brokerID dir) :
    (b.recoverTopicDir dir).brokerID = b.brokerID ∧ (b.recoverTopicDir dir).partitionStates.All P := by
  unfold recoverTopicDir
  split
  · exact ⟨rfl, all⟩
  · rename_i topicMeta read
    split
    · exact ⟨rfl, all⟩
    · rename_i topicId topicStore _
      refine List.foldlRecOn (motive := fun b' : Broker => b'.brokerID = b.brokerID ∧ b'.partitionStates.All P) _ _
        ⟨rfl, all⟩ ?_
      rintro b' ⟨same, all'⟩ partition member
      obtain ⟨kept, new⟩ := recovers topicMeta read partition (mem_readPartitions.mp member)
      refine ⟨same, ?_⟩
      show (b'.partitionStates.setLeader _ _ b'.brokerID).All P
      rw [same]
      exact all'.setLeader kept new

theorem recoverTopic_all {P : String → PartitionEntry → Prop} (all : b.partitionStates.All P)
    (recovers : ∀ dir ∈ b.disk, Recovers P b.brokerID dir) :
    b.recoverTopic.brokerID = b.brokerID ∧ b.recoverTopic.partitionStates.All P := by
  unfold recoverTopic
  refine List.foldlRecOn (motive := fun b' : Broker => b'.brokerID = b.brokerID ∧ b'.partitionStates.All P) _ _
    ⟨rfl, all⟩ ?_
  rintro b' ⟨same, all'⟩ dir member
  obtain ⟨same', all''⟩ := recoverTopicDir_all all' (same.symm ▸ recovers dir (mem_readTopics.mp member))
  exact ⟨same'.trans same, all''⟩

end Broker

end KafGo.Server
