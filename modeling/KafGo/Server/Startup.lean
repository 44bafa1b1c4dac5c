import KafGo.Server.Recovery

/-!
# Starting on a directory with records

Recovery opens the commit logs and makes the partition states, but does not bring the two together: log end and
high watermark are zero however long the log is, and the records in it are not visible to anybody.
-/

namespace KafGo.Server
open Lib Coordinator Storage

namespace Broker

def Led (b : Broker) (topicId : Uuid) (partition : Int) (e : PartitionEntry) (log : CommitLog) : Prop :=
  ∃ topicData, b.topicStore.getTopic topicId = some topicData ∧
    b.partitionStates.getPartitionState topicData.name partition = some e ∧ e.ps.leaderBrokerID = b.brokerID ∧
    b.topicStore.getCommitLog topicId partition = some log

/-- A fetch below the log end gets whole batches, among them the one with the offset. -/
def Serves (b : Broker) (topicId : Uuid) (partition : Int) (log : CommitLog) : Prop :=
  ∀ now replicaId offset maxBytes, 0 ≤ offset → offset < log.nextOffset → 0 < maxBytes → ∃ pre f post,
    b.fetchPartition now replicaId topicId partition offset maxBytes = .ok (some (bytesOf (pre ++ f :: post))) ∧
      (f.base : Int) ≤ offset ∧ offset < f.base + f.count

end Broker

theorem start_zero (brokerID : Int) (peers : List Int) (disk : Disk) :
    (newServer brokerID peers disk).start.partitionStates.All fun _ e => e.ps.leo = 0 ∧ e.ps.hwm = 0 := by
  have fresh : (newServer brokerID peers disk).partitionStates.All fun _ e => e.ps.leo = 0 ∧ e.ps.hwm = 0 :=
    (newServer_fresh brokerID peers disk).1 ▸ PartitionStateStore.newPartitionStateStore_all
  have recovered := Broker.recoverTopic_all fresh fun _ _ _ _ _ _ => ⟨fun _ zero => zero, rfl, rfl⟩
  exact recovered.2.put ⟨rfl, rfl⟩

/-! ### The partitions of a started broker -/

/-- The directories whose partitions the broker leads when it has started. `initMetadataLog` comes last and makes the
controller the leader of the metadata partition. -/
def Broker.Takes (b : Broker) (dir : TopicDir) (part : PartitionDir) : Prop :=
  if part.name = partitionKey clusterMetadata 0 then b.isController = true else dir.metaFile.isSome = true

section Started

variable {brokerID : Int} {disk : Disk} {topicId : Uuid} {name : String} {n : Nat} {files : List SegmentFiles}

theorem start_metadata (b : Broker) : ∃ e, b.start.partitionStates.getPartitionState clusterMetadata 0 = some e ∧
    e.ps.leaderBrokerID = b.lowestBrokerID := by
  rw [Broker.start_states]
  exact ⟨_, PartitionStateStore.put_self .., rfl⟩

theorem Stored.other (left : Left disk) (stored : Stored disk topicId name n files) :
    topicId ≠ clusterMetadataTopicID := by
  obtain ⟨dir, member, topicMeta, read, parsed, _⟩ := stored
  obtain ⟨_, topicId', parsed', other⟩ := (left.tidy dir member).metas topicMeta read
  rw [parsed] at parsed'
  exact Option.some.inj parsed' ▸ other

theorem led_of_stored (left : Left disk) (stored : Stored disk topicId name n files)
    (controls : partitionKey name n = partitionKey clusterMetadata 0 →
      (newServer brokerID [] disk).isController = true) :
    ∃ e, (newServer brokerID [] disk).start.Led topicId n e (newCommitLog defaultCommitLogConfig files) := by
  have other := stored.other left
  obtain ⟨⟨topicData, known, rfl⟩, ⟨e, found, leads⟩, opened⟩ :=
    Broker.recoverTopic_restores (b := newServer brokerID [] disk) left stored rfl
  have known' : (newServer brokerID [] disk).start.topicStore.getTopic topicId = some topicData := by
    rw [Broker.start_topicStore]
    exact (TopicStore.registerTopic_other other ..).trans known
  have opened' : (newServer brokerID [] disk).start.topicStore.getCommitLog topicId n =
      some (newCommitLog defaultCommitLogConfig files) := by
    rw [Broker.start_topicStore, TopicStore.getCommitLog_add_other (.inl other), TopicStore.registerTopic_getCommitLog]
    exact opened
  by_cases key : partitionKey topicData.name n = partitionKey clusterMetadata 0
  · obtain ⟨e, found, leads⟩ := start_metadata (newServer brokerID [] disk)
    refine ⟨e, topicData, known', ?_, ?_, opened'⟩
    · unfold PartitionStateStore.getPartitionState at found ⊢
      rw [key]
      exact found
    · rw [leads, Broker.start_brokerID]
      exact (of_decide_eq_true (controls key)).symm
  · refine ⟨e, topicData, known', ?_, ?_, opened'⟩
    · rw [Broker.start_states]
      exact (PartitionStateStore.put_other _ _ key).trans found
    · rw [leads, Broker.start_brokerID]
      exact Broker.recoverTopic_same _ |>.1

theorem led_metadata (left : Left disk) {dir : TopicDir} (member : dir ∈ disk) {part : PartitionDir}
    (inside : part ∈ dir.partitions) (named : part.name = partitionKey clusterMetadata 0)
    (controls : (newServer brokerID [] disk).isController = true) :
    ∃ e, (newServer brokerID [] disk).start.Led clusterMetadataTopicID 0 e
      (newCommitLog defaultCommitLogConfig part.files) := by
  obtain ⟨n, _, numbers⟩ := (left.tidy dir member).numbers part inside
  have key : numbered '-' dir.name n = numbered '-' clusterMetadata (0 : Nat) := numbers.symm.trans named
  obtain ⟨topic, rfl⟩ := numbered_injective (by decide) key
  obtain ⟨e, found, leads⟩ := start_metadata (newServer brokerID [] disk)
  have absent := Broker.recoverTopic_absent (b := newServer brokerID [] disk) left rfl
  refine ⟨e, ⟨clusterMetadata, clusterMetadataTopicID, 1, 1⟩, ?_, found, ?_, ?_⟩
  · rw [Broker.start_topicStore]
    exact TopicStore.registerTopic_absent absent ..
  · rw [leads, Broker.start_brokerID]
    exact (of_decide_eq_true controls).symm
  · rw [Broker.start_topicStore, TopicStore.getCommitLog_add, ← topic]
    exact congrArg some (left.openPartition_found member inside numbers)

theorem led_controls {partition : Int} {e : PartitionEntry}
    (found : (newServer brokerID [] disk).start.partitionStates.getPartitionState name partition = some e)
    (leads : e.ps.leaderBrokerID = (newServer brokerID [] disk).start.brokerID)
    (key : partitionKey name partition = partitionKey clusterMetadata 0) :
    (newServer brokerID [] disk).isController = true := by
  obtain ⟨e', found', leads'⟩ := start_metadata (newServer brokerID [] disk)
  unfold PartitionStateStore.getPartitionState at found found'
  rw [← key, found] at found'
  rw [← Option.some.inj found', leads, Broker.start_brokerID] at leads'
  exact decide_eq_true leads'

theorem led_taken (left : Left disk) {partition : Int} {e : PartitionEntry} {log : CommitLog}
    (led : (newServer brokerID [] disk).start.Led topicId partition e log) :
    log = newCommitLog defaultCommitLogConfig [] ∨ ∃ dir ∈ disk, ∃ part ∈ dir.partitions,
      (newServer brokerID [] disk).Takes dir part ∧ log = newCommitLog defaultCommitLogConfig part.files := by
  obtain ⟨topicData, known, found, leads, opened⟩ := led
  have controls := led_controls found leads
  rw [Broker.start_topicStore] at known opened
  by_cases same : topicId = clusterMetadataTopicID ∧ partition = 0
  · obtain ⟨rfl, rfl⟩ := same
    rw [TopicStore.getCommitLog_add] at opened
    have absent := Broker.recoverTopic_absent (b := newServer brokerID [] disk) left rfl
    have named := Option.some.inj ((TopicStore.registerTopic_absent absent clusterMetadata 1).symm.trans known)
    rcases disk.openPartition_source clusterMetadata 0 with new | ⟨dir, member, part, inside, name, content⟩
    · exact .inl ((Option.some.inj opened).symm.trans new)
    · refine .inr ⟨dir, member, part, inside, ?_, (Option.some.inj opened).symm.trans content⟩
      have name : part.name = partitionKey clusterMetadata 0 := name
      unfold Broker.Takes
      rw [if_pos name]
      exact controls (named ▸ rfl)
  · rw [TopicStore.getCommitLog_add_other (not_and_or.mp same), TopicStore.registerTopic_getCommitLog] at opened
    have nothing : (newServer brokerID [] disk).Sourced disk := fun _ _ _ => nofun
    obtain ⟨name, n, files, stored, rfl, rfl, topicData', known', rfl⟩ :=
      Broker.recoverTopic_sourced (b := newServer brokerID [] disk) left nothing topicId partition log opened
    have other := stored.other left
    have known : _ = some topicData := (TopicStore.registerTopic_other other ..).symm.trans known
    obtain rfl := Option.some.inj (known'.symm.trans known)
    obtain ⟨dir, member, topicMeta, read, _, _, part, inside, named, _, rfl⟩ := stored
    refine .inr ⟨dir, member, part, inside, ?_, rfl⟩
    unfold Broker.Takes
    split
    · rename_i key
      exact controls (named.symm.trans key)
    · rw [read]
      rfl

end Started

/-- On a log directory as brokers leave it, the partitions that the started broker leads have their log end and high
watermark at the end of their log, with all records there to be fetched, exactly if there are no records. -/
theorem started_ready (brokerID : Int) (disk : Disk) (left : Left disk) :
    (∀ topicId partition e log, (newServer brokerID [] disk).start.Led topicId partition e log →
      e.ps.leo = log.nextOffset ∧ e.ps.hwm = e.ps.leo ∧
        (newServer brokerID [] disk).start.Serves topicId partition log) ↔
    ∀ dir ∈ disk, ∀ part ∈ dir.partitions, (newServer brokerID [] disk).Takes dir part →
      (newCommitLog defaultCommitLogConfig part.files).nextOffset = 0 := by
  have zero : ∀ {topicId partition e log}, (newServer brokerID [] disk).start.Led topicId partition e log →
      e.ps.leo = 0 ∧ e.ps.hwm = 0 := by
    rintro topicId partition e log ⟨topicData, _, found, _, _⟩
    exact start_zero brokerID [] disk _ e found
  constructor
  · intro ready dir member part inside takes
    obtain ⟨n, small, named⟩ := (left.tidy dir member).numbers part inside
    have atEnd : ∀ {topicId partition}, (∃ e, (newServer brokerID [] disk).start.Led topicId partition e
        (newCommitLog defaultCommitLogConfig part.files)) →
          (newCommitLog defaultCommitLogConfig part.files).nextOffset = 0 := by
      rintro topicId partition ⟨e, led⟩
      exact (ready topicId partition e _ led).1.symm.trans (zero led).1
    unfold Broker.Takes at takes
    split at takes
    · rename_i key
      exact atEnd (led_metadata left member inside key takes)
    · rename_i key
      obtain ⟨topicMeta, read⟩ := Option.isSome_iff_exists.mp takes
      obtain ⟨name, topicId, parsed, _⟩ := (left.tidy dir member).metas topicMeta read
      have stored : Stored disk topicId dir.name n part.files :=
        ⟨dir, member, topicMeta, read, parsed, name, part, inside, named, small, rfl⟩
      exact atEnd (led_of_stored left stored fun same => absurd (named.trans same) key)
  · intro empty topicId partition e log led
    have none : log.nextOffset = 0 := by
      rcases led_taken left led with rfl | ⟨dir, member, part, inside, takes, rfl⟩
      · decide +kernel
      · exact empty dir member part inside takes
    obtain ⟨leo, hwm⟩ := zero led
    refine ⟨leo.trans none.symm, hwm.trans leo.symm, ?_⟩
    intro now replicaId offset maxBytes low high _
    rw [none] at high
    omega

def oneTopicDisk (files : List SegmentFiles) : Disk := [⟨"t", some ⟨"t", some 7, 1, 1, 1⟩, [⟨"t-0", files⟩]⟩]

theorem oneTopicDisk_left (files : List SegmentFiles) : Left (oneTopicDisk files) := by
  have name : "t-0" = numbered '-' "t" (0 : Nat) := by decide +kernel
  refine ⟨List.nodup_singleton _, ?_, ?_⟩
  · intro dir member
    obtain rfl := List.mem_singleton.mp member
    refine ⟨List.nodup_singleton _, ?_, ?_⟩
    · intro part inside
      obtain rfl := List.mem_singleton.mp inside
      exact ⟨0, by decide, name⟩
    · rintro topicMeta ⟨⟩
      exact ⟨rfl, 7, rfl, by decide⟩
  · intro dir member dir' member' _ _ _ _ _
    rw [List.mem_singleton.mp member, List.mem_singleton.mp member']

theorem started_ready_empty : Left (oneTopicDisk []) ∧
    ∀ topicId partition e log, (newServer 1 [] (oneTopicDisk [])).start.Led topicId partition e log →
      e.ps.leo = log.nextOffset ∧ e.ps.hwm = e.ps.leo ∧
        (newServer 1 [] (oneTopicDisk [])).start.Serves topicId partition log := by
  refine ⟨oneTopicDisk_left [], (started_ready 1 (oneTopicDisk []) (oneTopicDisk_left [])).mpr ?_⟩
  intro dir member part inside _
  obtain rfl := List.mem_singleton.mp member
  obtain rfl := List.mem_singleton.mp inside
  decide +kernel

/-- Two stored records, and nothing to fetch. -/
theorem started_behind : Left (oneTopicDisk twoRecordLog.files) ∧ Built twoRecordLog twoRecordLayout ∧
    ((newServer 1 [] (oneTopicDisk twoRecordLog.files)).start.topicStore.getCommitLog 7 0).map (·.nextOffset) = some 2 ∧
    ((newServer 1 [] (oneTopicDisk twoRecordLog.files)).start.partitionStates.getPartitionState "t" 0).map
      (fun e => (e.ps.leaderBrokerID, e.ps.isr, e.ps.leo, e.ps.hwm)) = some (1, [1], 0, 0) ∧
    (newServer 1 [] (oneTopicDisk twoRecordLog.files)).start.fetchPartition 0 0 7 0 0 1000 = .ok none :=
  ⟨oneTopicDisk_left _, twoRecordLog_built, by decide +kernel⟩

end KafGo.Server
