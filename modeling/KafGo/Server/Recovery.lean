import KafGo.Server.Broker

/-!
# What recovery restores

On a log directory as brokers leave it, recovery brings back every partition that has a directory in a topic
directory with `meta.json`, with its log and with the broker as its leader, and no other.
-/

namespace KafGo.Server
open Lib Coordinator Storage

/-- A topic directory has the name of its topic, a partition directory that name and the number of the partition. -/
structure Tidy (dir : TopicDir) : Prop where
  partitions : (dir.partitions.map (·.name)).Nodup
  numbers : ∀ part ∈ dir.partitions, ∃ n : Nat, n < 2 ^ 31 ∧ part.name = numbered '-' dir.name n
  metas : ∀ topicMeta, dir.metaFile = some topicMeta → topicMeta.name = dir.name ∧
    ∃ topicId, topicMeta.topicId = some topicId ∧ topicId ≠ clusterMetadataTopicID

/-- A log directory as brokers leave it. -/
structure Left (disk : Disk) : Prop where
  topics : (disk.map (·.name)).Nodup
  tidy : ∀ dir ∈ disk, Tidy dir
  ids : ∀ dir ∈ disk, ∀ dir' ∈ disk, ∀ topicMeta topicMeta', dir.metaFile = some topicMeta →
    dir'.metaFile = some topicMeta' → topicMeta.topicId = topicMeta'.topicId → dir.name = dir'.name

/-- The files of a partition are in a topic directory that can be read. -/
def Stored (disk : Disk) (topicId : Uuid) (name : String) (n : Nat) (files : List SegmentFiles) : Prop :=
  ∃ dir ∈ disk, ∃ topicMeta, dir.metaFile = some topicMeta ∧ topicMeta.topicId = some topicId ∧ topicMeta.name = name ∧
    ∃ part ∈ dir.partitions, part.name = numbered '-' name n ∧ n < 2 ^ 31 ∧ part.files = files

theorem Tidy.index {dir : TopicDir} (tidy : Tidy dir) {topicMeta : TopicMeta} (read : dir.metaFile = some topicMeta)
    {part : PartitionDir} (inside : part ∈ dir.partitions) :
    ∃ n : Nat, n < 2 ^ 31 ∧ part.name = numbered '-' topicMeta.name n ∧
      parsePartitionIndex part.name topicMeta.name = n := by
  obtain ⟨n, small, name⟩ := tidy.numbers part inside
  rw [← (tidy.metas topicMeta read).1] at name
  exact ⟨n, small, name, name ▸ parsePartitionIndex_numbered topicMeta.name small⟩

/-! ### Directories that brokers write -/

section Written

variable {disk : Disk}

theorem Left.insert (left : Left disk) {dir : TopicDir} (tidy : Tidy dir)
    (fresh : ∀ topicMeta, dir.metaFile = some topicMeta → ∀ dir' ∈ disk, dir'.name ≠ dir.name → ∀ topicMeta',
      dir'.metaFile = some topicMeta' → topicMeta.topicId ≠ topicMeta'.topicId) :
    Left (insertKey (·.name) disk dir) where
  topics := nodup_insertKey left.topics dir
  tidy := forall_insertKey left.tidy tidy
  ids := by
    intro a member a' member' topicMeta topicMeta' read read' same
    rcases mem_insertKey member with rfl | ⟨old, other⟩
    · rcases mem_insertKey member' with rfl | ⟨old', other'⟩
      · rfl
      · exact absurd same (fresh topicMeta read a' old' other' topicMeta' read')
    · rcases mem_insertKey member' with rfl | ⟨old', _⟩
      · exact absurd same.symm (fresh topicMeta' read' a old other topicMeta read)
      · exact left.ids a old a' old' topicMeta topicMeta' read read' same

theorem Left.topicDir (left : Left disk) (name : String) :
    Tidy (disk.topicDir name) ∧ (disk.topicDir name).name = name ∧
    ∀ topicMeta, (disk.topicDir name).metaFile = some topicMeta → disk.topicDir name ∈ disk := by
  unfold Disk.topicDir
  cases found : lookupKey (·.name) disk name with
  | none => exact ⟨⟨List.nodup_nil, nofun, nofun⟩, rfl, nofun⟩
  | some dir =>
    obtain ⟨member, named⟩ := lookupKey_some found
    exact ⟨left.tidy dir member, named, fun _ _ => member⟩

theorem Left.saveTopicMeta (left : Left disk) {topicMeta : TopicMeta} {topicId : Uuid}
    (parsed : topicMeta.topicId = some topicId) (other : topicId ≠ clusterMetadataTopicID)
    (fresh : ∀ dir ∈ disk, ∀ old, dir.metaFile = some old → old.topicId ≠ some topicId) :
    Left (disk.saveTopicMeta topicMeta) := by
  obtain ⟨tidy, named, _⟩ := left.topicDir topicMeta.name
  apply left.insert
  · refine ⟨tidy.partitions, tidy.numbers, ?_⟩
    rintro _ ⟨⟩
    exact ⟨named.symm, topicId, parsed, other⟩
  · rintro _ ⟨⟩ dir member _ old read same
    exact fresh dir member old read (same.symm.trans parsed)

theorem Left.openPartition (left : Left disk) (name : String) {n : Nat} (small : n < 2 ^ 31) :
    Left (disk.openPartition name n).1 := by
  unfold Disk.openPartition
  dsimp only
  split
  · exact left
  · rename_i missing
    obtain ⟨tidy, named, member⟩ := left.topicDir name
    apply left.insert
    · refine ⟨nodup_map_concat tidy.partitions ?_, ?_, tidy.metas⟩
      · intro part inside same
        have same : part.name = numbered '-' name n := same
        exact lookupKey_none.mp missing (same ▸ List.mem_map_of_mem inside)
      · intro part inside
        rcases List.mem_append.mp inside with old | new
        · exact tidy.numbers part old
        · obtain rfl := List.mem_singleton.mp new
          exact ⟨n, small, congrArg (numbered '-' · n) named.symm⟩
    · intro topicMeta read dir member' other topicMeta' read' same
      have again : dir.name = (disk.topicDir name).name :=
        left.ids dir member' _ (member topicMeta read) topicMeta' topicMeta read' read same.symm
      exact other again

theorem Left.openPartition_found (left : Left disk) {dir : TopicDir} (member : dir ∈ disk) {part : PartitionDir}
    (inside : part ∈ dir.partitions) {partition : Int} (named : part.name = numbered '-' dir.name partition) :
    (disk.openPartition dir.name partition).2 = newCommitLog defaultCommitLogConfig part.files := by
  have here : disk.topicDir dir.name = dir := by
    rw [Disk.topicDir, lookupKey_of_mem left.topics member, Option.getD_some]
  have found : lookupKey (·.name) dir.partitions part.name = some part :=
    lookupKey_of_mem (left.tidy dir member).partitions inside
  simp only [Disk.openPartition, here, ← named, found]

theorem Disk.openPartition_source (disk : Disk) (name : String) (partition : Int) :
    (disk.openPartition name partition).2 = newCommitLog defaultCommitLogConfig [] ∨
    ∃ dir ∈ disk, ∃ part ∈ dir.partitions, part.name = numbered '-' name partition ∧
      (disk.openPartition name partition).2 = newCommitLog defaultCommitLogConfig part.files := by
  unfold Disk.openPartition
  dsimp only
  split
  · rename_i part found
    obtain ⟨inside, named⟩ := lookupKey_some found
    unfold Disk.topicDir at inside
    cases found : lookupKey (·.name) disk name with
    | none =>
      rw [found] at inside
      cases inside
    | some dir =>
      rw [found] at inside
      exact .inr ⟨dir, (lookupKey_some found).1, part, inside, named, rfl⟩
  · exact .inl rfl

end Written

theorem newServer_fresh (brokerID : Int) (peers : List Int) (disk : Disk) :
    (newServer brokerID peers disk).partitionStates = newPartitionStateStore ∧
    (newServer brokerID peers disk).topicStore = newTopicStore ∧ (newServer brokerID peers disk).brokerID = brokerID ∧
    (newServer brokerID peers disk).disk = disk := by
  unfold newServer
  refine List.foldlRecOn (motive := fun b : Broker => b.partitionStates = newPartitionStateStore ∧
    b.topicStore = newTopicStore ∧ b.brokerID = brokerID ∧ b.disk = disk) _ _ ⟨rfl, rfl, rfl, rfl⟩ ?_
  intro b same id _
  unfold Broker.registerBroker
  split
  · exact same
  · exact same

namespace Broker

section Written

variable {b : Broker} {d : CreateTopicData}

theorem addFetcher_left (left : Left b.disk) (topicName : String) {n : Nat} (small : n < 2 ^ 31) (reachable : Bool) :
    Left (b.addFetcher topicName n reachable).disk := by
  unfold addFetcher
  dsimp only
  split
  · exact left
  · split
    · exact left
    · split
      · exact left.openPartition topicName small
      · exact left.openPartition topicName small

theorem createTopic_left (left : Left b.disk) {topicId : Uuid} (other : topicId ≠ clusterMetadataTopicID)
    (fresh : ∀ dir ∈ b.disk, ∀ old, dir.metaFile = some old → old.topicId ≠ some topicId)
    (small : d.numPartitions < 2 ^ 31) (reachable : Int → Bool) : Left (b.createTopic topicId d reachable).1.disk := by
  have number : ∀ partition ∈ List.range d.numPartitions.toNat, partition < 2 ^ 31 := by
    intro partition member
    have bound := List.mem_range.mp member
    omega
  refine List.foldlRecOn (motive := fun b' : Broker => Left b'.disk) _ _ ?_ ?_
  · refine List.foldlRecOn (motive := fun b' : Broker => Left b'.disk) _ _ (left.saveTopicMeta rfl other fresh) ?_
    intro b' left' partition member
    exact left'.openPartition d.name (number partition member)
  · intro b' left' partition member
    split
    · exact left'
    · split
      · exact left'
      · exact addFetcher_left left' d.name (number partition member) _

theorem recoverTopic_same (b : Broker) : b.recoverTopic.brokerID = b.brokerID ∧ b.recoverTopic.brokers = b.brokers ∧
    b.recoverTopic.disk = b.disk := by
  refine List.foldlRecOn (motive := fun b' : Broker => b'.brokerID = b.brokerID ∧ b'.brokers = b.brokers ∧
    b'.disk = b.disk) _ _ ⟨rfl, rfl, rfl⟩ ?_
  intro b' same dir _
  unfold recoverTopicDir
  split
  · exact same
  · split
    · exact same
    · exact List.foldlRecOn (motive := fun b' : Broker => b'.brokerID = b.brokerID ∧ b'.brokers = b.brokers ∧
        b'.disk = b.disk) _ _ same fun _ same _ _ => same

theorem start_states (b : Broker) : b.start.partitionStates = b.recoverTopic.partitionStates.setPartitionState
    clusterMetadata 0 b.lowestBrokerID 0 [b.lowestBrokerID] [b.lowestBrokerID] := by
  have same : b.recoverTopic.lowestBrokerID = b.lowestBrokerID := by
    simp only [lowestBrokerID, b.recoverTopic_same.2.1]
  rw [← same]
  rfl

theorem start_topicStore (b : Broker) : b.start.topicStore =
    (b.recoverTopic.topicStore.registerTopic clusterMetadataTopicID clusterMetadata 1).addCommitLog
      clusterMetadataTopicID 0
      (b.disk.openPartition clusterMetadata 0).2 := by
  rw [← b.recoverTopic_same.2.2]
  rfl

theorem start_brokerID (b : Broker) : b.start.brokerID = b.brokerID := b.recoverTopic_same.1

theorem start_left (left : Left b.disk) : Left b.start.disk :=
  (b.recoverTopic_same.2.2.symm ▸ left : Left b.recoverTopic.disk).openPartition clusterMetadata (n := 0) (by decide)

end Written

def Knows (b : Broker) (topicId : Uuid) (name : String) : Prop :=
  ∃ topicData, b.topicStore.getTopic topicId = some topicData ∧ topicData.name = name

structure Restored (b : Broker) (topicId : Uuid) (name : String) (n : Nat) (log : CommitLog) : Prop where
  known : b.Knows topicId name
  leads : ∃ e, b.partitionStates.getPartitionState name n = some e ∧ e.ps.leaderBrokerID = b.brokerID
  opened : b.topicStore.getCommitLog topicId n = some log

/-- Every log comes from a directory. -/
def Sourced (b : Broker) (disk : Disk) : Prop :=
  ∀ topicId partition log, b.topicStore.getCommitLog topicId partition = some log → ∃ name n files,
    Stored disk topicId name n files ∧ partition = (n : Int) ∧ log = newCommitLog defaultCommitLogConfig files ∧
      b.Knows topicId name

variable {b : Broker} {disk : Disk} {dir : TopicDir} {topicMeta : TopicMeta} {topicId topicId' : Uuid} {name : String}
  {n : Nat} {log : CommitLog} {files : List SegmentFiles}

theorem recoverPartition_restores {part : PartitionDir} (known : b.Knows topicId topicMeta.name)
    (index : parsePartitionIndex part.name topicMeta.name = n) :
    (recoverPartition topicMeta topicId b part).Restored topicId topicMeta.name n
      (newCommitLog defaultCommitLogConfig part.files) := by
  unfold recoverPartition
  rw [index]
  exact ⟨known, b.partitionStates.getPartitionState_setLeader topicMeta.name n b.brokerID, TopicStore.getCommitLog_add⟩

theorem recoverPartition_keeps {part : PartitionDir} (restored : b.Restored topicId name n log)
    (other : topicId ≠ topicId' ∨ (n : Int) ≠ parsePartitionIndex part.name topicMeta.name)
    (otherKey : partitionKey name n ≠ partitionKey topicMeta.name (parsePartitionIndex part.name topicMeta.name)) :
    (recoverPartition topicMeta topicId' b part).Restored topicId name n log := by
  obtain ⟨known, ⟨e, found, leads⟩, opened⟩ := restored
  refine ⟨known, ⟨e, ?_, leads⟩, (TopicStore.getCommitLog_add_other other).trans opened⟩
  exact (b.partitionStates.setLeader_other otherKey).trans found

theorem recoverPartition_sourced {part : PartitionDir} (sourced : b.Sourced disk)
    (known : b.Knows topicId topicMeta.name) (index : parsePartitionIndex part.name topicMeta.name = n)
    (stored : Stored disk topicId topicMeta.name n part.files) :
    (recoverPartition topicMeta topicId b part).Sourced disk := by
  intro topicId' partition log opened
  unfold recoverPartition at opened
  rw [index] at opened
  by_cases same : topicId' = topicId ∧ partition = n
  · obtain ⟨rfl, rfl⟩ := same
    have here : some _ = some log := TopicStore.getCommitLog_add.symm.trans opened
    exact ⟨_, n, _, stored, rfl, (Option.some.inj here).symm, known⟩
  · exact sourced topicId' partition log
      ((TopicStore.getCommitLog_add_other (not_and_or.mp same)).symm.trans opened)

theorem recoverTopicDir_cases (b : Broker) (dir : TopicDir) : b.recoverTopicDir dir = b ∨
    ∃ topicMeta topicId topicStore, dir.metaFile = some topicMeta ∧
      b.topicStore.addTopicMetadata topicMeta = some (topicId, topicStore) ∧ b.recoverTopicDir dir =
        dir.readPartitions.foldl (recoverPartition topicMeta topicId) { b with topicStore := topicStore } := by
  unfold recoverTopicDir
  split
  · exact .inl rfl
  · rename_i topicMeta read
    split
    · exact .inl rfl
    · rename_i topicId topicStore added
      exact .inr ⟨topicMeta, topicId, topicStore, read, added, rfl⟩

theorem knows_added {topicStore : TopicStore}
    (added : b.topicStore.addTopicMetadata topicMeta = some (topicId, topicStore)) :
    { b with topicStore := topicStore }.Knows topicId topicMeta.name := by
  obtain ⟨_, _, rfl⟩ := TopicStore.addTopicMetadata_some added
  exact ⟨_, Function.update_self .., rfl⟩

theorem knows_before {topicStore : TopicStore}
    (added : b.topicStore.addTopicMetadata topicMeta = some (topicId', topicStore)) (known : b.Knows topicId name) :
    { b with topicStore := topicStore }.Knows topicId name := by
  obtain ⟨_, absent, rfl⟩ := TopicStore.addTopicMetadata_some added
  obtain ⟨topicData, found, named⟩ := known
  refine ⟨topicData, (Function.update_of_ne ?_ ..).trans found, named⟩
  rintro rfl
  exact absurd (absent.symm.trans found) nofun

theorem recoverTopicDir_restores (left : Left disk) (member : dir ∈ disk) (read : dir.metaFile = some topicMeta)
    (parsed : topicMeta.topicId = some topicId) {part : PartitionDir} (inside : part ∈ dir.partitions)
    (named : part.name = numbered '-' topicMeta.name n) (small : n < 2 ^ 31)
    (absent : b.topicStore.topics topicId = none) :
    (b.recoverTopicDir dir).Restored topicId topicMeta.name n (newCommitLog defaultCommitLogConfig part.files) := by
  obtain ⟨topicStore, added⟩ : ∃ topicStore, b.topicStore.addTopicMetadata topicMeta = some (topicId, topicStore) := by
    simp [TopicStore.addTopicMetadata, parsed, absent]
  rw [recoverTopicDir, read]
  dsimp only
  rw [added]
  have distinct : (dir.readPartitions.map (·.name)).Nodup :=
    ((List.perm_insertionSort _ dir.partitions).map _).nodup_iff.mpr (left.tidy dir member).partitions
  refine foldl_at (p := fun b' : Broker => b'.Knows topicId topicMeta.name)
    (q := fun b' : Broker => b'.Restored topicId topicMeta.name n _) distinct (mem_readPartitions.mpr inside)
    ?_ ?_ ?_ (knows_added added)
  · exact fun _ _ _ _ known => known
  · intro b' known
    exact recoverPartition_restores known (named ▸ parsePartitionIndex_numbered topicMeta.name small)
  · intro b' part' inside' other restored
    obtain ⟨k, _, named', index⟩ := (left.tidy dir member).index read (mem_readPartitions.mp inside')
    have different : n ≠ k := by
      rintro rfl
      exact other (named'.trans named.symm)
    apply recoverPartition_keeps restored
    · exact .inr (index ▸ Int.ofNat_inj.not.mpr different)
    · rw [index]
      exact fun same => different (numbered_injective (by decide) same).2

theorem recoverTopicDir_keeps (left : Left disk) (member : dir ∈ disk)
    (other : ∀ topicMeta, dir.metaFile = some topicMeta → topicMeta.topicId ≠ some topicId ∧ topicMeta.name ≠ name)
    (restored : b.Restored topicId name n log) : (b.recoverTopicDir dir).Restored topicId name n log := by
  obtain same | ⟨topicMeta, topicId', topicStore, read, added, result⟩ := recoverTopicDir_cases b dir
  · rw [same]
    exact restored
  · rw [result]
    obtain ⟨otherId, otherName⟩ := other topicMeta read
    obtain ⟨parsed, _, extended⟩ := TopicStore.addTopicMetadata_some added
    refine List.foldlRecOn (motive := fun b' : Broker => b'.Restored topicId name n log) _ _ ?_ ?_
    · exact ⟨knows_before added restored.known, restored.leads, extended ▸ restored.opened⟩
    · intro b' restored' part inside
      obtain ⟨k, _, _, index⟩ := (left.tidy dir member).index read (mem_readPartitions.mp inside)
      apply recoverPartition_keeps restored'
      · exact .inl fun same => otherId (same ▸ parsed)
      · rw [index]
        exact fun same => otherName (numbered_injective (by decide) same).1.symm

theorem recoverTopicDir_absent (other : ∀ topicMeta, dir.metaFile = some topicMeta → topicMeta.topicId ≠ some topicId)
    (absent : b.topicStore.topics topicId = none) : (b.recoverTopicDir dir).topicStore.topics topicId = none := by
  obtain same | ⟨topicMeta, topicId', topicStore, read, added, result⟩ := recoverTopicDir_cases b dir
  · rw [same]
    exact absent
  · rw [result]
    obtain ⟨parsed, _, extended⟩ := TopicStore.addTopicMetadata_some added
    refine List.foldlRecOn (motive := fun b : Broker =>
      b.topicStore.topics topicId = none) _ _ ?_ fun _ absent _ _ => absent
    subst extended
    have different : topicId ≠ topicId' := by
      rintro rfl
      exact other topicMeta read parsed
    exact (Function.update_of_ne different ..).trans absent

theorem recoverTopicDir_sourced (left : Left disk) (member : dir ∈ disk) (sourced : b.Sourced disk) :
    (b.recoverTopicDir dir).Sourced disk := by
  obtain same | ⟨topicMeta, topicId, topicStore, read, added, result⟩ := recoverTopicDir_cases b dir
  · rw [same]
    exact sourced
  · rw [result]
    obtain ⟨parsed, _, extended⟩ := TopicStore.addTopicMetadata_some added
    refine (List.foldlRecOn (motive := fun b : Broker => b.Knows topicId topicMeta.name ∧ b.Sourced disk) _ _
      ⟨knows_added added, ?_⟩ ?_).2
    · intro topicId' partition log opened
      subst extended
      obtain ⟨name, n, files, stored, index, content, known⟩ := sourced topicId' partition log opened
      exact ⟨name, n, files, stored, index, content, knows_before added known⟩
    · rintro b' ⟨known, sourced'⟩ part inside
      have inside := mem_readPartitions.mp inside
      obtain ⟨n, small, named, index⟩ := (left.tidy dir member).index read inside
      exact ⟨known, recoverPartition_sourced sourced' known index
        ⟨dir, member, topicMeta, read, parsed, rfl, part, inside, named, small, rfl⟩⟩

theorem recoverTopic_restores (left : Left b.disk) (stored : Stored b.disk topicId name n files)
    (absent : b.topicStore.topics topicId = none) :
    b.recoverTopic.Restored topicId name n (newCommitLog defaultCommitLogConfig files) := by
  obtain ⟨dir, member, topicMeta, read, parsed, rfl, part, inside, named, small, rfl⟩ := stored
  have otherId : ∀ dir' ∈ readTopics b.disk, dir'.name ≠ dir.name → ∀ topicMeta', dir'.metaFile = some topicMeta' →
      topicMeta'.topicId ≠ some topicId := by
    intro dir' member' other topicMeta' read' same
    exact other (left.ids dir' (mem_readTopics.mp member') dir member topicMeta' topicMeta read' read
      (same.trans parsed.symm))
  have distinct : ((readTopics b.disk).map (·.name)).Nodup :=
    ((List.perm_insertionSort _ b.disk).map _).nodup_iff.mpr left.topics
  unfold recoverTopic
  refine foldl_at (p := fun b' : Broker => b'.topicStore.topics topicId = none)
    (q := fun b' : Broker => b'.Restored topicId topicMeta.name n _) distinct
      (mem_readTopics.mpr member) ?_ ?_ ?_ absent
  · intro b' dir' member' other absent'
    exact recoverTopicDir_absent (otherId dir' member' other) absent'
  · intro b' absent'
    exact recoverTopicDir_restores left member read parsed inside named small absent'
  · intro b' dir' member' other restored
    apply recoverTopicDir_keeps left (mem_readTopics.mp member') ?_ restored
    intro topicMeta' read'
    refine ⟨otherId dir' member' other topicMeta' read', ?_⟩
    rw [((left.tidy dir' (mem_readTopics.mp member')).metas topicMeta' read').1,
      ((left.tidy dir member).metas topicMeta read).1]
    exact other

theorem recoverTopic_absent (left : Left b.disk) (absent : b.topicStore.topics clusterMetadataTopicID = none) :
    b.recoverTopic.topicStore.topics clusterMetadataTopicID = none := by
  refine List.foldlRecOn (motive := fun b' : Broker => b'.topicStore.topics clusterMetadataTopicID = none) _ _ absent ?_
  intro b' absent' dir member
  apply recoverTopicDir_absent ?_ absent'
  intro topicMeta read reserved
  obtain ⟨_, topicId, parsed, other⟩ := (left.tidy dir (mem_readTopics.mp member)).metas topicMeta read
  exact other (Option.some.inj (parsed.symm.trans reserved))

theorem recoverTopic_sourced (left : Left b.disk) (sourced : b.Sourced b.disk) : b.recoverTopic.Sourced b.disk := by
  refine List.foldlRecOn (motive := fun b' : Broker => b'.Sourced b.disk) _ _ sourced ?_
  intro b' sourced' dir member
  exact recoverTopicDir_sourced left (mem_readTopics.mp member) sourced'

end Broker

end KafGo.Server
