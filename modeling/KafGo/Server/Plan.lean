import KafGo.Server.Recovery

/-!
# The plan that brokers follow

`AssignReplicas` on the controller chooses the leader of every partition, and metadata records carry the choice to the
other brokers. A plan holds all names and leaders chosen so far. Whatever a broker does with the records, its states
agree with the plan; recovery agrees with it only if the broker was chosen for every directory it has.
-/

namespace KafGo.Server
open Lib Coordinator Storage

structure Plan where
  names : Uuid → Option String
  leaders : String → Nat → Option Int

namespace Plan

def Grows (plan plan' : Plan) : Prop :=
  (∀ topicId name, plan.names topicId = some name → plan'.names topicId = some name) ∧
    ∀ name n leader, plan.leaders name n = some leader → plan'.leaders name n = some leader

/-- The state under a key has the chosen leader. -/
def Allows (plan : Plan) (key : String) (e : PartitionEntry) : Prop :=
  ∃ name n, plan.leaders name n = some e.ps.leaderBrokerID ∧ key = partitionKey name n

def Names (plan : Plan) (topicMeta : TopicMeta) : Prop :=
  ∀ topicId, topicMeta.topicId = some topicId → plan.names topicId = some topicMeta.name

def Covers (plan : Plan) (t : TopicStore) : Prop :=
  ∀ topicId topicData, t.topics topicId = some topicData → plan.names topicId = some topicData.name

/-- What a record says is part of the plan. -/
def Lists (plan : Plan) (ids : List Int) : MetadataRecord → Prop
  | .broker brokerId _ _ _ => brokerId ∈ ids
  | .topic topicId name _ _ => plan.names topicId = some name
  | .partition topicId partitionId leader _ _ _ => ∃ name n, plan.names topicId = some name ∧ partitionId = (n : Nat) ∧
      plan.leaders name n = some leader
  | .producerIds _ _ _ => True

end Plan

def Metas (disk : Disk) (P : TopicMeta → Prop) : Prop :=
  ∀ dir ∈ disk, ∀ topicMeta, dir.metaFile = some topicMeta → P topicMeta

/-- A broker that knows the others, and nothing that is not in the plan. -/
structure Follows (plan : Plan) (ids : List Int) (b : Broker) : Prop where
  registered : ∀ id, id ∈ b.brokers ↔ id ∈ ids
  states : b.partitionStates.All plan.Allows
  topics : plan.Covers b.topicStore
  metas : Metas b.disk plan.Names

variable {plan plan' : Plan} {ids : List Int} {b : Broker} {disk : Disk}

theorem Follows.grow (grows : plan.Grows plan') (follows : Follows plan ids b) : Follows plan' ids b where
  registered := follows.registered
  states := by
    intro key e found
    obtain ⟨name, n, chosen, same⟩ := follows.states key e found
    exact ⟨name, n, grows.2 name n _ chosen, same⟩
  topics := fun topicId topicData known => grows.1 topicId _ (follows.topics topicId topicData known)
  metas := fun dir member topicMeta read topicId parsed =>
    grows.1 topicId _ (follows.metas dir member topicMeta read topicId parsed)

theorem Plan.Lists.grow (grows : plan.Grows plan') {record : MetadataRecord} (lists : plan.Lists ids record) :
    plan'.Lists ids record := by
  cases record with
  | broker => exact lists
  | topic => exact grows.1 _ _ lists
  | producerIds => trivial
  | partition =>
    obtain ⟨name, n, named, index, chosen⟩ := lists
    exact ⟨name, n, grows.1 _ _ named, index, grows.2 _ _ _ chosen⟩

section Disk

variable {P : TopicMeta → Prop}

theorem topicDir_metas (all : Metas disk P) (name : String) {topicMeta : TopicMeta}
    (read : (disk.topicDir name).metaFile = some topicMeta) : P topicMeta := by
  unfold Disk.topicDir at read
  cases found : lookupKey (·.name) disk name with
  | none =>
    rw [found] at read
    cases read
  | some dir =>
    rw [found] at read
    exact all dir (lookupKey_some found).1 topicMeta read

theorem Metas.openPartition (all : Metas disk P) (name : String) (partition : Int) :
    Metas (disk.openPartition name partition).1 P := by
  unfold Disk.openPartition
  dsimp only
  split
  · exact all
  · exact forall_insertKey all fun _ => topicDir_metas all name

theorem Metas.saveTopicMeta (all : Metas disk P) {topicMeta : TopicMeta} (new : P topicMeta) :
    Metas (disk.saveTopicMeta topicMeta) P := by
  apply forall_insertKey all
  rintro _ ⟨⟩
  exact new

end Disk

theorem Plan.Covers.put {t : TopicStore} (all : plan.Covers t) {data : TopicData}
    (named : plan.names data.topicId = some data.name) : plan.Covers (t.put data) := by
  intro id topicData found
  have found : Function.update t.topics data.topicId (some data) id = some topicData := found
  by_cases same : id = data.topicId
  · rw [same, Function.update_self] at found
    rw [same, ← Option.some.inj found]
    exact named
  · rw [Function.update_of_ne same] at found
    exact all id topicData found

theorem Plan.Covers.registerTopic {t : TopicStore} (all : plan.Covers t) {topicId : Uuid} {name : String}
    (named : plan.names topicId = some name) (numPartitions : Int) :
    plan.Covers (t.registerTopic topicId name numPartitions) := by
  unfold TopicStore.registerTopic
  split
  · exact all
  · exact all.put named

theorem Plan.Covers.addTopic {t t' : TopicStore} (all : plan.Covers t) {data : TopicData}
    (named : plan.names data.topicId = some data.name) (added : t.addTopic data = .ok t') : plan.Covers t' := by
  unfold TopicStore.addTopic at added
  split at added
  · cases added
  · obtain rfl := Except.ok.inj added
    exact all.put named

theorem mem_registerBroker (b : Broker) (peer id : Int) :
    id ∈ (b.registerBroker peer).brokers ↔ id ∈ b.brokers ∨ id = peer := by
  unfold Broker.registerBroker
  split
  · rename_i known
    constructor
    · exact .inl
    · rintro (old | rfl)
      · exact old
      · exact known
  · exact List.mem_append.trans (or_congr_right List.mem_singleton)

theorem foldl_lowest (brokers : List Int) (first : Int) :
    let lowest := brokers.foldl (fun lowest id => if id < lowest then id else lowest) first
    lowest ≤ first ∧ (∀ id ∈ brokers, lowest ≤ id) ∧ (lowest = first ∨ lowest ∈ brokers) := by
  induction brokers generalizing first with
  | nil => simp
  | cons id rest ih =>
    rw [List.foldl_cons]
    by_cases smaller : id < first
    · rw [if_pos smaller]
      obtain ⟨below, all, source⟩ := ih id
      refine ⟨by omega, List.forall_mem_cons.mpr ⟨below, all⟩, .inr (List.mem_cons.mpr source)⟩
    · rw [if_neg smaller]
      obtain ⟨below, all, source⟩ := ih first
      refine ⟨below, List.forall_mem_cons.mpr ⟨by omega, all⟩, ?_⟩
      exact source.imp_right (List.mem_cons_of_mem _)

theorem lowestID_congr {brokers brokers' : List Int} (same : ∀ id, id ∈ brokers ↔ id ∈ brokers') :
    lowestID brokers = lowestID brokers' := by
  have below : ∀ {l l' : List Int}, (∀ id, id ∈ l' → id ∈ l) → ∀ first : Int,
      l.foldl (fun lowest id => if id < lowest then id else lowest) first ≤
        l'.foldl (fun lowest id => if id < lowest then id else lowest) first := by
    intro l l' inside first
    obtain ⟨low, all, _⟩ := foldl_lowest l first
    obtain ⟨_, _, source⟩ := foldl_lowest l' first
    rcases source with atFirst | member
    · rw [atFirst]
      exact low
    · exact all _ (inside _ member)
  unfold lowestID
  rw [Int.le_antisymm (below (fun id => (same id).mpr) _) (below (fun id => (same id).mp) _)]

theorem controller_first (own : b.brokerID ∈ b.brokers) (controls : b.isController = true) :
    b.getAllBrokerIDs.head? = some (lowestID b.brokers) := by
  have lowest : b.brokerID = lowestID b.brokers := of_decide_eq_true controls
  obtain ⟨_, all, _⟩ := foldl_lowest b.brokers (2 ^ 31 - 1)
  have low : ∀ id ∈ b.brokers, lowestID b.brokers ≤ id := by
    intro id member
    have here := all id member
    have mine := all b.brokerID own
    rw [lowest] at mine
    unfold lowestID at mine ⊢
    dsimp only at here mine ⊢
    split
    · rename_i none
      rw [if_pos none, none] at mine
      omega
    · exact here
  cases sorted : b.getAllBrokerIDs with
  | nil =>
    have member : b.brokerID ∈ b.getAllBrokerIDs := (List.mem_insertionSort _).mpr own
    rw [sorted] at member
    cases member
  | cons id rest =>
    have ordered : (id :: rest).Pairwise (· ≤ ·) := sorted ▸ List.pairwise_insertionSort _ _
    have member : id ∈ b.brokers := (List.mem_insertionSort (· ≤ ·)).mp
      (show id ∈ b.getAllBrokerIDs from sorted ▸ List.mem_cons_self)
    have mine : b.brokerID ∈ id :: rest := sorted ▸ (List.mem_insertionSort _).mpr own
    refine congrArg some (Int.le_antisymm ?_ (low id member))
    rw [← lowest]
    rcases List.mem_cons.mp mine with same | later
    · exact Int.le_of_eq same.symm
    · exact (List.pairwise_cons.mp ordered).1 _ later

theorem mem_registerAll (peers : List Int) (b : Broker) (id : Int) :
    id ∈ (peers.foldl Broker.registerBroker b).brokers ↔ id ∈ b.brokers ∨ id ∈ peers := by
  induction peers generalizing b with
  | nil => simp
  | cons peer rest ih =>
    rw [List.foldl_cons, ih, List.mem_cons, mem_registerBroker, or_assoc]

theorem recoverTopicDir_covers (all : plan.Covers b.topicStore) {dir : TopicDir}
    (metas : ∀ topicMeta, dir.metaFile = some topicMeta → plan.Names topicMeta) :
    plan.Covers (b.recoverTopicDir dir).topicStore := by
  obtain same | ⟨topicMeta, topicId, topicStore, read, added, result⟩ := b.recoverTopicDir_cases dir
  · rw [same]
    exact all
  · rw [result]
    obtain ⟨parsed, _, rfl⟩ := TopicStore.addTopicMetadata_some added
    exact List.foldlRecOn (motive := fun b' : Broker => plan.Covers b'.topicStore) _ _
      (all.put (metas topicMeta read topicId parsed)) fun _ all _ _ => all

/-- The broker was chosen for every partition that recovery takes. -/
def Chosen (plan : Plan) (brokerID : Int) (disk : Disk) : Prop :=
  ∀ dir ∈ disk, ∀ topicMeta, dir.metaFile = some topicMeta → ∀ part ∈ dir.partitions,
    ∃ n : Nat, parsePartitionIndex part.name topicMeta.name = n ∧ plan.leaders topicMeta.name n = some brokerID

theorem follows_start {brokerID : Int} (member : brokerID ∈ ids) (metas : Metas disk plan.Names)
    (chosen : Chosen plan brokerID disk) (metadataName : plan.names clusterMetadataTopicID = some clusterMetadata)
    (metadataLeader : plan.leaders clusterMetadata 0 = some (lowestID ids)) :
    Follows plan ids (newServer brokerID ids disk).start := by
  obtain ⟨noStates, noTopics, own, onDisk⟩ := newServer_fresh brokerID ids disk
  have registered : ∀ id, id ∈ (newServer brokerID ids disk).brokers ↔ id ∈ ids := by
    intro id
    refine (mem_registerAll ids _ id).trans ?_
    rw [List.mem_singleton]
    exact or_iff_right_of_imp fun same => same ▸ member
  have same := (newServer brokerID ids disk).recoverTopic_same
  refine ⟨?_, ?_, ?_, ?_⟩
  · intro id
    exact (congrArg (id ∈ ·) same.2.1).to_iff.trans (registered id)
  · have fresh : (newServer brokerID ids disk).partitionStates.All plan.Allows :=
      noStates ▸ PartitionStateStore.newPartitionStateStore_all
    have recovers : ∀ dir ∈ (newServer brokerID ids disk).disk, Broker.Recovers plan.Allows brokerID dir := by
      rw [onDisk]
      intro dir inside topicMeta read part partInside
      obtain ⟨n, index, leads⟩ := chosen dir inside topicMeta read part partInside
      rw [index]
      exact ⟨fun _ _ => ⟨_, n, leads, rfl⟩, _, n, leads, rfl⟩
    rw [Broker.start_states]
    refine (Broker.recoverTopic_all fresh (own.symm ▸ recovers)).2.put ⟨clusterMetadata, 0, ?_, rfl⟩
    exact metadataLeader.trans (congrArg some (lowestID_congr registered).symm)
  · rw [Broker.start_topicStore]
    refine Plan.Covers.registerTopic ?_ metadataName 1
    refine List.foldlRecOn (motive := fun b' : Broker => plan.Covers b'.topicStore) _ _ (noTopics ▸ nofun) ?_
    intro b' all dir inside
    exact recoverTopicDir_covers all (metas dir (onDisk ▸ Broker.mem_readTopics.mp inside))
  · refine Metas.openPartition ?_ clusterMetadata 0
    rw [same.2.2, onDisk]
    exact metas

theorem follows_addFetcher (follows : Follows plan ids b) (topicName : String) (partition : Int) (reachable : Bool) :
    Follows plan ids (b.addFetcher topicName partition reachable) := by
  have metas := follows.metas.openPartition topicName partition
  unfold Broker.addFetcher
  dsimp only
  split
  · exact follows
  · split
    · exact follows
    · split
      · exact ⟨follows.registered, follows.states, follows.topics, metas⟩
      · exact ⟨follows.registered, follows.states, follows.topics, metas⟩

theorem follows_apply (follows : Follows plan ids b) {record : MetadataRecord} (lists : plan.Lists ids record)
    (reachable : Bool) : Follows plan ids (b.applyMetadataRecord reachable record) := by
  cases record with
  | broker id =>
    have known : id ∈ b.brokers := (follows.registered id).mpr lists
    simp only [Broker.applyMetadataRecord, Broker.registerBroker, if_pos known]
    exact follows
  | topic topicId name numPartitions minInsyncReplicas =>
    refine ⟨follows.registered, follows.states, follows.topics.registerTopic lists _, follows.metas.saveTopicMeta ?_⟩
    rintro _ ⟨⟩
    exact lists
  | producerIds => exact follows
  | partition topicId partitionId leader leaderEpoch replicas isr =>
    obtain ⟨name, n, named, rfl, chosen⟩ := lists
    simp only [Broker.applyMetadataRecord]
    split
    · exact follows
    · rename_i topicData known
      have same : topicData.name = name := Option.some.inj ((follows.topics topicId topicData known).symm.trans named)
      have updated : Follows plan ids { b with
          partitionStates := b.partitionStates.setPartitionState topicData.name n leader leaderEpoch replicas isr } :=
        ⟨follows.registered, follows.states.put ⟨name, n, chosen, congrArg (partitionKey · n) same⟩, follows.topics,
          follows.metas⟩
      split
      · rename_i own
        have allowed : ∀ e : PartitionEntry, e.ps.leaderBrokerID = b.brokerID →
          plan.Allows (partitionKey topicData.name n) e := by
          intro e leads
          exact ⟨name, n, chosen.trans (congrArg some (own.trans leads.symm)), congrArg (partitionKey · n) same⟩
        exact ⟨updated.registered, updated.states.setLeader (fun _ _ => allowed _ rfl) (allowed _ rfl), updated.topics,
          updated.metas.openPartition _ _⟩
      · exact follows_addFetcher updated _ _ _

/-! ### Creating topics -/

theorem validateTopicData_positive {d : CreateTopicData} (valid : validateTopicData d = 0) :
    0 < d.numPartitions ∧ 0 < d.replicationFactor := by
  unfold validateTopicData at valid
  split at valid
  · cases valid
  · split at valid
    · cases valid
    · split at valid
      · cases valid
      · split at valid
        · cases valid
        · omega

/-- A partition on as many different brokers as asked for, of which the first leads and is alone in sync. -/
structure Placed (brokerIDs : List Int) (replicationFactor : Int) (ps : PartitionState) : Prop where
  count : (ps.replicas.length : Int) = replicationFactor
  distinct : ps.replicas.Nodup
  brokers : ps.replicas ⊆ brokerIDs
  leader : ps.replicas.head? = some ps.leaderBrokerID
  isr : ps.isr = [ps.leaderBrokerID]

theorem assignedPartition_placed_iff {topicName : String} {brokerIDs : List Int} {replicationFactor : Int} {n : Nat}
    (positive : 0 < replicationFactor) (distinct : brokerIDs.Nodup) (known : brokerIDs ≠ []) :
    Placed brokerIDs replicationFactor
      (PartitionStateStore.assignedPartition topicName brokerIDs replicationFactor n).ps ↔
      replicationFactor ≤ brokerIDs.length := by
  constructor
  · intro placed
    exact (PartitionStateStore.nodup_replicasOf_iff distinct known).mp placed.distinct
  · intro few
    refine ⟨?_, (PartitionStateStore.nodup_replicasOf_iff distinct known).mpr few,
      PartitionStateStore.replicasOf_subset known, PartitionStateStore.head?_replicasOf positive, rfl⟩
    show ((PartitionStateStore.replicasOf brokerIDs replicationFactor n).length : Int) = replicationFactor
    rw [PartitionStateStore.length_replicasOf]
    omega

/-- An accepted topic gets different brokers for each partition exactly if there are as many as it asks for. -/
theorem assigned_placed_iff (store : PartitionStateStore) (d : CreateTopicData) (accepted : validateTopicData d = 0)
    (brokerIDs : List Int) (known : brokerIDs ≠ []) (sorted : brokerIDs.Pairwise (· < ·)) :
    (∀ n < d.numPartitions.toNat, ∃ e,
      (store.assignReplicas d.name d.numPartitions d.replicationFactor brokerIDs).getPartitionState d.name n = some e ∧
        Placed brokerIDs d.replicationFactor e.ps) ↔ d.replicationFactor ≤ brokerIDs.length := by
  obtain ⟨partitions, positive⟩ := validateTopicData_positive accepted
  have distinct : brokerIDs.Nodup := sorted.imp Int.ne_of_lt
  constructor
  · intro all
    obtain ⟨e, found, placed⟩ := all 0 (by omega)
    rw [store.getPartitionState_assignReplicas _ _ _ _ (by omega)] at found
    obtain rfl := Option.some.inj found
    exact (assignedPartition_placed_iff positive distinct known).mp placed
  · intro few n inside
    exact ⟨_, store.getPartitionState_assignReplicas _ _ _ _ inside,
      (assignedPartition_placed_iff positive distinct known).mpr few⟩

def twoReplicas : CreateTopicData := ⟨"orders", 3, 2, []⟩

theorem assigned_placed_two : validateTopicData twoReplicas = 0 ∧ ∀ n < twoReplicas.numPartitions.toNat, ∃ e,
    (newPartitionStateStore.assignReplicas twoReplicas.name twoReplicas.numPartitions twoReplicas.replicationFactor
      [1, 2]).getPartitionState twoReplicas.name n = some e ∧ Placed [1, 2] twoReplicas.replicationFactor e.ps :=
  ⟨by decide +kernel,
    (assigned_placed_iff newPartitionStateStore twoReplicas (by decide +kernel) [1, 2] (by decide) (by decide)).mpr
      (by decide)⟩

/-- The same topic on one broker: it is accepted, and the broker is listed twice. -/
theorem one_broker_listed_twice : validateTopicData twoReplicas = 0 ∧
    (newPartitionStateStore.assignReplicas twoReplicas.name twoReplicas.numPartitions twoReplicas.replicationFactor
      [1]).getPartitionState twoReplicas.name 0 =
        some (newPartition "orders" 0 1 0 [1, 1] [1]) :=
  ⟨by decide +kernel, PartitionStateStore.getPartitionState_assignReplicas _ _ _ _ _ (show 0 < 3 by decide)⟩

def chosenLeader (brokerIDs : List Int) (replicationFactor : Int) (n : Nat) : Int :=
  (PartitionStateStore.replicasOf brokerIDs replicationFactor n).headD 0

theorem chosenLeader_first {id : Int} {brokerIDs : List Int} (first : brokerIDs.head? = some id)
    {replicationFactor : Int} (positive : 0 < replicationFactor) : chosenLeader brokerIDs replicationFactor 0 = id := by
  obtain ⟨k, count⟩ : ∃ k, replicationFactor.toNat = k + 1 := ⟨replicationFactor.toNat - 1, by omega⟩
  obtain ⟨rest, rfl⟩ := List.head?_eq_some_iff.mp first
  simp [chosenLeader, PartitionStateStore.replicasOf, count, List.range_succ_eq_map]

def Plan.create (plan : Plan) (topicId : Uuid) (d : CreateTopicData) (brokerIDs : List Int) : Plan where
  names := Function.update plan.names topicId (some d.name)
  leaders := fun name n =>
    if name = d.name ∧ n < d.numPartitions.toNat then some (chosenLeader brokerIDs d.replicationFactor n)
    else plan.leaders name n

variable {topicId : Uuid} {d : CreateTopicData} {brokerIDs : List Int}

theorem create_grows (fresh : plan.names topicId = none)
    (agrees : ∀ n leader, plan.leaders d.name n = some leader → leader = chosenLeader brokerIDs d.replicationFactor n) :
    plan.Grows (plan.create topicId d brokerIDs) := by
  constructor
  · intro id name named
    refine (Function.update_of_ne ?_ ..).trans named
    rintro rfl
    exact absurd (fresh.symm.trans named) nofun
  · intro name n leader chosen
    simp only [Plan.create]
    split
    · rename_i new
      rw [agrees n leader (new.1 ▸ chosen)]
    · exact chosen

theorem follows_createTopic (follows : Follows plan ids b) (named : plan.names topicId = some d.name)
    (chosen : ∀ n < d.numPartitions.toNat, plan.leaders d.name n =
      some (chosenLeader b.knownBrokers d.replicationFactor n))
    (reachable : Int → Bool) : Follows plan ids (b.createTopic topicId d reachable).1 := by
  have assigned : Follows plan ids { b with
      partitionStates := b.partitionStates.assignReplicas d.name d.numPartitions d.replicationFactor b.knownBrokers } :=
    ⟨follows.registered, follows.states.assignReplicas fun n inside => ⟨d.name, n, chosen n inside, rfl⟩,
      follows.topics, follows.metas⟩
  refine List.foldlRecOn (motive := fun b' => Follows plan ids b') _ _ ?_ ?_
  · refine List.foldlRecOn (motive := fun b' => Follows plan ids b') _ _ ?_ ?_
    · refine ⟨assigned.registered, assigned.states, ?_, assigned.metas.saveTopicMeta ?_⟩
      · dsimp only [TopicStore.setTopicMeta]
        split
        · rename_i topicStore added
          have covered : plan.Covers topicStore := follows.topics.addTopic named added
          exact covered
        · exact follows.topics
      · rintro _ ⟨⟩
        exact named
    · intro b' follows' n _
      exact ⟨follows'.registered, follows'.states, follows'.topics, follows'.metas.openPartition _ _⟩
  · intro b' follows' n _
    split
    · exact follows'
    · split
      · exact follows'
      · exact follows_addFetcher follows' _ _ _

theorem addFetcher_same (b : Broker) (topicName : String) (partition : Int) (reachable : Bool) :
    (b.addFetcher topicName partition reachable).brokerID = b.brokerID ∧
      (b.addFetcher topicName partition reachable).partitionStates = b.partitionStates := by
  unfold Broker.addFetcher
  dsimp only
  split
  · exact ⟨rfl, rfl⟩
  · split
    · exact ⟨rfl, rfl⟩
    · split
      · exact ⟨rfl, rfl⟩
      · exact ⟨rfl, rfl⟩

theorem applyMetadataRecord_brokerID (b : Broker) (reachable : Bool) (record : MetadataRecord) :
    (b.applyMetadataRecord reachable record).brokerID = b.brokerID := by
  cases record with
  | broker id =>
    simp only [Broker.applyMetadataRecord, Broker.registerBroker]
    split
    · rfl
    · rfl
  | topic => rfl
  | producerIds => rfl
  | partition topicId partitionId leader leaderEpoch replicas isr =>
    simp only [Broker.applyMetadataRecord]
    split
    · rfl
    · split
      · rfl
      · exact (addFetcher_same _ _ _ _).1

theorem createTopic_same (b : Broker) (topicId : Uuid) (d : CreateTopicData) (reachable : Int → Bool) :
    (b.createTopic topicId d reachable).1.brokerID = b.brokerID ∧
    (b.createTopic topicId d reachable).1.partitionStates =
      b.partitionStates.assignReplicas d.name d.numPartitions d.replicationFactor b.knownBrokers := by
  refine List.foldlRecOn (motive := fun b' : Broker => b'.brokerID = b.brokerID ∧ b'.partitionStates =
    b.partitionStates.assignReplicas d.name d.numPartitions d.replicationFactor b.knownBrokers) _ _ ?_ ?_
  · exact List.foldlRecOn (motive := fun b' : Broker => b'.brokerID = b.brokerID ∧ b'.partitionStates =
      b.partitionStates.assignReplicas d.name d.numPartitions d.replicationFactor b.knownBrokers) _ _ ⟨rfl, rfl⟩
      fun _ same _ _ => same
  · intro b' same n _
    split
    · exact same
    · split
      · exact same
      · obtain ⟨own, states⟩ := addFetcher_same b' d.name n (reachable _)
        exact ⟨own.trans same.1, states.trans same.2⟩

theorem createTopic_records (named : plan.names topicId = some d.name)
    (chosen : ∀ n < d.numPartitions.toNat, plan.leaders d.name n =
      some (chosenLeader b.knownBrokers d.replicationFactor n))
    (reachable : Int → Bool) : ∀ record ∈ (b.createTopic topicId d reachable).2, plan.Lists ids record := by
  refine List.forall_mem_cons.mpr ⟨named, ?_⟩
  intro record member
  obtain ⟨n, inside, made⟩ := List.mem_filterMap.mp member
  obtain ⟨e, found, rfl⟩ := Option.map_eq_some_iff.mp made
  have inside := List.mem_range.mp inside
  have states := (createTopic_same b topicId d reachable).2
  have set :=
    b.partitionStates.getPartitionState_assignReplicas d.name d.numPartitions d.replicationFactor b.knownBrokers inside
  rw [← states] at set
  obtain rfl := Option.some.inj (set.symm.trans found)
  exact ⟨d.name, n, named, rfl, chosen n inside⟩

end KafGo.Server
