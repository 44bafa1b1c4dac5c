import KafGo.Lib.Machine
import KafGo.Server.Plan

/-!
# Names of topics

Topics enter a broker in four ways: by `CreateTopics`, by a record of the controller, by recovery and, for the
metadata topic, on start. Each looks up the id and writes the name, so that a name comes to belong to the topic that
brought it last.
-/

namespace KafGo.Server
open Lib Coordinator Storage

inductive TopicAction where
  | create (topicId : Uuid) (d : CreateTopicData) (reachable : Int → Bool)
  | apply (reachable : Bool) (record : MetadataRecord)
  | recover (dir : TopicDir)
  | initMetadata

namespace Broker

/-- `uuid.New()` never returns an id that is in use. -/
def topicStep (b : Broker) : TopicAction → Option Broker
  | .create topicId d reachable =>
    if validateTopicData d = 0 ∧ (b.topicStore.topics topicId).isNone then some (b.createTopic topicId d reachable).1
    else none
  | .apply reachable record => some (b.applyMetadataRecord reachable record)
  | .recover dir => some (b.recoverTopicDir dir)
  | .initMetadata => some b.initMetadataLog

end Broker

def naming : Machine Broker TopicAction where
  start b := ∃ brokerID peers disk, b = newServer brokerID peers disk
  step a b := b.topicStep a

def TopicAction.brings : TopicAction → Option (Uuid × String)
  | .create topicId d _ => some (topicId, d.name)
  | .apply _ (.topic topicId name _ _) => some (topicId, name)
  | .apply _ (.broker ..) => none
  | .apply _ (.partition ..) => none
  | .apply _ (.producerIds ..) => none
  | .recover dir => dir.metaFile.bind fun topicMeta => topicMeta.topicId.map fun topicId => (topicId, topicMeta.name)
  | .initMetadata => some (clusterMetadataTopicID, clusterMetadata)

/-- A topic that the broker does not know comes with a name that it does not know. -/
def NewName (b : Broker) (a : TopicAction) : Prop :=
  ∀ pair ∈ a.brings, (b.topicStore.topics pair.1).isNone → b.topicStore.topicNames pair.2 = none

instance : ∀ b a, Decidable (NewName b a) := fun b a => by
  unfold NewName
  infer_instance

theorem NewName.unused {b : Broker} {a : TopicAction} (new : NewName b a) {topicId : Uuid} {name : String}
    (brought : a.brings = some (topicId, name)) (absent : b.topicStore.topics topicId = none) :
    b.topicStore.topicNames name = none :=
  new (topicId, name) brought (Option.isNone_iff_eq_none.mpr absent)

structure Kept (b b' : Broker) (name : String) (topicId : Uuid) : Prop where
  id : b'.topicStore.topicNames name = some topicId
  topic : b'.topicStore.getTopic topicId = b.topicStore.getTopic topicId
  states : ∀ n : Nat, b'.partitionStates.getPartitionState name n = b.partitionStates.getPartitionState name n
  logs : ∀ partition, b'.topicStore.getCommitLog topicId partition = b.topicStore.getCommitLog topicId partition

/-! ### What a step does to the names -/

section Steps

open TopicStore

variable {b b' : Broker}

theorem addFetcher_topicStore (b : Broker) (topicName : String) (partition : Int) (reachable : Bool) :
    (b.addFetcher topicName partition reachable).topicStore = b.topicStore := by
  unfold Broker.addFetcher
  dsimp only
  split
  · rfl
  · split
    · rfl
    · split
      · rfl
      · rfl

/-- A topic whose id is new, with the logs that a broker has of it. -/
structure Enters (t t' : TopicStore) (data : TopicData) : Prop where
  absent : t.topics data.topicId = none
  names : (t.put data).SameNames t'
  logs : ∀ topicId, topicId ≠ data.topicId → ∀ partition,
    t'.getCommitLog topicId partition = t.getCommitLog topicId partition

theorem createTopic_enters {topicId : Uuid} {d : CreateTopicData} (absent : b.topicStore.topics topicId = none)
    (reachable : Int → Bool) : Enters b.topicStore (b.createTopic topicId d reachable).1.topicStore
      ⟨d.name, topicId, d.numPartitions, d.replicationFactor⟩ := by
  have added : b.topicStore.addTopic ⟨d.name, topicId, d.numPartitions, d.replicationFactor⟩ =
      .ok (b.topicStore.put ⟨d.name, topicId, d.numPartitions, d.replicationFactor⟩) := by
    unfold addTopic
    rw [absent]
    rfl
  simp only [Broker.createTopic, added]
  refine List.foldlRecOn (motive := fun b' : Broker => Enters b.topicStore b'.topicStore _) _ _ ?_ ?_
  · refine List.foldlRecOn (motive := fun b' : Broker => Enters b.topicStore b'.topicStore _) _ _
      ⟨absent, ⟨rfl, rfl⟩, fun _ _ _ => rfl⟩ ?_
    intro b' enters partition _
    refine ⟨absent, enters.names, ?_⟩
    intro other different partition'
    exact (getCommitLog_add_other (.inl different)).trans (enters.logs other different partition')
  · intro b' enters partition _
    split
    · exact enters
    · split
      · exact enters
      · rw [addFetcher_topicStore]
        exact enters

theorem registerTopic_names (t : TopicStore) (topicId : Uuid) (name : String) (numPartitions : Int) :
    t.SameNames (t.registerTopic topicId name numPartitions) ∧ t.topics topicId ≠ none ∨
    t.topics topicId = none ∧ t.registerTopic topicId name numPartitions = t.put ⟨name, topicId, numPartitions, 1⟩ := by
  unfold registerTopic
  split
  · rename_i known
    exact .inl ⟨⟨rfl, rfl⟩, Option.isSome_iff_ne_none.mp known⟩
  · rename_i unknown
    exact .inr ⟨Option.not_isSome_iff_eq_none.mp unknown, rfl⟩

theorem recoverTopicDir_names (b : Broker) (dir : TopicDir) :
    (b.topicStore.SameNames (b.recoverTopicDir dir).topicStore ∧ ∀ topicId name,
      TopicAction.brings (.recover dir) = some (topicId, name) → b.topicStore.topics topicId ≠ none) ∨
    ∃ data : TopicData, TopicAction.brings (.recover dir) = some (data.topicId, data.name) ∧
      b.topicStore.topics data.topicId = none ∧ (b.topicStore.put data).SameNames
        (b.recoverTopicDir dir).topicStore := by
  cases read : dir.metaFile with
  | none =>
    simp only [Broker.recoverTopicDir, TopicAction.brings, read]
    refine .inl ⟨⟨rfl, rfl⟩, ?_⟩
    rintro _ _ ⟨⟩
  | some topicMeta =>
    have brings : TopicAction.brings (.recover dir) = topicMeta.topicId.map fun topicId =>
      (topicId, topicMeta.name) := by
      simp only [TopicAction.brings, read, Option.bind_some]
    simp only [Broker.recoverTopicDir, brings, read]
    split
    · rename_i refused
      refine .inl ⟨⟨rfl, rfl⟩, ?_⟩
      intro topicId name brought absent
      obtain ⟨id, parsed, same⟩ := Option.map_eq_some_iff.mp brought
      obtain ⟨rfl, _⟩ := Prod.mk.inj same
      simp only [addTopicMetadata, parsed, absent, Option.isSome_none, Bool.false_eq_true, ↓reduceIte, reduceCtorEq]
        at refused
    · rename_i topicId topicStore added
      obtain ⟨parsed, absent, rfl⟩ := addTopicMetadata_some added
      refine .inr ⟨⟨topicMeta.name, topicId, topicMeta.numPartitions, topicMeta.replicationFactor⟩, ?_, absent, ?_⟩
      · rw [parsed, Option.map_some]
      · exact List.foldlRecOn (motive := fun b' : Broker => TopicStore.SameNames _ b'.topicStore) _ _ ⟨rfl, rfl⟩
          fun _ same _ _ => same

/-- Either nothing about the names changes and the topic of the action is known, or it enters with its id and name. -/
theorem topicStep_names {a : TopicAction} (step : b.topicStep a = some b') :
    (b.topicStore.SameNames b'.topicStore ∧ ∀ topicId name, a.brings = some (topicId, name) →
      b.topicStore.topics topicId ≠ none) ∨
    ∃ data : TopicData, a.brings = some (data.topicId, data.name) ∧ b.topicStore.topics data.topicId = none ∧
      (b.topicStore.put data).SameNames b'.topicStore := by
  cases a with
  | create topicId d reachable =>
    simp only [Broker.topicStep, Option.ite_none_right_eq_some, Option.isNone_iff_eq_none] at step
    obtain ⟨⟨_, absent⟩, same⟩ := step
    obtain rfl := Option.some.inj same
    exact .inr ⟨_, rfl, absent, (createTopic_enters absent reachable).names⟩
  | apply reachable record =>
    obtain rfl := Option.some.inj step
    cases record with
    | broker brokerId =>
      refine .inl ⟨?_, by rintro _ _ ⟨⟩⟩
      simp only [Broker.applyMetadataRecord, Broker.registerBroker]
      split
      · exact ⟨rfl, rfl⟩
      · exact ⟨rfl, rfl⟩
    | topic topicId name numPartitions =>
      rcases registerTopic_names b.topicStore topicId name numPartitions with ⟨same, known⟩ | ⟨absent, entered⟩
      · refine .inl ⟨same, ?_⟩
        rintro _ _ ⟨⟩
        exact known
      · refine .inr ⟨⟨name, topicId, numPartitions, 1⟩, rfl, absent, ?_⟩
        simp only [Broker.applyMetadataRecord, Broker.applyTopicRecord, entered]
        exact ⟨rfl, rfl⟩
    | producerIds => exact .inl ⟨⟨rfl, rfl⟩, by rintro _ _ ⟨⟩⟩
    | partition topicId partitionId leader leaderEpoch replicas isr =>
      refine .inl ⟨?_, by rintro _ _ ⟨⟩⟩
      simp only [Broker.applyMetadataRecord]
      split
      · exact ⟨rfl, rfl⟩
      · split
        · exact ⟨rfl, rfl⟩
        · rw [addFetcher_topicStore]
          exact ⟨rfl, rfl⟩
  | recover dir =>
    obtain rfl := Option.some.inj step
    exact recoverTopicDir_names b dir
  | initMetadata =>
    obtain rfl := Option.some.inj step
    rcases registerTopic_names b.topicStore clusterMetadataTopicID clusterMetadata 1 with
      ⟨same, known⟩ | ⟨absent, entered⟩
    · refine .inl ⟨same, ?_⟩
      rintro _ _ ⟨⟩
      exact known
    · refine .inr ⟨⟨clusterMetadata, clusterMetadataTopicID, 1, 1⟩, rfl, absent, ?_⟩
      simp only [Broker.initMetadataLog, entered]
      exact ⟨rfl, rfl⟩

theorem topicStep_paired {a : TopicAction} (paired : b.topicStore.Paired) (step : b.topicStep a = some b') :
    b'.topicStore.Paired ↔ NewName b a := by
  rcases topicStep_names step with ⟨same, known⟩ | ⟨data, brought, absent, entered⟩
  · refine iff_of_true (paired.same same) ?_
    exact fun pair brought absent => absurd (Option.isNone_iff_eq_none.mp absent) (known pair.1 pair.2 brought)
  · have exact : b'.topicStore.Paired ↔ (b.topicStore.put data).Paired :=
      ⟨fun after => after.same ⟨entered.1.symm, entered.2.symm⟩, fun after => after.same entered⟩
    rw [exact, paired_put_iff paired absent]
    constructor
    · rintro unused pair again -
      obtain rfl := Option.some.inj (brought.symm.trans again)
      exact unused
    · intro new
      exact new.unused brought absent

theorem assignReplicas_other (store : PartitionStateStore) {topicName name : String} (other : name ≠ topicName)
    (numPartitions replicationFactor : Int) (brokerIDs : List Int) (n : Nat) :
    (store.assignReplicas topicName numPartitions replicationFactor brokerIDs).getPartitionState name n =
      store.getPartitionState name n := by
  unfold PartitionStateStore.assignReplicas
  refine List.foldlRecOn (motive := fun store' : PartitionStateStore =>
    store'.getPartitionState name n = store.getPartitionState name n) _ _ rfl ?_
  intro store' same m _
  refine (store'.put_other _ ?_).trans same
  exact fun same => other (numbered_injective (by decide) same).1

theorem createTopic_kept {topicId : Uuid} {d : CreateTopicData} {reachable : Int → Bool} (paired : b.topicStore.Paired)
    (new : NewName b (.create topicId d reachable)) (step : b.topicStep (.create topicId d reachable) = some b')
    {name : String} {id : Uuid} (known : b.topicStore.topicNames name = some id) : Kept b b' name id := by
  simp only [Broker.topicStep, Option.ite_none_right_eq_some, Option.isNone_iff_eq_none] at step
  obtain ⟨⟨_, absent⟩, same⟩ := step
  obtain rfl := Option.some.inj same
  obtain ⟨data, entry, _⟩ := paired.named name id known
  have otherName : name ≠ d.name := by
    rintro rfl
    exact absurd ((new.unused rfl absent).symm.trans known) nofun
  have otherId : id ≠ topicId := by
    rintro rfl
    exact absurd (absent.symm.trans entry) nofun
  have enters := createTopic_enters absent reachable (d := d)
  refine ⟨?_, ?_, ?_, enters.logs id otherId⟩
  · rw [enters.names.2]
    exact (Function.update_of_ne otherName ..).trans known
  · unfold getTopic
    rw [enters.names.1]
    exact Function.update_of_ne otherId ..
  · intro n
    rw [(createTopic_same b topicId d reachable).2]
    exact assignReplicas_other _ otherName ..

end Steps

theorem reached_paired {b : Broker} (reached : naming.Reached NewName b) : b.topicStore.Paired := by
  refine Machine.reached_invariant (fun b => b.topicStore.Paired) ?_ ?_ reached
  · rintro b ⟨brokerID, peers, disk, rfl⟩
    rw [(newServer_fresh brokerID peers disk).2.1]
    exact TopicStore.newTopicStore_paired
  · intro b a b' paired new step
    exact (topicStep_paired paired step).mpr new

/-- As long as every topic that enters has a new name, names and ids are in bijection and a creation leaves the topics
that exist as they are. The first topic that enters with the name of another ends the bijection. -/
theorem names_paired {b : Broker} (reached : naming.Reached NewName b) : b.topicStore.Paired ∧
    (∀ (a : TopicAction) (b' : Broker), b.topicStep a = some b' → (b'.topicStore.Paired ↔ NewName b a)) ∧
    ∀ (topicId : Uuid) (d : CreateTopicData) (reachable : Int → Bool) (b' : Broker),
      NewName b (.create topicId d reachable) → b.topicStep (.create topicId d reachable) = some b' →
        ∀ (name : String) (id : Uuid), b.topicStore.topicNames name = some id → Kept b b' name id := by
  have paired := reached_paired reached
  refine ⟨paired, ?_, ?_⟩
  · exact fun a b' step => topicStep_paired paired step
  · intro topicId d reachable b' new step name id known
    exact createTopic_kept paired new step known

/-- Two topics of different names, one created and one from a record, and a third one that is created after them. -/
theorem names_paired_three : ∃ b b', naming.Reached NewName b ∧ b.topicStore.topicNames "orders" = some 10 ∧
    b.topicStore.topicNames "invoices" = some 11 ∧ b.topicStore.Paired ∧
    b.topicStep (.create 12 ⟨"users", 1, 1, []⟩ fun _ => true) = some b' ∧ b'.topicStore.Paired ∧
      Kept b b' "orders" 10 := by
  have schedule := naming.exec_reaches NewName (fun b a => decide (NewName b a)) (fun _ _ => of_decide_eq_true)
    [.initMetadata, .create 10 ⟨"orders", 2, 1, []⟩ fun _ => true, .apply true (.topic 11 "invoices" 1 1)]
    (fun b => decide (b.topicStore.topicNames "orders" = some 10 ∧ b.topicStore.topicNames "invoices" = some 11 ∧
      NewName b (.create 12 ⟨"users", 1, 1, []⟩ fun _ => true)) &&
      (b.topicStep (.create 12 ⟨"users", 1, 1, []⟩ fun _ => true)).isSome) ⟨1, [], [], rfl⟩ (by decide +kernel)
  obtain ⟨b, reached, ends⟩ := schedule
  obtain ⟨names, created⟩ := Bool.and_eq_true_iff.mp ends
  obtain ⟨orders, invoices, new⟩ := of_decide_eq_true names
  obtain ⟨b', step⟩ := Option.isSome_iff_exists.mp created
  obtain ⟨paired, exact, keeps⟩ := names_paired reached
  exact ⟨b, b', reached, orders, invoices, paired, step, (exact _ b' step).mpr new,
    keeps 12 _ _ b' new step "orders" 10 orders⟩

/-- "orders" is created twice, the second time after broker 0 has joined. The name leads to the second topic, the first
one still carries it, and the state of its partition is that of a new partition with another leader. -/
theorem names_created_twice : ∃ b b', naming.Run b ∧ b.topicStore.Paired ∧ b.topicStore.topicNames "orders" = some 10 ∧
    b.topicStep (.create 11 ⟨"orders", 1, 1, []⟩ fun _ => true) = some b' ∧
    b'.topicStore.topicNames "orders" = some 11 ∧ (b'.topicStore.topics 10).map (·.name) = some "orders" ∧
    (b.partitionStates.getPartitionState "orders" 0).map (·.ps.leaderBrokerID) = some 1 ∧
    (b'.partitionStates.getPartitionState "orders" 0).map (·.ps.leaderBrokerID) = some 0 ∧ ¬ b'.topicStore.Paired := by
  have schedule := naming.exec_reaches NewName (fun b a => decide (NewName b a)) (fun _ _ => of_decide_eq_true)
    [.create 10 ⟨"orders", 1, 1, []⟩ fun _ => true, .apply true (.broker 0 "localhost" 9092 0)]
    (fun b => decide (b.topicStore.topicNames "orders" = some 10 ∧
        (b.partitionStates.getPartitionState "orders" 0).map (·.ps.leaderBrokerID) = some 1) &&
      (b.topicStep (.create 11 ⟨"orders", 1, 1, []⟩ fun _ => true)).any fun b' =>
        decide (b'.topicStore.topicNames "orders" = some 11 ∧
          (b'.topicStore.topics 10).map (·.name) = some "orders" ∧
          (b'.partitionStates.getPartitionState "orders" 0).map (·.ps.leaderBrokerID) = some 0)) ⟨1, [], [], rfl⟩
    (by decide +kernel)
  obtain ⟨b, reached, ends⟩ := schedule
  obtain ⟨before, created⟩ := Bool.and_eq_true_iff.mp ends
  obtain ⟨first, led⟩ := of_decide_eq_true before
  obtain ⟨b', step, after⟩ := (Option.any_eq_true _ _).mp created
  obtain ⟨second, carries, moved⟩ := of_decide_eq_true after
  refine ⟨b, b', reached.mono fun _ _ _ => trivial, reached_paired reached, first, step, second, carries,
    led, moved, ?_⟩
  intro paired
  obtain ⟨data, entry, named⟩ := Option.map_eq_some_iff.mp carries
  have back := paired.back 10 data entry
  rw [named, second] at back
  cases back

end KafGo.Server
