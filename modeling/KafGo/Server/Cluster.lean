import KafGo.Lib.Machine
import KafGo.Server.Plan

/-!
# One leader for each partition

Brokers with the same list of ids. The controller creates topics, the others apply the records of its metadata log, and
brokers restart. A broker may apply any record at any time, which covers fetching them in order, again and late.

A restart makes the broker the leader of all partitions it has a directory for. The controller has one for every
partition of every topic, and a follower for every partition that it fetches.
-/

namespace KafGo.Server
open Lib Coordinator Storage

structure Cluster where
  ids : List Int
  brokers : List Broker
  records : List MetadataRecord
  nextId : Uuid

inductive ClusterAction where
  | createTopic (d : CreateTopicData) (reachable : Int → Bool)
  | register (brokerId : Int) (host : String) (port epoch : Int)
  | apply (brokerId : Int) (index : Nat) (reachable : Bool)
  | restart (brokerId : Int)

namespace Cluster

def new (ids : List Int) : Cluster :=
  ⟨ids, ids.map fun id => (newServer id ids []).start, [], clusterMetadataTopicID + 1⟩

def controller (c : Cluster) : Option Broker := c.brokers.find? (·.isController)

def set (c : Cluster) (b : Broker) : Cluster := { c with brokers := insertKey (·.brokerID) c.brokers b }

def createTopic (c : Cluster) (d : CreateTopicData) (reachable : Int → Bool) : Option Cluster :=
  c.controller.map fun b =>
    if validateTopicData d = 0 then
      let (b, records) := b.createTopic c.nextId d reachable
      { c.set b with records := c.records ++ records, nextId := c.nextId + 1 }
    else c

def register (c : Cluster) (brokerId : Int) (host : String) (port epoch : Int) : Option Cluster :=
  c.controller.bind fun b =>
    if brokerId ∈ c.ids then
      some { c.set (b.registerBroker brokerId) with records := c.records ++ [.broker brokerId host port epoch] }
    else none

def apply (c : Cluster) (brokerId : Int) (index : Nat) (reachable : Bool) : Option Cluster :=
  (lookupKey (·.brokerID) c.brokers brokerId).bind fun b =>
    if b.isController then none
    else c.records[index]?.map fun record => c.set (b.applyMetadataRecord reachable record)

def restart (c : Cluster) (brokerId : Int) : Option Cluster :=
  (lookupKey (·.brokerID) c.brokers brokerId).map fun b => c.set (newServer b.brokerID c.ids b.disk).start

end Cluster

def cluster : Machine Cluster ClusterAction where
  start := fun c => ∃ ids : List Int, ids.Nodup ∧ c = .new ids
  step := fun
    | .createTopic d reachable, c => c.createTopic d reachable
    | .register brokerId host port epoch, c => c.register brokerId host port epoch
    | .apply brokerId index reachable, c => c.apply brokerId index reachable
    | .restart brokerId, c => c.restart brokerId

namespace MetadataRecord

def creates : MetadataRecord → Option String
  | .topic _ name _ _ => some name
  | _ => none

def assigns (topicId : Option Uuid) (partition leader : Int) : MetadataRecord → Bool
  | .partition id partitionId leader' _ _ _ => decide (topicId = some id ∧ partition = partitionId ∧ leader = leader')
  | _ => false

end MetadataRecord

/-- No topic is created twice. -/
def Distinct (c : Cluster) : ClusterAction → Prop
  | .createTopic d _ => validateTopicData d = 0 → ∀ record ∈ c.records, record.creates ≠ some d.name
  | _ => True

/-- A broker restarts only if the metadata log makes it the leader of every partition it has a directory for. -/
def Owned (c : Cluster) : ClusterAction → Prop
  | .restart brokerId => ∀ b ∈ c.brokers, b.brokerID = brokerId → ∀ dir ∈ b.disk, ∀ topicMeta ∈ dir.metaFile,
      ∀ part ∈ dir.partitions, ∃ record ∈ c.records,
        record.assigns topicMeta.topicId (parsePartitionIndex part.name topicMeta.name) brokerId = true
  | _ => True

instance (c : Cluster) : DecidablePred (Distinct c)
  | .createTopic d _ =>
      inferInstanceAs (Decidable (validateTopicData d = 0 → ∀ record ∈ c.records, record.creates ≠ some d.name))
  | .register _ _ _ _ | .apply _ _ _ | .restart _ => inferInstanceAs (Decidable True)

instance (c : Cluster) : DecidablePred (Owned c)
  | .restart brokerId => inferInstanceAs (Decidable (∀ b ∈ c.brokers, b.brokerID = brokerId → ∀ dir ∈ b.disk,
      ∀ topicMeta ∈ dir.metaFile, ∀ part ∈ dir.partitions, ∃ record ∈ c.records,
        record.assigns topicMeta.topicId (parsePartitionIndex part.name topicMeta.name) brokerId = true))
  | .createTopic _ _ | .register _ _ _ _ | .apply _ _ _ => inferInstanceAs (Decidable True)

def Broker.leads (b : Broker) (topicName : String) (partition : Int) : Bool :=
  (b.partitionStates.getPartitionState topicName partition).any fun e => decide (e.ps.leaderBrokerID = b.brokerID)

/-! ### All brokers follow one plan -/

structure Planned (plan : Plan) (c : Cluster) : Prop where
  distinct : c.ids.Nodup
  members : c.brokers.map (·.brokerID) = c.ids
  follows : ∀ b ∈ c.brokers, Follows plan c.ids b
  records : ∀ record ∈ c.records, plan.Lists c.ids record
  fresh : ∀ topicId name, plan.names topicId = some name → topicId < c.nextId
  metadataName : plan.names clusterMetadataTopicID = some clusterMetadata
  metadataLeader : plan.leaders clusterMetadata 0 = some (lowestID c.ids)
  created : ∀ name n leader, plan.leaders name n = some leader →
    name = clusterMetadata ∧ n = 0 ∨ ∃ record ∈ c.records, record.creates = some name

def firstPlan (ids : List Int) : Plan where
  names := fun topicId => if topicId = clusterMetadataTopicID then some clusterMetadata else none
  leaders := fun name n => if name = clusterMetadata ∧ n = 0 then some (lowestID ids) else none

theorem newServer_start_brokerID (id : Int) (ids : List Int) (disk : Disk) :
    (newServer id ids disk).start.brokerID = id :=
  (Broker.start_brokerID _).trans (newServer_fresh id ids disk).2.2.1

theorem new_planned {ids : List Int} (distinct : ids.Nodup) : Planned (firstPlan ids) (.new ids) where
  distinct := distinct
  members := by
    simp only [Cluster.new, List.map_map]
    refine (List.map_congr_left fun id _ => ?_).trans (List.map_id _)
    exact newServer_start_brokerID id ids []
  follows := by
    intro b member
    obtain ⟨id, inside, rfl⟩ := List.mem_map.mp member
    exact follows_start inside nofun nofun rfl rfl
  records := nofun
  fresh := by
    intro topicId name named
    simp only [firstPlan] at named
    split at named
    · rename_i same
      rw [same]
      exact Nat.lt_succ_self _
    · cases named
  metadataName := rfl
  metadataLeader := rfl
  created := by
    intro name n leader chosen
    simp only [firstPlan] at chosen
    split at chosen
    · rename_i same
      exact .inl same
    · cases chosen

section Steps

variable {c c' : Cluster} {plan : Plan}

theorem Planned.set (planned : Planned plan c) {b b' : Broker} (member : b ∈ c.brokers)
    (own : b'.brokerID = b.brokerID) (follows : Follows plan c.ids b') : Planned plan (c.set b') where
  distinct := planned.distinct
  members := by
    refine (keys_insertKey b').trans ?_
    rw [if_pos (own ▸ List.mem_map_of_mem member)]
    exact planned.members
  follows := forall_insertKey planned.follows follows
  records := planned.records
  fresh := planned.fresh
  metadataName := planned.metadataName
  metadataLeader := planned.metadataLeader
  created := planned.created

theorem restart_planned (planned : Planned plan c) {brokerId : Int} (owned : Owned c (.restart brokerId))
    (moved : c.restart brokerId = some c') : Planned plan c' := by
  obtain ⟨b, found, rfl⟩ := Option.map_eq_some_iff.mp moved
  obtain ⟨member, own⟩ := lookupKey_some found
  have follows := planned.follows b member
  apply planned.set member (newServer_start_brokerID ..)
  apply follows_start
  · rw [← planned.members]
    exact List.mem_map_of_mem member
  · exact follows.metas
  · intro dir inside topicMeta read part partInside
    obtain ⟨record, published, assigns⟩ := owned b member own dir inside topicMeta read part partInside
    have lists := planned.records record published
    cases record with
    | partition topicId partitionId leader =>
      obtain ⟨parsed, rfl, rfl⟩ := of_decide_eq_true assigns
      obtain ⟨name, n, named, index, chosen⟩ := lists
      have same : name = topicMeta.name :=
        Option.some.inj (named.symm.trans (follows.metas dir inside topicMeta read topicId parsed))
      exact ⟨n, index, by rw [← same, own]; exact chosen⟩
    | broker | topic | producerIds => cases assigns
  · exact planned.metadataName
  · exact planned.metadataLeader

theorem apply_planned (planned : Planned plan c) {brokerId : Int} {index : Nat} {reachable : Bool}
    (moved : c.apply brokerId index reachable = some c') : Planned plan c' := by
  obtain ⟨b, found, moved⟩ := Option.bind_eq_some_iff.mp moved
  split at moved
  · cases moved
  · obtain ⟨record, published, rfl⟩ := Option.map_eq_some_iff.mp moved
    have member := (lookupKey_some found).1
    apply planned.set member (applyMetadataRecord_brokerID ..)
    exact follows_apply (planned.follows b member) (planned.records record (List.mem_of_getElem? published)) reachable

theorem controller_mem {b : Broker} (found : c.controller = some b) : b ∈ c.brokers ∧ b.isController = true :=
  ⟨List.mem_of_find?_eq_some found, List.find?_some found⟩

theorem register_planned (planned : Planned plan c) {brokerId : Int} {host : String} {port epoch : Int}
    (moved : c.register brokerId host port epoch = some c') : Planned plan c' := by
  obtain ⟨b, found, moved⟩ := Option.bind_eq_some_iff.mp moved
  split at moved
  · rename_i inside
    obtain rfl := Option.some.inj moved
    have member := (controller_mem found).1
    have lists : plan.Lists c.ids (.broker brokerId host port epoch) := inside
    have set := planned.set member (applyMetadataRecord_brokerID b true _)
      (follows_apply (planned.follows b member) lists true)
    refine ⟨set.distinct, set.members, set.follows, ?_, set.fresh, set.metadataName, set.metadataLeader, ?_⟩
    · exact List.forall_mem_append.mpr ⟨planned.records, List.forall_mem_singleton.mpr lists⟩
    · intro name n leader chosen
      refine (planned.created name n leader chosen).imp_right ?_
      rintro ⟨record, published, creates⟩
      exact ⟨record, List.mem_append_left _ published, creates⟩
  · cases moved

theorem controller_leader (planned : Planned plan c) {b : Broker} (found : c.controller = some b)
    {replicationFactor : Int} (positive : 0 < replicationFactor) :
    chosenLeader b.knownBrokers replicationFactor 0 = lowestID c.ids := by
  obtain ⟨member, controls⟩ := controller_mem found
  have registered := (planned.follows b member).registered
  have own : b.brokerID ∈ b.brokers := by
    rw [registered, ← planned.members]
    exact List.mem_map_of_mem member
  have head := controller_first own controls
  apply chosenLeader_first ?_ positive
  rw [← lowestID_congr registered, ← head, Broker.knownBrokers]
  split
  · rename_i none
    rw [List.length_eq_zero_iff.mp none] at head
    cases head
  · rfl

theorem planned_create (planned : Planned plan c) {d : CreateTopicData} {brokerIDs : List Int}
    {records : List MetadataRecord} (grows : plan.Grows (plan.create c.nextId d brokerIDs))
    (lists : ∀ record ∈ records, (plan.create c.nextId d brokerIDs).Lists c.ids record)
    (creates : ∃ record ∈ records, record.creates = some d.name) :
    Planned (plan.create c.nextId d brokerIDs) { c with records := c.records ++ records, nextId := c.nextId + 1 } where
  distinct := planned.distinct
  members := planned.members
  follows := fun b member => (planned.follows b member).grow grows
  records := List.forall_mem_append.mpr ⟨fun record published => (planned.records record published).grow grows, lists⟩
  fresh := by
    intro topicId name known
    by_cases new : topicId = c.nextId
    · rw [new]
      exact Nat.lt_succ_self _
    · have known : plan.names topicId = some name := (Function.update_of_ne new ..).symm.trans known
      exact Nat.lt_succ_of_lt (planned.fresh topicId name known)
  metadataName := grows.1 _ _ planned.metadataName
  metadataLeader := grows.2 _ _ _ planned.metadataLeader
  created := by
    intro name n leader leads
    simp only [Plan.create] at leads
    split at leads
    · rename_i new
      obtain ⟨record, published, creates⟩ := creates
      exact .inr ⟨record, List.mem_append_right _ published, new.1 ▸ creates⟩
    · refine (planned.created name n leader leads).imp_right ?_
      rintro ⟨record, published, creates⟩
      exact ⟨record, List.mem_append_left _ published, creates⟩

theorem createTopic_planned (planned : Planned plan c) {d : CreateTopicData} {reachable : Int → Bool}
    (distinct : Distinct c (.createTopic d reachable)) (moved : c.createTopic d reachable = some c') :
    ∃ plan', Planned plan' c' := by
  obtain ⟨b, found, result⟩ := Option.map_eq_some_iff.mp moved
  split at result
  · rename_i valid
    obtain rfl := result
    have member := (controller_mem found).1
    have fresh : plan.names c.nextId = none := by
      cases named : plan.names c.nextId with
      | none => rfl
      | some name => exact absurd (planned.fresh c.nextId name named) (Nat.lt_irrefl _)
    have agrees : ∀ n leader, plan.leaders d.name n = some leader →
        leader = chosenLeader b.knownBrokers d.replicationFactor n := by
      intro n leader chosen
      rcases planned.created d.name n leader chosen with ⟨metadata, rfl⟩ | ⟨record, published, creates⟩
      · -- a topic with the name of the metadata topic has the controller for partition 0
        rw [metadata] at chosen
        rw [controller_leader planned found (validateTopicData_positive valid).2]
        exact Option.some.inj (chosen.symm.trans planned.metadataLeader)
      · exact absurd creates (distinct valid record published)
    have grows := create_grows fresh agrees
    have named : (plan.create c.nextId d b.knownBrokers).names c.nextId = some d.name := Function.update_self ..
    have chosen : ∀ n < d.numPartitions.toNat, (plan.create c.nextId d b.knownBrokers).leaders d.name n =
        some (chosenLeader b.knownBrokers d.replicationFactor n) := fun n inside => if_pos ⟨rfl, inside⟩
    have grown := planned_create planned grows (createTopic_records (b := b) named chosen reachable)
      ⟨_, List.mem_cons_self, rfl⟩
    refine ⟨_, grown.set member (createTopic_same b c.nextId d reachable).1 ?_⟩
    exact follows_createTopic ((planned.follows b member).grow grows) named chosen reachable
  · exact ⟨plan, result ▸ planned⟩

end Steps

theorem step_planned {c c' : Cluster} {a : ClusterAction} (planned : ∃ plan, Planned plan c)
    (permitted : Distinct c a ∧ Owned c a) (moves : cluster.step a c = some c') : ∃ plan, Planned plan c' := by
  obtain ⟨plan, planned⟩ := planned
  cases a with
  | createTopic => exact createTopic_planned planned permitted.1 moves
  | register => exact ⟨plan, register_planned planned moves⟩
  | apply => exact ⟨plan, apply_planned planned moves⟩
  | restart => exact ⟨plan, restart_planned planned permitted.2 moves⟩

theorem reached_planned {c : Cluster} (reached : cluster.Reached (fun c a => Distinct c a ∧ Owned c a) c) :
    ∃ plan, Planned plan c := by
  refine Machine.reached_invariant (fun c => ∃ plan, Planned plan c) ?_ ?_ reached
  · rintro _ ⟨ids, distinct, rfl⟩
    exact ⟨firstPlan ids, new_planned distinct⟩
  · intro c a c' planned permitted moves
    exact step_planned planned permitted moves

theorem leads_chosen {plan : Plan} {ids : List Int} {b : Broker} (follows : Follows plan ids b) {topicName : String}
    {partition : Int} (leads : b.leads topicName partition = true) :
    ∃ name n, plan.leaders name n = some b.brokerID ∧ partitionKey topicName partition = partitionKey name n := by
  obtain ⟨e, found, own⟩ := (Option.any_eq_true _ _).mp leads
  obtain ⟨name, n, chosen, key⟩ := follows.states _ e found
  exact ⟨name, n, of_decide_eq_true own ▸ chosen, key⟩

/-- If brokers restart only with directories of partitions that they lead, no two brokers lead the same partition. -/
theorem one_leader {c : Cluster} (reached : cluster.Reached (fun c a => Distinct c a ∧ Owned c a) c) {i j : Nat}
    {b b' : Broker} (here : c.brokers[i]? = some b) (there : c.brokers[j]? = some b') {topicName : String}
    {partition : Int} (leads : b.leads topicName partition = true) (leads' : b'.leads topicName partition = true) :
    i = j := by
  obtain ⟨plan, planned⟩ := reached_planned reached
  obtain ⟨name, n, chosen, key⟩ := leads_chosen (planned.follows b (List.mem_of_getElem? here)) leads
  obtain ⟨name', n', chosen', key'⟩ := leads_chosen (planned.follows b' (List.mem_of_getElem? there)) leads'
  obtain ⟨rfl, rfl⟩ := numbered_injective (by decide) (key.symm.trans key')
  have same : b.brokerID = b'.brokerID := Option.some.inj (chosen.symm.trans chosen')
  have first : c.ids[i]? = some b.brokerID := by rw [← planned.members, List.getElem?_map, here, Option.map_some]
  have second : c.ids[j]? = some b.brokerID := by rw [← planned.members, List.getElem?_map, there,
    Option.map_some, same]
  obtain ⟨inside, _⟩ := List.getElem?_eq_some_iff.mp first
  exact (List.getElem?_inj inside planned.distinct).mp (first.trans second.symm)

def oneTopic (numPartitions : Int) : ClusterAction := .createTopic ⟨"t", numPartitions, 1, []⟩ fun _ => true

/-- The controller restarts with a topic of which it leads the only partition. -/
theorem one_leader_restart : ∃ c b, cluster.Reached (fun c a => Distinct c a ∧ Owned c a) c ∧
    c.brokers[0]? = some b ∧ b.leads "t" 0 = true ∧
      ∀ j b', c.brokers[j]? = some b' → b'.leads "t" 0 = true → 0 = j := by
  have schedule := cluster.exec_reaches (fun c a => Distinct c a ∧ Owned c a)
    (fun c a => decide (Distinct c a ∧ Owned c a))
    (fun _ _ => of_decide_eq_true) [oneTopic 1, .apply 2 0 true, .apply 2 1 true, .restart 1]
    (fun c => c.brokers[0]?.any (·.leads "t" 0)) ⟨[1, 2], by decide, rfl⟩ (by decide +kernel)
  obtain ⟨c, reached, leads⟩ := schedule
  obtain ⟨b, here, leads⟩ := (Option.any_eq_true _ _).mp leads
  exact ⟨c, b, reached, here, leads, fun j b' there leads' => one_leader reached here there leads leads'⟩

/-- Broker 2 leads the second partition. The controller has its directory too, and leads it after a restart. -/
theorem two_leaders : ∃ c b b', cluster.Reached Distinct c ∧ c.brokers[0]? = some b ∧ c.brokers[1]? = some b' ∧
    b.brokerID = 1 ∧ b'.brokerID = 2 ∧ b.leads "t" 1 = true ∧ b'.leads "t" 1 = true := by
  have schedule := cluster.exec_reaches Distinct (fun c a => decide (Distinct c a)) (fun _ _ => of_decide_eq_true)
    [oneTopic 2, .apply 2 0 true, .apply 2 1 true, .apply 2 2 true, .restart 1]
    (fun c => c.brokers[0]?.any (fun b => decide (b.brokerID = 1) && b.leads "t" 1) &&
      c.brokers[1]?.any (fun b => decide (b.brokerID = 2) && b.leads "t" 1)) ⟨[1, 2], by decide, rfl⟩
        (by decide +kernel)
  obtain ⟨c, reached, both⟩ := schedule
  obtain ⟨first, second⟩ := Bool.and_eq_true_iff.mp both
  obtain ⟨b, here, leads⟩ := (Option.any_eq_true _ _).mp first
  obtain ⟨b', there, leads'⟩ := (Option.any_eq_true _ _).mp second
  obtain ⟨own, leads⟩ := Bool.and_eq_true_iff.mp leads
  obtain ⟨own', leads'⟩ := Bool.and_eq_true_iff.mp leads'
  exact ⟨c, b, b', reached, here, there, of_decide_eq_true own, of_decide_eq_true own', leads, leads'⟩

end KafGo.Server
