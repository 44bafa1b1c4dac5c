import KafGo.Storage.CommitLog

/-!
# Topics of a broker

The topics by id and by name, and the commit logs of their partitions. The source joins the topic id and the
partition into one key; an id always has 36 characters, so the pair is the same key.
-/

namespace KafGo.Storage

abbrev Uuid := Nat

def errInvalidTopicException : Int := 17
def errTopicAlreadyExists : Int := 36

structure TopicData where
  name : String
  topicId : Uuid
  numPartitions : Int
  replicationFactor : Int

/-- `meta.json`. An id that does not parse is `none`. -/
structure TopicMeta where
  name : String
  topicId : Option Uuid
  numPartitions : Int
  replicationFactor : Int
  minInsyncReplicas : Int

structure TopicStore where
  topics : Uuid → Option TopicData
  topicNames : String → Option Uuid
  commitLogs : Uuid → Int → Option CommitLog
  metas : Uuid → Option TopicMeta

def newTopicStore : TopicStore := ⟨fun _ => none, fun _ => none, fun _ _ => none, fun _ => none⟩

namespace TopicStore

def put (t : TopicStore) (data : TopicData) : TopicStore :=
  { t with
    topics := Function.update t.topics data.topicId (some data)
    topicNames := Function.update t.topicNames data.name (some data.topicId) }

def setTopicMeta (t : TopicStore) (topicId : Uuid) (topicMeta : TopicMeta) : TopicStore :=
  { t with metas := Function.update t.metas topicId (some topicMeta) }

def addCommitLog (t : TopicStore) (topicId : Uuid) (partition : Int) (log : CommitLog) : TopicStore :=
  { t with
    commitLogs := Function.update t.commitLogs topicId (Function.update (t.commitLogs topicId) partition (some log)) }

def getCommitLog (t : TopicStore) (topicId : Uuid) (partition : Int) :
    Option CommitLog := t.commitLogs topicId partition

def registerTopic (t : TopicStore) (topicId : Uuid) (name : String) (numPartitions : Int) : TopicStore :=
  if (t.topics topicId).isSome then t else t.put ⟨name, topicId, numPartitions, 1⟩

def addTopic (t : TopicStore) (data : TopicData) : Except Int TopicStore :=
  if (t.topics data.topicId).isSome then .error errTopicAlreadyExists else .ok (t.put data)

def getTopic (t : TopicStore) (topicId : Uuid) : Option TopicData := t.topics topicId

def getTopicByName (t : TopicStore) (topicName : String) : Option TopicData := (t.topicNames topicName).bind t.topics

/-- Recovery gives up on a topic for either error, an id that does not parse or one that is taken. -/
def addTopicMetadata (t : TopicStore) (topicMeta : TopicMeta) : Option (Uuid × TopicStore) :=
  match topicMeta.topicId with
  | none => none
  | some topicId =>
    if (t.topics topicId).isSome then none
    else some (topicId,
      (t.put ⟨topicMeta.name, topicId, topicMeta.numPartitions, topicMeta.replicationFactor⟩).setTopicMeta
        topicId topicMeta)

variable {t t' : TopicStore} {topicId topicId' : Uuid} {partition partition' : Int} {log : CommitLog}

theorem getCommitLog_add : (t.addCommitLog topicId partition log).getCommitLog topicId partition = some log := by
  simp only [getCommitLog, addCommitLog, Function.update_self]

theorem getCommitLog_add_other (other : topicId' ≠ topicId ∨ partition' ≠ partition) :
    (t.addCommitLog topicId partition log).getCommitLog topicId' partition' = t.getCommitLog topicId' partition' := by
  simp only [getCommitLog, addCommitLog]
  by_cases same : topicId' = topicId
  · subst same
    rw [Function.update_self, Function.update_of_ne (other.resolve_left (· rfl))]
  · rw [Function.update_of_ne same]

theorem registerTopic_absent (absent : t.topics topicId = none) (name : String) (numPartitions : Int) :
    (t.registerTopic topicId name numPartitions).getTopic topicId = some ⟨name, topicId, numPartitions, 1⟩ := by
  unfold registerTopic
  rw [absent]
  exact Function.update_self ..

theorem registerTopic_other (other : topicId' ≠ topicId) (name : String) (numPartitions : Int) :
    (t.registerTopic topicId name numPartitions).getTopic topicId' = t.getTopic topicId' := by
  unfold registerTopic
  split
  · rfl
  · exact Function.update_of_ne other ..

theorem registerTopic_getCommitLog (t : TopicStore) (topicId : Uuid) (name : String) (numPartitions : Int) :
    (t.registerTopic topicId name numPartitions).getCommitLog = t.getCommitLog := by
  unfold registerTopic
  split
  · rfl
  · rfl

theorem addTopicMetadata_some {topicMeta : TopicMeta} (added : t.addTopicMetadata topicMeta = some (topicId, t')) :
    topicMeta.topicId = some topicId ∧ t.topics topicId = none ∧ t' =
      (t.put ⟨topicMeta.name, topicId, topicMeta.numPartitions, topicMeta.replicationFactor⟩).setTopicMeta topicId
        topicMeta := by
  unfold addTopicMetadata at added
  split at added
  · cases added
  · rename_i id parsed
    split at added
    · cases added
    · rename_i absent
      obtain ⟨rfl, rfl⟩ := Prod.mk.inj (Option.some.inj added)
      exact ⟨parsed, Option.not_isSome_iff_eq_none.mp absent, rfl⟩

/-- Every name leads to a topic of that name, and the name of every topic leads back to it. -/
structure Paired (t : TopicStore) : Prop where
  named : ∀ name topicId, t.topicNames name = some topicId → ∃ data, t.topics topicId = some data ∧ data.name = name
  back : ∀ topicId data, t.topics topicId = some data → t.topicNames data.name = some topicId

theorem newTopicStore_paired : newTopicStore.Paired := ⟨fun _ _ => nofun, fun _ _ => nofun⟩

/-- The topics and their names are the same; logs and meta data may differ. -/
def SameNames (t t' : TopicStore) : Prop := t'.topics = t.topics ∧ t'.topicNames = t.topicNames

theorem Paired.same (paired : t.Paired) (same : t.SameNames t') : t'.Paired := by
  refine ⟨?_, ?_⟩
  · rw [same.1, same.2]
    exact paired.named
  · rw [same.1, same.2]
    exact paired.back

theorem paired_put_iff {data : TopicData} (paired : t.Paired) (absent : t.topics data.topicId = none) :
    (t.put data).Paired ↔ t.topicNames data.name = none := by
  have topics : ∀ id, id ≠ data.topicId → (t.put data).topics id = t.topics id := fun id other =>
    Function.update_of_ne other ..
  have names : ∀ name, name ≠ data.name → (t.put data).topicNames name = t.topicNames name := fun name other =>
    Function.update_of_ne other ..
  have topic : (t.put data).topics data.topicId = some data := Function.update_self ..
  have name : (t.put data).topicNames data.name = some data.topicId := Function.update_self ..
  have known : ∀ id old, t.topics id = some old → id ≠ data.topicId := by
    rintro id old found rfl
    exact absurd (absent.symm.trans found) nofun
  constructor
  · intro after
    by_contra taken
    obtain ⟨id, found⟩ := Option.ne_none_iff_exists'.mp taken
    obtain ⟨old, entry, same⟩ := paired.named data.name id found
    have other := known id old entry
    have back := after.back id old ((topics id other).trans entry)
    rw [same, name] at back
    exact other (Option.some.inj back).symm
  · intro unused
    refine ⟨?_, ?_⟩
    · intro name' id found
      by_cases same : name' = data.name
      · subst same
        obtain rfl := Option.some.inj (name.symm.trans found)
        exact ⟨data, topic, rfl⟩
      · rw [names name' same] at found
        obtain ⟨old, entry, named⟩ := paired.named name' id found
        exact ⟨old, (topics id (known id old entry)).trans entry, named⟩
    · intro id entry found
      by_cases same : id = data.topicId
      · subst same
        obtain rfl := Option.some.inj (topic.symm.trans found)
        exact name
      · rw [topics id same] at found
        have back := paired.back id entry found
        rw [names entry.name]
        · exact back
        · intro taken
          rw [taken, unused] at back
          cases back

end TopicStore

end KafGo.Storage
