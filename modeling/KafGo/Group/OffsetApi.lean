import KafGo.Group.Offsets
import KafGo.Wire.Client

/-!
# Offset requests

`HandleOffsetCommitApi` and `HandleOffsetFetchApi`. A fetch reads one group after the other, with commits of other
connections in between, and collects the partitions of a group by their topic in a map.
-/

namespace KafGo.Group
open Lib Wire

structure OffsetCommitResponsePartition where
  partitionIndex : Int
  errorCode : Int

structure OffsetCommitResponseTopic where
  topic : Bytes
  partitions : List OffsetCommitResponsePartition

/-- A commit request with what the clock shows for each of its partitions. -/
structure CommitEvent where
  request : OffsetCommitRequest
  clock : Nat → Int

namespace CommitEvent

def commits (e : CommitEvent) : List CommitOffset :=
  e.request.topics.elems.flatMap fun t => t.partitions.elems.map fun p =>
    ⟨t.topic.bytes, p.partitionIndex.toInt, p.committedOffset.toInt, p.committedLeaderEpoch.toInt,
      p.committedMetadata.map Octets.bytes⟩

/-- Neither the generation nor the member of the request is used. -/
def call (e : CommitEvent) : CommitCall :=
  ⟨e.request.groupID.bytes, e.commits.zipIdx.map fun c => (c.1, e.clock c.2)⟩

end CommitEvent

def handleOffsetCommit (s : OffsetStore) (e : CommitEvent) : OffsetStore × List OffsetCommitResponseTopic :=
  (s.commitOffsets e.call, e.request.topics.elems.map fun t =>
    ⟨t.topic.bytes, t.partitions.elems.map fun p => ⟨p.partitionIndex.toInt, 0⟩⟩)

structure OffsetFetchResponsePartition where
  partitionIndex : Int
  committedOffset : Int
  committedLeaderEpoch : Int
  metadata : Option Bytes
  errorCode : Int
  deriving DecidableEq

structure OffsetFetchResponseTopic where
  topic : Bytes
  partitions : List OffsetFetchResponsePartition
  deriving DecidableEq

structure OffsetFetchResponseGroup where
  groupID : Bytes
  topics : List OffsetFetchResponseTopic
  errorCode : Int

/-- The order in which the entries of a map are visited. -/
structure MapOrder (α : Type) where
  visit : List α → List α
  each : ∀ entries, (visit entries).Perm entries

def FetchOffsetResult.part (res : FetchOffsetResult) : OffsetFetchResponsePartition :=
  ⟨res.partitionIdx, res.offset, res.leaderEpoch, res.metadata, 0⟩

def addResult (topicMap : List OffsetFetchResponseTopic) (res : FetchOffsetResult) : List OffsetFetchResponseTopic :=
  let rt := (lookupKey OffsetFetchResponseTopic.topic topicMap res.topicName).getD ⟨res.topicName, []⟩
  insertKey OffsetFetchResponseTopic.topic topicMap { rt with partitions := rt.partitions ++ [res.part] }

def groupQueries (g : OffsetFetchGroup) : List FetchOffsetQuery :=
  g.topics.elems.flatMap fun t => t.partitionIndexes.elems.map fun partIdx => ⟨t.topic.bytes, partIdx.toInt⟩

def fetchGroup (order : MapOrder OffsetFetchResponseTopic) (s : OffsetStore) (g : OffsetFetchGroup) :
    OffsetFetchResponseGroup :=
  let results := s.fetchOffsets g.groupID.bytes (groupQueries g)
  ⟨g.groupID.bytes, order.visit (results.foldl addResult []), 0⟩

/-- A group of a request, with the commits that are handled between the group before it and this one, and the order in
which its map is visited. -/
structure FetchTurn where
  events : List CommitEvent
  group : OffsetFetchGroup
  order : MapOrder OffsetFetchResponseTopic

def handleOffsetFetch : OffsetStore → List FetchTurn → OffsetStore × List OffsetFetchResponseGroup
  | s, [] => (s, [])
  | s, turn :: rest =>
    let s := turn.events.foldl (fun s e => (handleOffsetCommit s e).1) s
    let (s', groups) := handleOffsetFetch s rest
    (s', fetchGroup turn.order s turn.group :: groups)

/-! ### What a fetch reports -/

def resultsFor (results : List FetchOffsetResult) (name : Bytes) : List FetchOffsetResult :=
  results.filter fun res => decide (res.topicName = name)

theorem resultsFor_append (results : List FetchOffsetResult) (res : FetchOffsetResult) (name : Bytes) :
    resultsFor (results ++ [res]) name = resultsFor results name ++ if res.topicName = name then [res] else [] := by
  by_cases mine : res.topicName = name
  · simp [resultsFor, mine]
  · simp [resultsFor, mine]

theorem topicMap_entries (results : List FetchOffsetResult) :
    ((results.foldl addResult []).map OffsetFetchResponseTopic.topic).Nodup ∧
      ∀ name, lookupKey OffsetFetchResponseTopic.topic (results.foldl addResult []) name =
        if resultsFor results name = [] then none else some ⟨name,
          (resultsFor results name).map FetchOffsetResult.part⟩ := by
  induction results using List.reverseRecOn with
  | nil => exact ⟨List.nodup_nil, fun _ => rfl⟩
  | append_singleton results res ih =>
    obtain ⟨distinct, entries⟩ := ih
    rw [List.foldl_append, List.foldl_cons, List.foldl_nil]
    generalize results.foldl addResult [] = topicMap at distinct entries ⊢
    refine ⟨nodup_insertKey distinct _, ?_⟩
    intro name
    rw [resultsFor_append]
    -- the entry that the iteration writes
    have entry : (lookupKey OffsetFetchResponseTopic.topic topicMap res.topicName).getD ⟨res.topicName, []⟩ =
        ⟨res.topicName, (resultsFor results res.topicName).map FetchOffsetResult.part⟩ := by
      rw [entries]
      split
      · rename_i none
        rw [none]
        rfl
      · rfl
    unfold addResult
    rw [entry]
    dsimp only
    by_cases mine : res.topicName = name
    · subst mine
      have found : lookupKey OffsetFetchResponseTopic.topic (insertKey OffsetFetchResponseTopic.topic topicMap
          ⟨res.topicName, (resultsFor results res.topicName).map FetchOffsetResult.part ++ [res.part]⟩)
            res.topicName = _ :=
        lookupKey_insertKey_same _
      simp [found]
    · have other : lookupKey OffsetFetchResponseTopic.topic (insertKey OffsetFetchResponseTopic.topic topicMap
          ⟨res.topicName, (resultsFor results res.topicName).map FetchOffsetResult.part ++ [res.part]⟩) name = _ :=
        lookupKey_insertKey_other _ (Ne.symm mine)
      rw [other, entries, if_neg mine, List.append_nil]

/-- What the response says of a group after the calls: every requested topic with a partition once, and for it the
requested partitions in their order with the last commits. -/
structure GroupReport (calls : List CommitCall) (g : OffsetFetchGroup) (rg : OffsetFetchResponseGroup) : Prop where
  group : rg.groupID = g.groupID.bytes
  distinct : (rg.topics.map OffsetFetchResponseTopic.topic).Nodup
  topics : ∀ name, name ∈ rg.topics.map OffsetFetchResponseTopic.topic ↔
    ∃ t ∈ g.topics.elems, t.topic.bytes = name ∧ t.partitionIndexes.elems ≠ []
  partitions : ∀ t ∈ rg.topics, t.partitions =
    ((groupQueries g).filter fun q => decide (q.topicName = t.topic)).map fun q =>
      (q.answer (lastCommit calls g.groupID.bytes q.topicName q.partitionIdx)).part

theorem answer_topicName (q : FetchOffsetQuery) (c : Option CommitOffset) : (q.answer c).topicName = q.topicName := by
  cases c with
  | none => rfl
  | some c => rfl

theorem mem_groupQueries {g : OffsetFetchGroup} {name : Bytes} : (∃ q ∈ groupQueries g, q.topicName = name) ↔
    ∃ t ∈ g.topics.elems, t.topic.bytes = name ∧ t.partitionIndexes.elems ≠ [] := by
  unfold groupQueries
  constructor
  · rintro ⟨q, member, rfl⟩
    obtain ⟨t, inside, listed⟩ := List.mem_flatMap.mp member
    obtain ⟨partIdx, among, rfl⟩ := List.mem_map.mp listed
    exact ⟨t, inside, rfl, List.ne_nil_of_mem among⟩
  · rintro ⟨t, inside, rfl, some⟩
    obtain ⟨partIdx, among⟩ := List.exists_mem_of_ne_nil _ some
    exact ⟨_, List.mem_flatMap.mpr ⟨t, inside, List.mem_map_of_mem among⟩, rfl⟩

theorem fetchGroup_report (order : MapOrder OffsetFetchResponseTopic) (calls : List CommitCall) (g : OffsetFetchGroup) :
    GroupReport calls g (fetchGroup order (newOffsetStore.commitAll calls) g) := by
  have answers : (newOffsetStore.commitAll calls).fetchOffsets g.groupID.bytes (groupQueries g) =
      (groupQueries g).map fun q => q.answer (lastCommit calls g.groupID.bytes q.topicName q.partitionIdx) :=
    List.map_congr_left fun q _ => OffsetStore.commitAll_lastCommit calls g.groupID.bytes q
  have mine : ∀ name, resultsFor ((newOffsetStore.commitAll calls).fetchOffsets g.groupID.bytes (groupQueries g)) name =
      ((groupQueries g).filter fun q => decide (q.topicName = name)).map fun q =>
        q.answer (lastCommit calls g.groupID.bytes q.topicName q.partitionIdx) := by
    intro name
    rw [answers, resultsFor, List.filter_map]
    simp only [Function.comp_def, answer_topicName]
  obtain ⟨distinct, entries⟩ := topicMap_entries
    ((newOffsetStore.commitAll calls).fetchOffsets g.groupID.bytes (groupQueries g))
  have visited := order.each (((newOffsetStore.commitAll calls).fetchOffsets g.groupID.bytes (groupQueries g)).foldl
    addResult [])
  refine ⟨rfl, (visited.map _).nodup_iff.mpr distinct, ?_, ?_⟩
  · intro name
    refine (visited.map OffsetFetchResponseTopic.topic).mem_iff.trans ?_
    rw [← mem_groupQueries, ← not_iff_not, ← lookupKey_none, entries, mine]
    simp
  · intro t member
    have found := lookupKey_of_mem distinct (visited.mem_iff.mp member)
    rw [entries] at found
    split at found
    · cases found
    · rw [← congrArg OffsetFetchResponseTopic.partitions (Option.some.inj found), mine, List.map_map]
      rfl

def callsAlong (calls : List CommitCall) : List FetchTurn → List (List CommitCall × OffsetFetchGroup)
  | [] => []
  | turn :: rest =>
    (calls ++ turn.events.map CommitEvent.call, turn.group) :: callsAlong
      (calls ++ turn.events.map CommitEvent.call) rest

theorem commitAll_events (calls : List CommitCall) (events : List CommitEvent) :
    events.foldl (fun s e => (handleOffsetCommit s e).1) (newOffsetStore.commitAll calls) =
      newOffsetStore.commitAll (calls ++ events.map CommitEvent.call) := by
  unfold OffsetStore.commitAll
  rw [List.foldl_append, List.foldl_map]
  rfl

/-- Whatever was committed before and is committed meanwhile, each group of a response reports the last commits of its
group at one moment of the request. -/
theorem offsetFetch_reports (before : List CommitEvent) (request : List FetchTurn) :
    List.Forall₂ (fun moment rg => GroupReport moment.1 moment.2 rg) (callsAlong (before.map CommitEvent.call) request)
      (handleOffsetFetch (before.foldl (fun s e => (handleOffsetCommit s e).1) newOffsetStore) request).2 := by
  have reports : ∀ calls, List.Forall₂ (fun moment rg => GroupReport moment.1 moment.2 rg) (callsAlong calls request)
      (handleOffsetFetch (newOffsetStore.commitAll calls) request).2 := by
    induction request with
    | nil => exact fun _ => .nil
    | cons turn rest ih =>
      intro calls
      unfold handleOffsetFetch callsAlong
      rw [commitAll_events]
      exact .cons (fetchGroup_report turn.order _ turn.group) (ih _)
  have start := commitAll_events [] before
  rw [List.nil_append] at start
  have start : before.foldl (fun s e => (handleOffsetCommit s e).1) newOffsetStore = _ := start
  rw [start]
  exact reports _

def MapOrder.inserted {α : Type} : MapOrder α := ⟨id, fun _ => .refl _⟩

def MapOrder.reversed {α : Type} : MapOrder α := ⟨List.reverse, List.reverse_perm⟩

theorem letter_fits (b : UInt8) : [b].length ≤ 2 ^ 48 := by
  rw [List.length_singleton]
  decide

def letter (b : UInt8) : CompactString := ⟨[b], letter_fits b⟩

def commitOf (group : UInt8) (offset : Int64) : CommitEvent :=
  ⟨⟨letter group, 1, .nil, none, .one ⟨letter 97, .one ⟨0, offset, 3, none⟩⟩⟩, fun _ => 0⟩

def askedGroup (group : UInt8) : OffsetFetchGroup :=
  ⟨letter group, ⟨[⟨letter 97, .one 0⟩, ⟨letter 98, .one 0⟩], by decide⟩⟩

/-- Group 2 commits again while the request is handled, and the maps of the groups are visited in two orders. -/
theorem offsetFetch_reports_two :
    let before := [commitOf 1 5, commitOf 2 6]
    let request : List FetchTurn := [⟨[], askedGroup 1, .inserted⟩, ⟨[commitOf 2 7], askedGroup 2, .reversed⟩]
    let groups := (handleOffsetFetch (before.foldl (fun s e => (handleOffsetCommit s e).1) newOffsetStore) request).2
    groups.map (fun rg => rg.topics.map fun t => (t.topic, t.partitions.map (·.committedOffset))) =
        [[([97], [5]), ([98], [-1])], [([98], [-1]), ([97], [7])]] ∧
      List.Forall₂ (fun moment rg => GroupReport moment.1 moment.2 rg)
        (callsAlong (before.map CommitEvent.call) request)
        groups :=
  ⟨by decide +kernel, offsetFetch_reports _ _⟩

end KafGo.Group
