import KafGo.Lib.Keyed
import KafGo.Lib.NumberedName

/-!
# Committed offsets

The offsets that consumer groups commit, in a map for each group. The key of a partition is a text made of the topic
and the number of the partition. Topics are strings of any bytes, separators and digits among them.
-/

namespace KafGo.Group
open Lib

/-- `fmt.Sprintf("%s:%d", topicName, partitionIdx)`. -/
def offsetKey (topicName : Bytes) (partitionIdx : Int) : Bytes := numberedBytes 0x3a topicName partitionIdx

structure OffsetPartition where
  topicName : Bytes
  partitionIdx : Int
  offset : Int
  leaderEpoch : Int
  metadata : Option Bytes
  lastCommitTimestamp : Int

structure CommitOffset where
  topicName : Bytes
  partitionIdx : Int
  offset : Int
  leaderEpoch : Int
  metadata : Option Bytes
  deriving DecidableEq

structure FetchOffsetQuery where
  topicName : Bytes
  partitionIdx : Int

structure FetchOffsetResult where
  topicName : Bytes
  partitionIdx : Int
  offset : Int
  leaderEpoch : Int
  metadata : Option Bytes
  deriving DecidableEq

/-- The `offsets` of a `GroupStore`, which nothing else changes. -/
structure OffsetStore where
  offsets : Bytes → Option (Bytes → Option OffsetPartition)

def newOffsetStore : OffsetStore := ⟨fun _ => none⟩

def CommitOffset.stored (c : CommitOffset) (now : Int) : OffsetPartition :=
  ⟨c.topicName, c.partitionIdx, c.offset, c.leaderEpoch, c.metadata, now⟩

/-- A call of `CommitOffsets`. Each commit comes with what the loop reads from the clock for it. -/
structure CommitCall where
  groupId : Bytes
  commits : List (CommitOffset × Int)

namespace OffsetStore

def commitOffsets (s : OffsetStore) (call : CommitCall) : OffsetStore :=
  let partitions := (s.offsets call.groupId).getD fun _ => none
  ⟨Function.update s.offsets call.groupId (some (call.commits.foldl
    (fun partitions c => Function.update partitions (offsetKey c.1.topicName c.1.partitionIdx) (some (c.1.stored c.2)))
    partitions))⟩

def fetchOffset (partitions : Option (Bytes → Option OffsetPartition)) (q : FetchOffsetQuery) : FetchOffsetResult :=
  match partitions.bind fun partitions => partitions (offsetKey q.topicName q.partitionIdx) with
  | none => ⟨q.topicName, q.partitionIdx, -1, -1, none⟩
  | some op => ⟨q.topicName, q.partitionIdx, op.offset, op.leaderEpoch, op.metadata⟩

def fetchOffsets (s : OffsetStore) (groupId : Bytes) (queries : List FetchOffsetQuery) : List FetchOffsetResult :=
  queries.map (fetchOffset (s.offsets groupId))

def commitAll (s : OffsetStore) (calls : List CommitCall) : OffsetStore := calls.foldl commitOffsets s

end OffsetStore

/-! ### The last commit -/

def commitsOf (calls : List CommitCall) : List (Bytes × CommitOffset × Int) :=
  calls.flatMap fun call => call.commits.map fun c => (call.groupId, c)

def isFor (groupId topicName : Bytes) (partitionIdx : Int) (c : Bytes × CommitOffset × Int) : Bool :=
  decide (c.1 = groupId ∧ c.2.1.topicName = topicName ∧ c.2.1.partitionIdx = partitionIdx)

def lastCommit (calls : List CommitCall) (groupId topicName : Bytes) (partitionIdx : Int) : Option CommitOffset :=
  (lastWhere (isFor groupId topicName partitionIdx) (commitsOf calls)).map fun c => c.2.1

def FetchOffsetQuery.answer (q : FetchOffsetQuery) : Option CommitOffset → FetchOffsetResult
  | none => ⟨q.topicName, q.partitionIdx, -1, -1, none⟩
  | some c => ⟨q.topicName, q.partitionIdx, c.offset, c.leaderEpoch, c.metadata⟩

theorem offsetKey_injective {a b : Bytes} {p q : Int} (same : offsetKey a p = offsetKey b q) : a = b ∧ p = q :=
  numberedBytes_injective (by decide) same

namespace OffsetStore

def committed (s : OffsetStore) (groupId key : Bytes) : Option OffsetPartition :=
  (s.offsets groupId).bind fun partitions => partitions key

theorem commitOffsets_own (s : OffsetStore) (call : CommitCall) (key : Bytes) :
    (s.commitOffsets call).committed call.groupId key =
      ((lastWhere (fun c => decide (offsetKey c.1.topicName c.1.partitionIdx = key)) call.commits).map
        fun c => c.1.stored c.2).or (s.committed call.groupId key) := by
  have before : ((s.offsets call.groupId).getD fun _ => none) key = s.committed call.groupId key := by
    unfold committed
    cases s.offsets call.groupId <;> rfl
  unfold commitOffsets
  rw [← before, committed]
  dsimp only
  rw [Function.update_self, Option.bind_some]
  exact foldl_update (fun c => c.1.stored c.2) call.commits _ key

theorem commitOffsets_other (s : OffsetStore) {call : CommitCall} {groupId : Bytes} (other : groupId ≠ call.groupId)
    (key : Bytes) : (s.commitOffsets call).committed groupId key = s.committed groupId key := by
  unfold commitOffsets committed
  dsimp only
  rw [Function.update_of_ne other]

theorem commitAll_committed (calls : List CommitCall) (groupId key : Bytes) :
    (newOffsetStore.commitAll calls).committed groupId key =
      (lastWhere (fun c => decide (c.1 = groupId ∧ offsetKey c.2.1.topicName c.2.1.partitionIdx = key))
        (commitsOf calls)).map fun c => c.2.1.stored c.2.2 := by
  induction calls using List.reverseRecOn with
  | nil => rfl
  | append_singleton calls call ih =>
    have split : commitsOf (calls ++ [call]) = commitsOf calls ++ call.commits.map fun c => (call.groupId, c) := by
      simp [commitsOf]
    rw [commitAll, List.foldl_append, List.foldl_cons, List.foldl_nil, split, lastWhere_append, Option.map_or, ← ih]
    by_cases own : call.groupId = groupId
    · subst own
      rw [commitOffsets_own]
      congr 1
      rw [lastWhere_map, Option.map_map]
      simp only [Function.comp_def, true_and]
    · rw [commitOffsets_other _ (Ne.symm own)]
      have none : lastWhere (fun c => decide (c.1 = groupId ∧ offsetKey c.2.1.topicName c.2.1.partitionIdx = key))
          (call.commits.map fun c => (call.groupId, c)) = none := by
        apply lastWhere_none
        intro c member
        obtain ⟨c, _, rfl⟩ := List.mem_map.mp member
        simp [own]
      rw [none]
      rfl

theorem commitAll_lastCommit (calls : List CommitCall) (groupId : Bytes) (q : FetchOffsetQuery) :
    fetchOffset ((newOffsetStore.commitAll calls).offsets groupId) q =
      q.answer (lastCommit calls groupId q.topicName q.partitionIdx) := by
  have exact : (fun c : Bytes × CommitOffset × Int => decide (c.1 = groupId ∧
      offsetKey c.2.1.topicName c.2.1.partitionIdx = offsetKey q.topicName q.partitionIdx)) =
      isFor groupId q.topicName q.partitionIdx := by
    funext c
    apply decide_eq_decide.mpr
    constructor
    · rintro ⟨group, key⟩
      exact ⟨group, offsetKey_injective key⟩
    · rintro ⟨group, topic, partition⟩
      exact ⟨group, by rw [topic, partition]⟩
  have found := commitAll_committed calls groupId (offsetKey q.topicName q.partitionIdx)
  rw [exact] at found
  unfold fetchOffset lastCommit
  rw [committed] at found
  rw [found]
  cases lastWhere (isFor groupId q.topicName q.partitionIdx) (commitsOf calls) with
  | none => rfl
  | some c => rfl

end OffsetStore

theorem lastCommit_unrelated {before after : List CommitCall} {call : CommitCall} {groupId topicName : Bytes}
    {partitionIdx : Int}
    (unrelated : ∀ c ∈ call.commits, isFor groupId topicName partitionIdx (call.groupId, c) = false) :
    lastCommit (before ++ call :: after) groupId topicName partitionIdx =
      lastCommit (before ++ after) groupId topicName partitionIdx := by
  have none : lastWhere (isFor groupId topicName partitionIdx)
    (call.commits.map fun c => (call.groupId, c)) = none := by
    apply lastWhere_none
    intro c member
    obtain ⟨c, inside, rfl⟩ := List.mem_map.mp member
    exact unrelated c inside
  unfold lastCommit commitsOf
  rw [List.flatMap_append, List.flatMap_append, List.flatMap_cons, lastWhere_append, lastWhere_append, lastWhere_append,
    none, Option.or_none]

/-- Whatever the groups have committed, a query gets the last commit for its group, topic and partition. -/
theorem fetchOffsets_last (calls : List CommitCall) (groupId : Bytes) (queries : List FetchOffsetQuery) :
    (newOffsetStore.commitAll calls).fetchOffsets groupId queries =
        (queries.map fun q => q.answer (lastCommit calls groupId q.topicName q.partitionIdx)) ∧
      ∀ before call after, calls = before ++ call :: after →
        (∀ q ∈ queries, ∀ c ∈ call.commits, isFor groupId q.topicName q.partitionIdx (call.groupId, c) = false) →
        (newOffsetStore.commitAll calls).fetchOffsets groupId queries =
          (newOffsetStore.commitAll (before ++ after)).fetchOffsets groupId queries := by
  have answers : ∀ calls, (newOffsetStore.commitAll calls).fetchOffsets groupId queries =
      queries.map fun q => q.answer (lastCommit calls groupId q.topicName q.partitionIdx) :=
    fun calls => List.map_congr_left fun q _ => OffsetStore.commitAll_lastCommit calls groupId q
  refine ⟨answers calls, ?_⟩
  rintro before call after rfl unrelated
  rw [answers, answers]
  apply List.map_congr_left
  intro q member
  rw [lastCommit_unrelated (unrelated q member)]

def colons : List CommitCall :=
  [⟨[0x67], [(⟨[0x61, 0x3a, 0x31], 2, 7, 0, none⟩, 100), (⟨[0x61], -1, 9, 3, some [0x6d]⟩, 100),
    (⟨[0x61, 0x3a, 0x31], 2, 8, 1, none⟩, 101)]⟩, ⟨[0x68], [(⟨[0x61], -1, 5, 0, none⟩, 102)]⟩]

theorem fetchOffsets_last_colons : (commitsOf colons).length = 4 ∧
    (newOffsetStore.commitAll colons).fetchOffsets [0x67] [⟨[0x61], -1⟩, ⟨[0x61, 0x3a, 0x31], 2⟩, ⟨[0x61], 1⟩] =
      [⟨[0x61], -1, 9, 3, some [0x6d]⟩, ⟨[0x61, 0x3a, 0x31], 2, 8, 1, none⟩, ⟨[0x61], 1, -1, -1, none⟩] := by
  refine ⟨rfl, ?_⟩
  rw [(fetchOffsets_last colons _ _).1]
  decide

end KafGo.Group
