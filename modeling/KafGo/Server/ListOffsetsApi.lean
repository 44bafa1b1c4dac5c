import KafGo.Server.FetchApi
import Mathlib.Order.Bounds.Defs

/-!
# Offset queries

`HandleListOffsetsApi` tells a consumer where to begin. What it calls the latest offset is that of the last record,
which a fetch still finds, and not the next one to be written. A client that asks for the offset of a point in time is
given the next one.
-/

namespace KafGo.Server
open Lib Coordinator Storage Wire

def listOffsetsLatest : Int64 := -1

def listOffsetsEarliest : Int64 := -2

structure ListOffsetsResponsePartition where
  partitionIndex : Int32
  errorCode : Int
  timestamp : Int
  offset : Int
  leaderEpoch : Int

structure ListOffsetsResponseTopic where
  name : String
  partitions : List ListOffsetsResponsePartition

def listedId (t : TopicStore) (topicName : String) : Uuid := ((t.getTopicByName topicName).map TopicData.topicId).getD 0

def listPartition (t : TopicStore) (topicId : Uuid) (partition : ListOffsetsPartition) : ListOffsetsResponsePartition :=
  let partResp : ListOffsetsResponsePartition := ⟨partition.partitionIndex, 0, -1, 0, 0⟩
  match t.getCommitLog topicId partition.partitionIndex.toInt with
  | none => { partResp with errorCode := errUnknownTopicOrPartition, offset := -1 }
  | some log =>
    if partition.timestamp = listOffsetsEarliest then { partResp with offset := log.oldestOffset }
    else if partition.timestamp = listOffsetsLatest then { partResp with offset := log.newestOffset }
    else { partResp with offset := log.newestOffset + 1 }

def handleListOffsets (t : TopicStore) (topics : List (String × List ListOffsetsPartition)) :
    List ListOffsetsResponseTopic :=
  topics.map fun topic => ⟨topic.1, topic.2.map (listPartition t (listedId t topic.1))⟩

section Found

variable {c : CommitLog} {layout : List (List StoredBatch)} {next : Nat}

theorem longestRun_pos {maxBytes size : Int} {n : Nat} {lens : List Nat} (positive : 0 < n)
    (longest : LongestRun maxBytes (n :: lens) size) : 0 < size := by
  obtain ⟨k, one, _, sum, _⟩ := longest
  obtain ⟨j, rfl⟩ : ∃ j, k = j + 1 := ⟨k - 1, by omega⟩
  rw [List.take_succ_cons, List.sum_cons] at sum
  omega

theorem findRecords_inside (holds : c.Holds layout next) (small : ∀ s ∈ c.segments, s.logFile.length < 2 ^ 32)
    {off : Nat} (inside : off < next) {maxBytes : Int} (budget : 0 < maxBytes) :
    ∃ reg, c.findRecords off maxBytes = .ok (some reg) ∧ 0 < reg.size := by
  obtain ⟨i, s, base, pre, g, post, located⟩ := linked_locate holds.linked (Nat.zero_le off) inside
  have high : (off : Int) < c.nextOffset := by
    rw [holds.next]
    exact Int.ofNat_lt.mpr inside
  obtain ⟨n, short, aim⟩ := lookup_boundary located.holds (by simp) (small s (List.mem_of_getElem? located.found)) off
  obtain ⟨p, h, q, st, split, found, start, _⟩ := findStart_stops located.holds.file short aim
    (located_before located) located.high (located_after located)
  obtain ⟨size, answer, longest⟩ := findRecords_from holds.opened high budget located found start split
  exact ⟨_, answer, longestRun_pos (Nat.lt_of_lt_of_le (by decide) h.length_pos) longest⟩

theorem findRecords_negative (holds : c.Holds layout next) {off : Int} (negative : off < 0) (maxBytes : Int) :
    c.findRecords off maxBytes = .ok none := by
  have above : ∀ i < c.segments.length, c.segmentProbe off i = .gt := by
    intro i below
    have low := (linked_bounds holds.linked).2 _ (List.getElem_mem below)
    unfold CommitLog.segmentProbe
    rw [List.getD_eq_getElem?_getD, List.getElem?_eq_getElem below, Option.getD_some, if_neg (by omega)]
  have nowhere : c.findSegmentByOffset off = -1 := by
    refine (bisect_floor (k := 0) (Nat.zero_le _) ?_ ?_).trans rfl
    · intro i below
      simp [above i below]
    · intro i below hit
      cases (above i below).symm.trans hit
  unfold CommitLog.findRecords
  rw [holds.opened, if_neg (by decide)]
  split
  · rfl
  · rw [nowhere]
    rfl

def foundOffsets (c : CommitLog) : Set Int :=
  {off | ∀ maxBytes > 0, ∃ reg, c.findRecords off maxBytes = .ok (some reg) ∧ reg.bytes ≠ []}

theorem mem_found (intact : Intact c) (off : Int) :
    off ∈ foundOffsets c ↔ c.oldestOffset ≤ off ∧ off ≤ c.newestOffset := by
  obtain ⟨layout, next, holds⟩ := intact.whole
  rw [oldestOffset_holds holds, CommitLog.newestOffset, holds.next]
  constructor
  · intro served
    obtain ⟨reg, answer, _⟩ := served 1 (by decide)
    refine ⟨?_, ?_⟩
    · by_contra negative
      rw [findRecords_negative holds (by omega)] at answer
      cases answer
    · by_contra past
      have past : off ≥ c.nextOffset := by
        rw [holds.next]
        omega
      simp only [CommitLog.findRecords, if_pos past, ite_self] at answer
      cases answer
  · rintro ⟨low, high⟩ maxBytes budget
    obtain ⟨n, rfl⟩ := Int.eq_ofNat_of_zero_le low
    have inside : n < next := by omega
    obtain ⟨reg, found, positive⟩ := findRecords_inside holds intact.small inside budget
    obtain ⟨fs, whole, _⟩ := findRecords_whole holds intact.small found
    obtain ⟨before, tail, file, start⟩ := whole.bytes
    refine ⟨reg, found, fun empty => ?_⟩
    rw [bytes_batches file start whole.size] at empty
    rw [whole.size, empty] at positive
    cases positive

end Found

/-- The first offset, the last one or the one behind it. An empty log has neither. -/
def Extreme (c : CommitLog) (timestamp : Int64) (offset : Int) : Prop :=
  if timestamp = listOffsetsEarliest then IsLeast (foundOffsets c) offset ∨ foundOffsets c = ∅ ∧ offset = 0
  else if timestamp = listOffsetsLatest then IsGreatest (foundOffsets c) offset ∨ foundOffsets c = ∅ ∧ offset = -1
  else IsLeast {off | 0 ≤ off ∧ off ∉ foundOffsets c} offset

def ListReport (t : TopicStore) (topicId : Uuid) (partition : ListOffsetsPartition)
    (resp : ListOffsetsResponsePartition) :
    Prop :=
  resp.partitionIndex = partition.partitionIndex ∧
    match t.getCommitLog topicId partition.partitionIndex.toInt with
    | none => resp.errorCode = errUnknownTopicOrPartition ∧ resp.offset = -1
    | some c => resp.errorCode = 0 ∧ Extreme c partition.timestamp resp.offset

theorem found_empty {c : CommitLog} (intact : Intact c) (empty : c.newestOffset < c.oldestOffset) :
    foundOffsets c = ∅ := by
  refine Set.eq_empty_iff_forall_notMem.mpr fun off member => ?_
  obtain ⟨low, high⟩ := (mem_found intact off).mp member
  omega

theorem oldest_extreme {c : CommitLog} (intact : Intact c) :
    IsLeast (foundOffsets c) c.oldestOffset ∨ foundOffsets c = ∅ ∧ c.oldestOffset = 0 := by
  obtain ⟨layout, next, holds⟩ := intact.whole
  by_cases empty : c.newestOffset < c.oldestOffset
  · exact .inr ⟨found_empty intact empty, oldestOffset_holds holds⟩
  · refine .inl ⟨(mem_found intact _).mpr ⟨Int.le_refl _, by omega⟩, ?_⟩
    exact fun off member => ((mem_found intact off).mp member).1

theorem newest_extreme {c : CommitLog} (intact : Intact c) :
    IsGreatest (foundOffsets c) c.newestOffset ∨ foundOffsets c = ∅ ∧ c.newestOffset = -1 := by
  obtain ⟨layout, next, holds⟩ := intact.whole
  by_cases empty : c.newestOffset < c.oldestOffset
  · refine .inr ⟨found_empty intact empty, ?_⟩
    rw [oldestOffset_holds holds] at empty
    rw [CommitLog.newestOffset, holds.next] at empty ⊢
    omega
  · refine .inl ⟨(mem_found intact _).mpr ⟨by omega, Int.le_refl _⟩, ?_⟩
    exact fun off member => ((mem_found intact off).mp member).2

theorem next_extreme {c : CommitLog} (intact : Intact c) :
    IsLeast {off | 0 ≤ off ∧ off ∉ foundOffsets c} (c.newestOffset + 1) := by
  obtain ⟨layout, next, holds⟩ := intact.whole
  have oldest := oldestOffset_holds holds
  have newest : c.newestOffset + 1 = next := by
    rw [CommitLog.newestOffset, holds.next]
    omega
  refine ⟨⟨by omega, fun member => ?_⟩, ?_⟩
  · have high := ((mem_found intact _).mp member).2
    omega
  · rintro off ⟨low, missing⟩
    by_contra below
    exact missing ((mem_found intact off).mpr ⟨by omega, by omega⟩)

theorem listPartition_report {t : TopicStore}
    (intact : ∀ topicId partition log, t.getCommitLog topicId partition = some log → Intact log) (topicId : Uuid)
    (partition : ListOffsetsPartition) : ListReport t topicId partition (listPartition t topicId partition) := by
  unfold ListReport listPartition
  cases known : t.getCommitLog topicId partition.partitionIndex.toInt with
  | none => exact ⟨rfl, rfl, rfl⟩
  | some c =>
    have intact := intact topicId _ c known
    dsimp only [Extreme]
    split
    · exact ⟨rfl, rfl, oldest_extreme intact⟩
    · split
      · exact ⟨rfl, rfl, newest_extreme intact⟩
      · exact ⟨rfl, rfl, next_extreme intact⟩

/-- Every partition of a request is answered in its place. The earliest offset is the first one that a fetch finds, the
latest the last one that it finds, and for any other timestamp the answer is the first one that it does not find. -/
theorem listOffsets_extreme (s : Serving) (topics : List (String × List ListOffsetsPartition)) :
    List.Forall₂ (fun topic resp => resp.name = topic.1 ∧
      List.Forall₂ (ListReport s.broker.topicStore (listedId s.broker.topicStore topic.1)) topic.2 resp.partitions)
      topics (handleListOffsets s.broker.topicStore topics) := by
  refine List.forall₂_map_right_iff.mpr (List.forall₂_same.mpr ?_)
  intro topic _
  refine ⟨rfl, List.forall₂_map_right_iff.mpr (List.forall₂_same.mpr ?_)⟩
  intro partition _
  exact listPartition_report s.intact _ partition

/-- Two records: the first, the last and the next offset, and a topic that is not there. -/
theorem listOffsets_extreme_two :
    let asked (timestamp : Int64) : ListOffsetsPartition := ⟨0, 0, timestamp⟩
    let topics := [("t", [asked (-2), asked (-1), asked 1000]), ("u", [asked (-1)])]
    (handleListOffsets leaderServing.broker.topicStore topics).map
        (fun t => (t.name, t.partitions.map fun p => (p.errorCode, p.offset))) =
      [("t", [(0, 0), (0, 1), (0, 2)]), ("u", [(3, -1)])] ∧
    List.Forall₂ (fun topic resp => resp.name = topic.1 ∧ List.Forall₂ (ListReport leaderServing.broker.topicStore
      (listedId leaderServing.broker.topicStore topic.1)) topic.2 resp.partitions)
      topics (handleListOffsets leaderServing.broker.topicStore topics) :=
  ⟨by decide +kernel, listOffsets_extreme leaderServing _⟩

end KafGo.Server
