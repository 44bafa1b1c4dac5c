import KafGo.Server.Broker
import KafGo.Wire.FetchReply
import KafGo.Wire.RoundTrip
import Mathlib.Data.List.Forall2

/-!
# Fetch requests

`HandleFetchApiKeys` looks at the partitions of a request one after the other, each with the states that those before
it have left behind, and sends the file regions that it has found. The logs of the broker hold whole batches, so a
region lies in its file and the frame is as long as it says.
-/

namespace KafGo.Server
open Lib Coordinator Storage Wire

/-- The log holds whole batches, in files below four gigabytes. -/
structure Intact (log : CommitLog) : Prop where
  whole : ∃ layout next, log.Holds layout next
  small : ∀ s ∈ log.segments, s.logFile.length < 2 ^ 32

structure Serving where
  broker : Broker
  intact : ∀ topicId partition log, broker.topicStore.getCommitLog topicId partition = some log → Intact log

def topicNumber (id : UUID) : Uuid := beNat id.bytes

theorem findRecords_file {log : CommitLog} {off maxBytes : Int} {reg : RecordsRegion}
    (found : log.findRecords off maxBytes = .ok (some reg)) : ∃ s ∈ log.segments, reg.file = s.logFile := by
  unfold CommitLog.findRecords at found
  split at found
  · cases found
  split at found
  · cases found
  dsimp only at found
  split at found
  · cases found
  split at found
  · cases found
  · obtain rfl := Option.some.inj (Except.ok.inj found)
    refine ⟨_, ?_, rfl⟩
    rw [List.getD_eq_getElem?_getD]
    cases at_i : log.segments[(log.findSegmentByOffset off).toNat]? with
    | none => exact List.mem_append_right _ (List.mem_singleton.mpr rfl)
    | some s => exact List.mem_of_getElem? at_i

theorem clipped_inside {log : CommitLog} (intact : Intact log) {off maxBytes maxVisible : Int}
    {reg clipped : RecordsRegion} (found : log.findRecords off maxBytes = .ok (some reg))
    (clips : reg.clipRegionToOffset maxVisible = .ok clipped) :
    0 ≤ clipped.fileOffset ∧ clipped.fileOffset + clipped.size ≤ clipped.file.length ∧ clipped.size ≤ maxAlloc := by
  obtain ⟨layout, next, holds⟩ := intact.whole
  obtain ⟨fs, whole, _⟩ := findRecords_whole holds intact.small found
  obtain ⟨s, member, same⟩ := findRecords_file found
  have small := intact.small s member
  rw [whole.clip maxVisible] at clips
  obtain rfl := Except.ok.inj clips
  obtain ⟨before, tail, file, start⟩ := whole.bytes
  have shorter : (bytesOf (fs.takeWhile (StoredBatch.visible maxVisible))).length ≤ (bytesOf fs).length := by
    conv_rhs => rw [← List.takeWhile_append_dropWhile (p := StoredBatch.visible maxVisible) (l := fs), bytesOf_append]
    rw [List.length_append]
    omega
  have room := congrArg List.length file
  rw [List.length_append, List.length_append] at room
  rw [← same] at small
  simp only [maxAlloc]
  omega

/-- The region that is sent for a partition, if there is anything to send. -/
def findRegion (log : CommitLog) (intact : Intact log) (fetchOffset maxBytes maxVisible : Int) : Option FileRegion :=
  match found : log.findRecords fetchOffset maxBytes with
  | .ok (some reg) => match clips : reg.clipRegionToOffset maxVisible with
    | .ok clipped =>
      if nonempty : 0 < clipped.size then
        have inside := clipped_inside intact found clips
        some ⟨clipped, nonempty, inside.1, inside.2.1, inside.2.2⟩
      else none
    | .error _ => none
  | _ => none

theorem findRegion_bytes (log : CommitLog) (intact : Intact log) (fetchOffset maxBytes maxVisible : Int) :
    (findRegion log intact fetchOffset maxBytes maxVisible).map FileRegion.bytes =
      fetchRecords log fetchOffset maxBytes maxVisible := by
  unfold findRegion
  split
  · rename_i reg found
    split
    · rename_i clipped clips
      have records : fetchRecords log fetchOffset maxBytes maxVisible =
        if clipped.size > 0 then some clipped.bytes else none := by
        unfold fetchRecords
        rw [found]
        dsimp only
        rw [clips]
      rw [records]
      split
      · rfl
      · rfl
    · rename_i e clips
      unfold fetchRecords
      rw [found]
      dsimp only
      rw [clips]
      rfl
  · rename_i other
    unfold fetchRecords
    split
    · rename_i reg found
      exact absurd found (other reg)
    · rfl

def replicaOf (req : FetchRequest) : Int :=
  match req.replicaState with
  | some state => state.replicaId.toInt
  | none => 0

def newPart (index : Int32) : FetchPartitionResponse := ⟨index, 0, 0, 0, 0, .nil, -1, none, none, none, none⟩

namespace Serving

def foundPart (now replicaId : Int) (part : FetchPartition) (key : String) (e : PartitionEntry) (log : CommitLog)
    (intact : Intact log) (s : Serving) : PartResult × Serving :=
  let fetchOffset := part.fetchOffset.toInt
  let maxBytes := part.partitionMaxBytes.toInt
  let ps := seenBy e.ps now replicaId fetchOffset
  let region := findRegion log intact fetchOffset maxBytes (visibleTo ps replicaId)
  (⟨{ newPart part.partition with
      logStartOffset := .ofInt (logStart log fetchOffset maxBytes)
      highWatermark := .ofInt ps.hwm
      lastStableOffset := .ofInt ps.hwm }, region⟩,
    ⟨{ s.broker with partitionStates := s.broker.partitionStates.put key { e with ps := ps } }, s.intact⟩)

def fetchPart (now replicaId : Int) (topicId : UUID) (part : FetchPartition) (s : Serving) : PartResult × Serving :=
  match found : s.broker.findPartition (topicNumber topicId) part.partition.toInt with
  | .error code => (⟨{ newPart part.partition with errorCode := .ofInt code }, none⟩, s)
  | .ok (key, e, log) => s.foundPart now replicaId part key e log (s.intact _ _ log (Broker.findPartition_log found))

def fetchParts (now replicaId : Int) (topicId : UUID) : List FetchPartition → Serving → List PartResult × Serving
  | [], s => ([], s)
  | part :: parts, s =>
    let (result, s) := s.fetchPart now replicaId topicId part
    let (results, s) := fetchParts now replicaId topicId parts s
    (result :: results, s)

def fetchTopics (now replicaId : Int) : List FetchTopic → Serving → List (UUID × List PartResult) × Serving
  | [], s => ([], s)
  | t :: ts, s =>
    let (parts, s) := fetchParts now replicaId t.topicId t.partitions.elems s
    let (results, s) := fetchTopics now replicaId ts s
    ((t.topicId, parts) :: results, s)

end Serving

def packParts (result : UUID × List PartResult) : Option Wire.TopicResult :=
  if fits : result.2.length * Sized.size PartResult ≤ maxAlloc then some ⟨result.1, ⟨result.2, fits⟩⟩ else none

def packTopics (results : List (UUID × List PartResult)) : Option (Slice Wire.TopicResult) :=
  (results.mapM packParts).bind fun topics =>
    if fits : topics.length * Sized.size Wire.TopicResult ≤ maxAlloc then some ⟨topics, fits⟩ else none

/-- `topicResults`. There is none if the results do not fit in memory, and the broker is gone. -/
def Serving.topicResults (s : Serving) (now : Int) (req : FetchRequest) : Option (Slice Wire.TopicResult) :=
  packTopics (s.fetchTopics now (replicaOf req) req.topics.elems).1

/-- What is written behind the length of the frame. -/
def fetchReply (header : RequestHeader) (req : FetchRequest) (topics : Slice Wire.TopicResult) : Bytes :=
  ResponseHeader.encode ⟨header.correlationId, header.apiVersion, header.apiKey⟩ ++
    payload (fetchSegments req.sessionId topics)

section Part

variable (now replicaId : Int) (topicId : UUID) (part : FetchPartition) (s : Serving)

/-- An answer has the error code, or no error and all that a fetch gets. -/
inductive Answers : Except Int Broker.Fetched → FetchPartitionResponse → Prop where
  | failed {code : Int} {pr : FetchPartitionResponse} (code_ne : pr.errorCode ≠ 0) (same : pr.errorCode = .ofInt code)
      (bare : pr.highWatermark = 0 ∧ pr.lastStableOffset = 0 ∧ pr.logStartOffset = 0 ∧ pr.records = none) :
      Answers (.error code) pr
  | found {fetched : Broker.Fetched} {pr : FetchPartitionResponse} (none : pr.errorCode = 0)
      (watermark : pr.highWatermark = .ofInt fetched.highWatermark)
      (stable : pr.lastStableOffset = .ofInt fetched.highWatermark)
      (start : pr.logStartOffset = .ofInt fetched.logStartOffset)
      (records : pr.records.map Slice.elems = fetched.records) : Answers (.ok fetched) pr

/-- `fetch` for a partition of a request. -/
def Broker.fetchFor (b : Broker) (now replicaId : Int) (topicId : UUID) (part : FetchPartition) :
    Except Int Broker.Fetched × Broker :=
  b.fetch now replicaId (topicNumber topicId) part.partition.toInt part.fetchOffset.toInt part.partitionMaxBytes.toInt

theorem fetchPart_answers :
    Answers (s.broker.fetchFor now replicaId topicId part).1 (s.fetchPart now replicaId topicId part).1.response ∧
      (s.fetchPart now replicaId topicId part).2.broker = (s.broker.fetchFor now replicaId topicId part).2 ∧
      (s.fetchPart now replicaId topicId part).1.pr.partitionIndex = part.partition := by
  unfold Serving.fetchPart
  split
  · rename_i code refused
    have same : s.broker.fetchFor now replicaId topicId part = _ := Broker.fetch_refused refused
    rw [same]
    refine ⟨.failed ?_ rfl ⟨rfl, rfl, rfl, rfl⟩, rfl, rfl⟩
    show Int16.ofInt code ≠ 0
    rcases Broker.findPartition_code refused with rfl | rfl
    · decide
    · decide
  · rename_i key e log found
    have intact := s.intact _ _ log (Broker.findPartition_log found)
    have same : s.broker.fetchFor now replicaId topicId part = _ := Broker.fetch_found found
    rw [same]
    refine ⟨.found rfl rfl rfl rfl ?_, rfl, rfl⟩
    exact (Option.map_map ..).trans (findRegion_bytes log intact ..)

end Part

/-! ### Whole requests -/

def asked (topics : List FetchTopic) : List (UUID × FetchPartition) :=
  topics.flatMap fun t => t.partitions.elems.map fun part => (t.topicId, part)

/-- The answers for partitions, each of the broker as the partitions before it have left it. -/
def Broker.fetchAll (now replicaId : Int) :
    List (UUID × FetchPartition) → Broker → List (Except Int Broker.Fetched) × Broker
  | [], b => ([], b)
  | (topicId, part) :: parts, b =>
    let (answer, b) := b.fetchFor now replicaId topicId part
    let (answers, b) := fetchAll now replicaId parts b
    (answer :: answers, b)

/-- The response has one answer for each partition of the request, in the order of the request. -/
structure Reports (now : Int) (b : Broker) (req : FetchRequest) (resp : FetchResponse) : Prop where
  session : resp.sessionId = req.sessionId
  topics : List.Forall₂ (fun (t : FetchTopic) (r : FetchTopicResponse) => r.topicId = t.topicId ∧
    r.partitions.elems.map (·.partitionIndex) = t.partitions.elems.map
      (·.partition)) req.topics.elems resp.responses.elems
  answers : List.Forall₂ Answers (b.fetchAll now (replicaOf req) (asked req.topics.elems)).1
    (resp.responses.elems.flatMap (·.partitions.elems))

section Requests

variable {now replicaId : Int}

theorem fetchAll_append (now replicaId : Int) (ps qs : List (UUID × FetchPartition)) (b : Broker) :
    b.fetchAll now replicaId (ps ++ qs) =
      ((b.fetchAll now replicaId ps).1 ++ ((b.fetchAll now replicaId ps).2.fetchAll now replicaId qs).1,
        ((b.fetchAll now replicaId ps).2.fetchAll now replicaId qs).2) := by
  induction ps generalizing b with
  | nil => rfl
  | cons p ps ih =>
    simp only [List.cons_append, Broker.fetchAll, ih]

theorem fetchParts_answers (now replicaId : Int) (topicId : UUID) (parts : List FetchPartition) (s : Serving) :
    List.Forall₂ Answers (s.broker.fetchAll now replicaId (parts.map fun part => (topicId, part))).1
        ((Serving.fetchParts now replicaId topicId parts s).1.map PartResult.response) ∧
      (Serving.fetchParts now replicaId topicId parts s).2.broker =
        (s.broker.fetchAll now replicaId (parts.map fun part => (topicId, part))).2 ∧
      (Serving.fetchParts now replicaId topicId parts s).1.map (·.pr.partitionIndex) = parts.map (·.partition) := by
  induction parts generalizing s with
  | nil => exact ⟨.nil, rfl, rfl⟩
  | cons part parts ih =>
    obtain ⟨answers, left, index⟩ := fetchPart_answers now replicaId topicId part s
    obtain ⟨rest, after, indices⟩ := ih (s.fetchPart now replicaId topicId part).2
    rw [left] at rest after
    exact ⟨.cons answers rest, after, congrArg₂ List.cons index indices⟩

theorem fetchTopics_answers (now replicaId : Int) (topics : List FetchTopic) (s : Serving) :
    List.Forall₂ (fun t (r : UUID × List PartResult) => r.1 = t.topicId ∧
        r.2.map (·.pr.partitionIndex) = t.partitions.elems.map (·.partition)) topics
        (Serving.fetchTopics now replicaId topics s).1 ∧
      List.Forall₂ Answers (s.broker.fetchAll now replicaId (asked topics)).1
        ((Serving.fetchTopics now replicaId topics s).1.flatMap fun r => r.2.map PartResult.response) ∧
      (Serving.fetchTopics now replicaId topics s).2.broker = (s.broker.fetchAll now replicaId (asked topics)).2 := by
  induction topics generalizing s with
  | nil => exact ⟨.nil, .nil, rfl⟩
  | cons t ts ih =>
    obtain ⟨answers, left, indices⟩ := fetchParts_answers now replicaId t.topicId t.partitions.elems s
    obtain ⟨shapes, rest, after⟩ := ih (Serving.fetchParts now replicaId t.topicId t.partitions.elems s).2
    rw [left] at rest after
    have split : asked (t :: ts) = (t.partitions.elems.map fun part => (t.topicId, part)) ++ asked ts :=
      List.flatMap_cons
    rw [split, fetchAll_append]
    exact ⟨.cons ⟨rfl, indices⟩ shapes, List.rel_append answers rest, after⟩

theorem packParts_eq {result : UUID × List PartResult} {topic : Wire.TopicResult}
    (collected : packParts result = some topic) :
    result = (topic.topicId, topic.parts.elems) := by
  unfold packParts at collected
  split at collected
  · obtain rfl := Option.some.inj collected
    rfl
  · cases collected

theorem mapM_packParts {results : List (UUID × List PartResult)} {topics : List Wire.TopicResult}
    (collected : results.mapM packParts = some topics) : results = topics.map fun t => (t.topicId, t.parts.elems) := by
  induction results generalizing topics with
  | nil =>
    obtain rfl := Option.some.inj collected
    rfl
  | cons result results ih =>
    rw [List.mapM_cons] at collected
    obtain ⟨t, first, rest⟩ := Option.bind_eq_some_iff.mp collected
    obtain ⟨ts, others, same⟩ := Option.bind_eq_some_iff.mp rest
    obtain rfl := Option.some.inj same
    rw [List.map_cons, ← ih others, ← packParts_eq first]

theorem packTopics_eq {results : List (UUID × List PartResult)} {topics : Slice Wire.TopicResult}
    (collected : packTopics results = some topics) :
    results = topics.elems.map fun t => (t.topicId, t.parts.elems) := by
  obtain ⟨elems, mapped, packed⟩ := Option.bind_eq_some_iff.mp collected
  split at packed
  · obtain rfl := Option.some.inj packed
    exact mapM_packParts mapped
  · cases packed

theorem Answers.untagged {answer : Except Int Broker.Fetched} {pr : FetchPartitionResponse}
    (answers : Answers answer pr) :
    Answers answer pr.untagged := by
  cases answers with
  | failed code_ne same bare => exact .failed code_ne same bare
  | found none watermark stable start records => exact .found none watermark stable start records

theorem reports_plainResponse {s : Serving} {req : FetchRequest} {topics : Slice Wire.TopicResult}
    (results : s.topicResults now req = some topics) :
    Reports now s.broker req (plainResponse req.sessionId topics).untagged := by
  obtain ⟨shapes, answers, _⟩ := fetchTopics_answers now (replicaOf req) req.topics.elems s
  rw [packTopics_eq results] at shapes answers
  have responses : (plainResponse req.sessionId topics).untagged.responses.elems =
      topics.elems.map fun t => t.response.untagged := List.map_map
  have parts : ∀ t : Wire.TopicResult, t.response.untagged.partitions.elems =
      t.parts.elems.map fun part => part.response.untagged := fun t => List.map_map
  refine ⟨rfl, ?_, ?_⟩
  · rw [responses, List.forall₂_map_right_iff]
    refine (List.forall₂_map_right_iff.mp shapes).imp fun t r shape => ⟨shape.1, ?_⟩
    rw [parts, List.map_map]
    exact shape.2
  · rw [responses, List.flatMap_map]
    simp only [parts]
    have flat : (topics.elems.flatMap fun t => t.parts.elems.map fun part => part.response.untagged) =
        ((topics.elems.map fun t => (t.topicId, t.parts.elems)).flatMap fun r => r.2.map PartResult.response).map
          FetchPartitionResponse.untagged := by
      rw [List.map_flatMap, List.flatMap_map]
      simp only [List.map_map]
      rfl
    rw [flat, List.forall₂_map_right_iff]
    exact answers.imp fun _ _ => Answers.untagged

end Requests

def leaderBroker : Broker where
  brokerID := 1
  brokers := [1, 2]
  topicStore := (newTopicStore.registerTopic 7 "t" 1).addCommitLog 7 0 twoRecordLog
  partitionStates := newPartitionStateStore.put (partitionKey "t" 0)
    { newPartition "t" 0 1 0 [1, 2] [1] with ps := ⟨1, [1, 2], [1], 2, 2, fun _ => none, fun _ => none⟩ }
  fetchers := []
  disk := []

def leaderServing : Serving where
  broker := leaderBroker
  intact topicId partition log known := by
    have only : log = twoRecordLog := by
      by_cases here : topicId = 7 ∧ partition = 0
      · obtain ⟨rfl, rfl⟩ := here
        exact (Option.some.inj (TopicStore.getCommitLog_add.symm.trans known)).symm
      · have other := known
        simp only [leaderBroker] at other
        rw [TopicStore.getCommitLog_add_other (by tauto), TopicStore.registerTopic_getCommitLog] at other
        cases other
    subst only
    obtain ⟨next, holds⟩ := built_holds twoRecordLog_built
    exact ⟨⟨_, next, holds⟩, by decide +kernel⟩

end KafGo.Server
