import KafGo.Lib.Exchange
import KafGo.Server.FetchApi
import KafGo.Server.ReplicaFetcher
import KafGo.Wire.Header

/-!
# The client of a replica fetcher

The replica fetchers of a broker share one `BrokerClient` for each leader. `Fetch` takes whatever frame comes next for
its response and never looks at the correlation id. On the other side `Conn.handle` answers a request before it reads
the next one. What a fetcher gets is the answer to its own request all the same, and the answer is what the leader had
when it took the request.
-/

namespace KafGo.Wire
open Lib Scanner

/-- Key and version are those of the request. -/
def ResponseHeader.decode (apiKey apiVersion : Int16) : Decoder ResponseHeader := do
  let correlationId ← readInt32
  if isFlexible apiKey apiVersion then
    readTaggedFields
    return ⟨correlationId, apiVersion, apiKey⟩
  else return ⟨correlationId, apiVersion, apiKey⟩

theorem ResponseHeader.reads (h : ResponseHeader) : Reads (decode h.apiKey h.apiVersion) h.encode h := by
  refine (reads_int32 _).bind ?_
  split
  · exact reads_emptyTaggedFields.finish (reads_pure h)
  · exact reads_pure h

end KafGo.Wire

namespace KafGo.Server
open Lib Scanner Coordinator Storage Wire

/-- What other requests are answered, and what they change, does not matter here. -/
abbrev Others := Serving → RequestHeader → Request → Reaction × Serving

/-- A turn of the loop in `Conn.handle`. A panic ends the broker and with it the connection, and an error of a handler
is only logged. -/
def handle (others : Others) (s : Serving) (now : Int) (framing : Payload) : Reaction × Serving :=
  match RequestHeader.decode framing.reader with
  | (.error _, _) => (.close, s)
  | (.ok header, reader) => match decodeBody header.apiKey reader with
    | (.error .panics, _) => (.close, s)
    | (.error (.error _), _) => (.silent, s)
    | (.ok (.fetch req), _) => match s.topicResults now req with
      | none => (.close, s)
      | some topics => (.reply (fetchReply header req topics), (s.fetchTopics now (replicaOf req) req.topics.elems).2)
    | (.ok request, _) => others s header request

def clientId : Octets := ⟨"broker-client".toList.map fun ch => .ofNat ch.toNat, by decide⟩

def fetchHeader (nextCorrelationId : Int32) : RequestHeader := ⟨1, 18, nextCorrelationId, some clientId⟩

def decodeReply : Decoder FetchResponse := do
  let _ ← ResponseHeader.decode 1 18
  FetchResponse.decode

/-- What `Fetch` makes of the frame that it has read. -/
def fetched (respFraming : Bytes) : Except (Stop String) FetchResponse :=
  if fits : respFraming.length ≤ 2 ^ 48 then (decodeReply (.start ⟨respFraming, fits⟩)).1 else .error .panics

/-- `Fetch` on a connection to a leader. What else the leader does changes its state, and its clock. -/
def brokerClient (others : Others) : Exchange Int32 FetchRequest (Serving × Int) where
  limit := maxPayloadSize
  small := by decide
  encode nextCorrelationId req := (fetchHeader nextCorrelationId).encode ++ req.encode
  next nextCorrelationId := nextCorrelationId + 1
  answer server p :=
    if framed : p ≠ [] ∧ p.length ≤ maxPayloadSize then
      let (reaction, s) := handle others server.1 server.2 ⟨p, framed.1, framed.2⟩
      (reaction, s, server.2)
    else (.close, server)

section Request

variable {others : Others}

theorem reads_fetchHeader (nextCorrelationId : Int32) :
    Reads RequestHeader.decode (fetchHeader nextCorrelationId).encode (fetchHeader nextCorrelationId) := by
  refine RequestHeader.reads_header ?_ ?_
  · intro id named
    obtain rfl := Option.some.inj named
    decide
  · intro id named
    obtain rfl := Option.some.inj named
    decide

theorem reads_fetchBody (req : FetchRequest) : Reads (decodeBody 1) req.encode (.fetch req) := by
  unfold decodeBody
  rw [if_neg (by decide), if_pos rfl]
  exact req.reads.last

theorem handle_request (s : Serving) (now : Int) (nextCorrelationId : Int32) (req : FetchRequest) (framing : Payload)
    (sent : framing.bytes = (fetchHeader nextCorrelationId).encode ++ req.encode) :
    handle others s now framing = match s.topicResults now req with
      | none => (.close, s)
      | some topics => (.reply (fetchReply (fetchHeader nextCorrelationId) req topics),
          (s.fetchTopics now (replicaOf req) req.topics.elems).2) := by
  obtain ⟨reader, header, onward⟩ := reads_fetchHeader nextCorrelationId framing.reader req.encode
    (Cursor.start_forward _) sent
  obtain ⟨_, body, _⟩ := reads_fetchBody req reader [] onward.forward (by rw [onward.remaining, List.append_nil])
  have body : decodeBody (fetchHeader nextCorrelationId).apiKey reader = _ := body
  unfold handle
  rw [header]
  dsimp only
  rw [body]

theorem answer_request {server : Serving × Int} {nextCorrelationId : Int32} {req : FetchRequest} {body : Bytes}
    (replied : ((brokerClient others).answer server ((brokerClient others).encode nextCorrelationId req)).1 =
      .reply body) :
    ∃ topics, server.1.topicResults server.2 req = some topics ∧
      body = fetchReply (fetchHeader nextCorrelationId) req topics := by
  unfold brokerClient at replied
  dsimp only at replied
  split at replied
  · rw [handle_request server.1 server.2 nextCorrelationId req _ rfl] at replied
    cases results : server.1.topicResults server.2 req with
    | none =>
      rw [results] at replied
      cases replied
    | some topics =>
      rw [results] at replied
      exact ⟨topics, rfl, (Reaction.reply.inj replied).symm⟩
  · cases replied

theorem fetched_reply (header : RequestHeader) (flexible : header.apiKey = 1 ∧ header.apiVersion = 18)
    (req : FetchRequest) (topics : Slice Wire.TopicResult) (fits : (fetchReply header req topics).length ≤ 2 ^ 48) :
    fetched (fetchReply header req topics) = .ok (plainResponse req.sessionId topics).untagged := by
  have first := ResponseHeader.reads ⟨header.correlationId, header.apiVersion, header.apiKey⟩
  rw [flexible.1, flexible.2] at first
  have reads := first.bind (k := fun _ => FetchResponse.decode) (plainResponse req.sessionId topics).reads
  obtain ⟨_, ran, _⟩ := reads (.start ⟨fetchReply header req topics, fits⟩) [] (Cursor.start_forward _) (by
    show fetchReply header req topics = _
    rw [fetchReply, payload_fetchSegments, flexible.1, flexible.2, List.append_nil])
  have ran : decodeReply _ = _ := ran
  unfold fetched
  rw [dif_pos fits, ran]

end Request

namespace ReplicaFetcher

def request (rf : ReplicaFetcher) (topicID : UUID) (partition : Int32) : FetchRequest where
  maxWaitMs := 500
  minBytes := 1
  maxBytes := 50 * 2 ^ 20
  isolationLevel := 0
  sessionId := 0
  sessionEpoch := 0
  topics := .one ⟨topicID,
    .one ⟨partition, -1, .ofInt rf.fetchOffset, -1, .ofInt rf.commitLog.oldestOffset, 10 * 2 ^ 20, none, none⟩⟩
  forgottenTopics := .nil
  rackId := .nil
  clusterId := none
  replicaState := some ⟨.ofInt rf.brokerId, -1⟩

/-- What an iteration does with a response. The high watermark in it is kept and never used. -/
def process (rf : ReplicaFetcher) (resp : FetchResponse) : ReplicaFetcher :=
  resp.responses.elems.foldl (fun rf topic => topic.partitions.elems.foldl (fun rf part =>
    if part.errorCode ≠ 0 then rf else rf.receive (part.records.map Slice.elems)) rf) rf

def deliver (rf : ReplicaFetcher) : Except Int (Option Bytes) → ReplicaFetcher
  | .ok records => rf.receive records
  | .error _ => rf

end ReplicaFetcher

theorem process_reports {rf : ReplicaFetcher} {topicID : UUID} {partition : Int32} {b : Broker} {now : Int}
    {resp : FetchResponse} (offset : 0 ≤ rf.fetchOffset ∧ rf.fetchOffset < 2 ^ 63)
    (id : 0 ≤ rf.brokerId ∧ rf.brokerId < 2 ^ 31) (reports : Reports now b (rf.request topicID partition) resp) :
    rf.process resp = rf.deliver (b.fetchPartition now rf.brokerId (topicNumber topicID) partition.toInt rf.fetchOffset
      partitionMaxBytes) := by
  have replica : replicaOf (rf.request topicID partition) = rf.brokerId :=
    Int32.toInt_ofInt_of_le (by omega) (by omega)
  have start : (Int64.ofInt rf.fetchOffset).toInt = rf.fetchOffset := Int64.toInt_ofInt_of_le (by omega) (by omega)
  obtain ⟨r, rest, ⟨_, indices⟩, others, responses⟩ := List.forall₂_cons_left_iff.mp reports.topics
  obtain rfl := List.forall₂_nil_left_iff.mp others
  obtain ⟨part, only⟩ := List.length_eq_one_iff.mp ((List.length_map ..).symm.trans (congrArg List.length indices))
  have processed : rf.process resp = if part.errorCode ≠ 0 then rf else rf.receive (part.records.map Slice.elems) := by
    unfold ReplicaFetcher.process
    rw [responses, List.foldl_cons, List.foldl_nil, only, List.foldl_cons, List.foldl_nil]
  have answers := reports.answers
  rw [responses, replica, List.flatMap_cons, only] at answers
  obtain ⟨answers, _⟩ := List.forall₂_cons.mp answers
  change Answers (b.fetch now rf.brokerId (topicNumber topicID) partition.toInt (Int64.ofInt rf.fetchOffset).toInt
    partitionMaxBytes).1 part at answers
  rw [start] at answers
  rw [processed]
  unfold Broker.fetchPartition
  generalize (b.fetch _ _ _ _ _ _).1 = answer at answers ⊢
  cases answers with
  | failed code_ne same bare => rw [if_pos code_ne]; rfl
  | found none watermark stable start records => rw [if_neg (by simp [none]), records]; rfl

def servedAs (s : Link Int32 (Serving × Int)) (p body : Bytes) (served : Served (Serving × Int)) : Prop :=
  served ∈ s.answers ∧ served.request = p ∧ served.reply = body

section Runs

variable (others : Others) (c : Config (Link Int32 (Serving × Int)) (Caller FetchRequest))
  (reached : Reachable (brokerClient others).system (brokerClient others).Orderly c)

include reached

theorem returned_reply {req : FetchRequest} {p body : Bytes} (member : .returned req p body ∈ c.tasks) :
    (∃ served, servedAs c.shared p body served) ∧ ∃ resp, fetched body = .ok resp ∧
      ∀ served, servedAs c.shared p body served → ∃ topics,
        served.server.1.topicResults served.server.2 req = some topics ∧
        resp = (plainResponse req.sessionId topics).untagged := by
  obtain ⟨⟨nextCorrelationId, sent⟩, server, answered⟩ := run_matched reached _ member
  have result : ∀ served, servedAs c.shared p body served → ∃ topics,
      served.server.1.topicResults served.server.2 req = some topics ∧
      fetched body = .ok (plainResponse req.sessionId topics).untagged := by
    rintro ⟨server, _, _⟩ ⟨recorded, rfl, rfl⟩
    obtain ⟨within, replied⟩ := run_answers reached _ recorded
    rw [sent] at replied
    obtain ⟨topics, results, rfl⟩ := answer_request replied
    refine ⟨topics, results, fetched_reply _ ⟨rfl, rfl⟩ req topics ?_⟩
    exact Nat.le_trans within (show maxPayloadSize ≤ 2 ^ 48 by decide)
  obtain ⟨topics, _, decoded⟩ := result ⟨server, p, body⟩ ⟨answered, rfl, rfl⟩
  refine ⟨⟨_, answered, rfl, rfl⟩, _, decoded, fun served recorded => ?_⟩
  obtain ⟨topics', results, decoded'⟩ := result served recorded
  exact ⟨topics', results, Except.ok.inj (decoded.symm.trans decoded')⟩

/-- An iteration of `Run` that gets a response takes what the leader has at the fetch offset of its partition, in the
state in which the leader took the request. -/
theorem fetcher_delivers (rf : ReplicaFetcher) (topicID : UUID) (partition : Int32) (p body : Bytes)
    (offset : 0 ≤ rf.fetchOffset ∧ rf.fetchOffset < 2 ^ 63) (id : 0 ≤ rf.brokerId ∧ rf.brokerId < 2 ^ 31)
    (member : .returned (rf.request topicID partition) p body ∈ c.tasks) :
    (∃ served, servedAs c.shared p body served) ∧ ∃ resp, fetched body = .ok resp ∧
      ∀ served, servedAs c.shared p body served → rf.process resp = rf.deliver (served.server.1.broker.fetchPartition
        served.server.2 rf.brokerId (topicNumber topicID) partition.toInt rf.fetchOffset partitionMaxBytes) := by
  obtain ⟨recorded, resp, decoded, sent⟩ := returned_reply others c reached member
  refine ⟨recorded, resp, decoded, fun served serves => ?_⟩
  obtain ⟨topics, results, rfl⟩ := sent served serves
  exact process_reports offset id (reports_plainResponse results)

end Runs

def topicSeven : UUID := ⟨List.replicate 15 0 ++ [7], rfl⟩

def newFollower : ReplicaFetcher := newReplicaFetcher 2 (newCommitLog ⟨1000, 4096⟩ [])

theorem follower_returns (others : Others) :
    ∃ c p body, Reachable (brokerClient others).system (brokerClient others).Orderly c ∧
      Caller.returned (newFollower.request topicSeven 0) p body ∈ c.tasks ∧
      servedAs c.shared p body ⟨(leaderServing, 0), p, body⟩ := by
  have framed : ((fetchHeader 1).encode ++ (newFollower.request topicSeven 0).encode) ≠ [] ∧
      ((fetchHeader 1).encode ++ (newFollower.request topicSeven 0).encode).length ≤ maxPayloadSize := by decide +kernel
  have sizes : (leaderServing.topicResults 0 (newFollower.request topicSeven 0)).any (fun topics =>
      decide (0 < (fetchReply (fetchHeader 1) (newFollower.request topicSeven 0) topics).length ∧
        (fetchReply (fetchHeader 1) (newFollower.request topicSeven 0) topics).length ≤ maxPayloadSize)) = true := by
    decide +kernel
  cases results : leaderServing.topicResults 0 (newFollower.request topicSeven 0) with
  | none =>
    rw [results] at sizes
    cases sizes
  | some topics =>
    rw [results, Option.any_some] at sizes
    obtain ⟨nonempty, within⟩ := of_decide_eq_true sizes
    have answered : (brokerClient others).answer (leaderServing, 0)
        ((fetchHeader 1).encode ++ (newFollower.request topicSeven 0).encode) =
        (.reply (fetchReply (fetchHeader 1) (newFollower.request topicSeven 0) topics),
          (leaderServing.fetchTopics 0 (replicaOf (newFollower.request topicSeven 0))
            (newFollower.request topicSeven 0).topics.elems).2, 0) := by
      unfold brokerClient
      dsimp only
      rw [dif_pos framed, handle_request leaderServing 0 1 (newFollower.request topicSeven 0) _ rfl, results]
    have sent : (brokerClient others).encode 1 (newFollower.request topicSeven 0) =
        (fetchHeader 1).encode ++ (newFollower.request topicSeven 0).encode := rfl
    have returned := call_returns (leaderServing, 0) _ 1 (newFollower.request topicSeven 0) sent answered
      (List.length_pos_of_ne_nil framed.1) framed.2 nonempty within
    exact ⟨_, _, _, returned, List.mem_cons_self, List.mem_cons_self, rfl, rfl⟩

/-- The follower gets both records. -/
theorem fetcher_delivers_follower : ∃ c p body,
    Reachable (brokerClient fun s _ _ => (.silent, s)).system (brokerClient fun s _ _ => (.silent, s)).Orderly c ∧
    Caller.returned (newFollower.request topicSeven 0) p body ∈ c.tasks ∧
    ∃ resp, fetched body = .ok resp ∧ (newFollower.process resp).fetchOffset = 2 ∧
      (newFollower.process resp).commitLog.content = twoRecordLog.content := by
  obtain ⟨c, p, body, reached, member, recorded⟩ := follower_returns fun s _ _ => (.silent, s)
  obtain ⟨_, resp, decoded, delivers⟩ :=
    fetcher_delivers _ c reached newFollower topicSeven 0 p body (by decide) (by decide) member
  refine ⟨c, p, body, reached, member, resp, decoded, ?_⟩
  rw [delivers _ recorded]
  dsimp only
  decide +kernel

end KafGo.Server
