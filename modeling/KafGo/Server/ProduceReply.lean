import KafGo.Lib.Machine
import KafGo.Partition.FailedProduce
import KafGo.Server.Broker
import KafGo.Wire.Client

/-!
# Answers to produce requests

The handler goes through the topics of a request and the partition entries of each topic, and collects a result for
each entry. A topic that the broker does not know is skipped, with all its entries.

Within one entry the handler is followed alone, by the steps of `Partition.step`; what ends the wait of a request with
`acks = -1` is left open.
-/

namespace KafGo.Partition
open Lib Coordinator Protocol Storage

/-- What happens while an entry is served. No `wait` means that the deadline passes. -/
structure Turn where
  now : Int
  torn : Option Nat
  wait : Option Outcome

def Turn.waited (turn : Turn) (base : Int) : PartitionResult :=
  match turn.wait with
  | none => ⟨errRequestTimedOut, base, false⟩
  | some .completed => ⟨0, base, false⟩
  | some (.failed code) => ⟨code, base, false⟩

def Turn.env (turn : Turn) (logMissing : Bool) : Env := ⟨turn.now, false, logMissing, turn.torn⟩

/-- The result in a task at which the handler is done with an entry. -/
def Task.answer (turn : Turn) : Task → Option PartitionResult
  | .rejected code => some ⟨code, 0, false⟩
  | .answered _ r => some r
  | .await _ base _ => some (turn.waited base)
  | _ => none

/-- The steps of a handler up to its result; `none` if the process dies. -/
def handle [Memory] (snappy : Bytes → Option Bytes) (turn : Turn) (logMissing : Bool) :
    Nat → Leader → Task → Option (Leader × PartitionResult)
  | 0, s, t => (t.answer turn).map fun r => (s, r)
  | n + 1, s, t => match t.answer turn with
    | some r => some (s, r)
    | none => (step snappy (turn.env logMissing) s t).bind fun next =>
      if next.1.crash.isSome then none else handle snappy turn logMissing n next.1 next.2

def handlerSteps : Nat := 10

/-- What the checks before the records read, and what keeps channel operations from panicking. -/
structure Leader.Steady (s s' : Leader) : Prop where
  leader : s'.ps.leaderBrokerID = s.ps.leaderBrokerID
  isr : s'.ps.isr = s.ps.isr
  purgatory : s'.purgatory.WellFormed
  crash : s'.crash = none

/-- The batch of the request gets this base offset now, or the producer state has it from an earlier request. -/
def Leader.Holds [Memory] (snappy : Bytes → Option Bytes) (logMissing : Bool) (s : Leader) (q : ProduceRequest)
    (base : Int) (s' : Leader) : Prop :=
  ∃ d : Produce, q.records = some d.raw ∧ decodeRecordBatch snappy d.raw = .ok d.batch ∧
    ((logMissing = false ∧ s.log.appendRaw d.raw d.count = (s'.log, .ok base)) ∨
      ∃ prod, s.idempotence.producers d.pid = some prod ∧ lookupRing prod d.firstSeq d.lastSeq = some base)

theorem waited_baseOffset (turn : Turn) (base : Int) : (turn.waited base).baseOffset = base := by
  unfold Turn.waited
  split <;> rfl

theorem advanceHWM_view (ps : PartitionState) :
    ps.advanceHWM.leaderBrokerID = ps.leaderBrokerID ∧ ps.advanceHWM.isr = ps.isr := by
  unfold PartitionState.advanceHWM
  split <;> exact ⟨rfl, rfl⟩

section Handler

variable [Memory] {snappy : Bytes → Option Bytes} {turn : Turn} {logMissing : Bool} {n : Nat}
  {s s' : Leader} {t t' : Task}
  {q : ProduceRequest} {d : Produce} {base : Int}

theorem handle_answer {r : PartitionResult} (answer : t.answer turn = some r) :
    handle snappy turn logMissing n s t = some (s, r) := by
  cases n with
  | zero => rw [handle, answer, Option.map_some]
  | succ n => rw [handle, answer]

theorem handle_step (busy : t.answer turn = none) (moves : step snappy (turn.env logMissing) s t = some (s', t'))
    (alive : s'.crash = none) :
    handle snappy turn logMissing (n + 1) s t = handle snappy turn logMissing n s' t' := by
  rw [handle, busy, moves, Option.bind_some, alive]
  rfl

/-- The handler gets to a result with the base offset of its batch and leaves the log alone. -/
def Leader.Answers (snappy : Bytes → Option Bytes) (turn : Turn) (logMissing : Bool) (n : Nat) (s : Leader) (t : Task)
    (base : Int) : Prop :=
  ∃ s' r, handle snappy turn logMissing n s t = some (s', r) ∧ s.Steady s' ∧ s'.log = s.log ∧ r.baseOffset = base

theorem answers_here {r : PartitionResult} (answer : t.answer turn = some r) (offset : r.baseOffset = base)
    (wf : s.purgatory.WellFormed) (alive : s.crash = none) : s.Answers snappy turn logMissing n t base :=
  ⟨s, r, handle_answer answer, ⟨rfl, rfl, wf, alive⟩, rfl, offset⟩

theorem answers_step (busy : t.answer turn = none) (moves : step snappy (turn.env logMissing) s t = some (s', t'))
    (alive : s'.crash = none) (leader : s'.ps.leaderBrokerID = s.ps.leaderBrokerID) (isr : s'.ps.isr = s.ps.isr)
    (log : s'.log = s.log) (rest : s'.Answers snappy turn logMissing n t' base) :
    s.Answers snappy turn logMissing (n + 1) t base := by
  obtain ⟨last, r, ran, steady, kept, offset⟩ := rest
  exact ⟨last, r, (handle_step busy moves alive).trans ran,
    ⟨steady.leader.trans leader, steady.isr.trans isr, steady.purgatory, steady.crash⟩, kept.trans log, offset⟩

theorem respond_answers (wf : s.purgatory.WellFormed) (alive : s.crash = none) (acked : d.acks ≠ ackAtMostOnce) :
    s.Answers snappy turn logMissing (n + 3) (.respond d base) base := by
  by_cases waits : d.acks = ackExactlyOnce
  · have parked := PartitionPurgatory.add_wellFormed wf (d.lastOffset base)
    obtain ⟨p, completes, resolved⟩ := PartitionPurgatory.completeUpTo_resolved parked s.ps.hwm
    have adds : step snappy (turn.env logMissing) s (.respond d base) =
        some ({ s with purgatory := s.purgatory.add (d.lastOffset base) }, .readHWM d base s.purgatory.fresh) := by
      rw [step, Leader.respond, if_pos waits]
    have completed : step snappy (turn.env logMissing) { s with purgatory := s.purgatory.add (d.lastOffset base) }
        (.complete d base s.purgatory.fresh s.ps.hwm) =
          some ({ s with purgatory := p }, .await d base s.purgatory.fresh) := by
      rw [step, completes]
      rfl
    refine answers_step rfl adds alive rfl rfl rfl ?_
    refine answers_step rfl rfl alive rfl rfl rfl ?_
    refine answers_step rfl completed alive rfl rfl rfl ?_
    exact answers_here rfl (waited_baseOffset ..) (PartitionPurgatory.resolved_wellFormed parked resolved) alive
  · have answers : step snappy (turn.env logMissing) s (.respond d base) = some (s, d.succeeded base) := by
      rw [step, Leader.respond, if_neg waits, if_neg acked]
    exact answers_step rfl answers alive rfl rfl rfl (answers_here rfl rfl wf alive)

theorem advance_answers (wf : s.purgatory.WellFormed) (alive : s.crash = none) (acked : d.acks ≠ ackAtMostOnce) :
    s.Answers snappy turn logMissing (n + 5) (.advance (.respond d base)) base := by
  obtain ⟨leader, isr⟩ := advanceHWM_view s.ps
  by_cases higher : s.ps.advanced = true
  · obtain ⟨p, completes, resolved⟩ := PartitionPurgatory.completeUpTo_resolved wf s.ps.advanceHWM.hwm
    have moves : step snappy (turn.env logMissing) s (.advance (.respond d base)) =
        some ({ s with ps := s.ps.advanceHWM }, .wake s.ps.advanceHWM.hwm (.respond d base)) := by
      rw [step, if_pos higher]
    have wakes : step snappy (turn.env logMissing) { s with ps := s.ps.advanceHWM }
        (.wake s.ps.advanceHWM.hwm (.respond d base)) =
          some ({ s with ps := s.ps.advanceHWM, purgatory := p }, .respond d base) := by
      rw [step, completes]
      rfl
    refine answers_step rfl moves alive leader isr rfl ?_
    refine answers_step rfl wakes alive rfl rfl rfl ?_
    exact respond_answers (PartitionPurgatory.resolved_wellFormed wf resolved) alive acked
  · have moves : step snappy (turn.env logMissing) s (.advance (.respond d base)) =
        some ({ s with ps := s.ps.advanceHWM }, .respond d base) := by
      rw [step, if_neg higher]
      rfl
    exact answers_step rfl moves alive leader isr rfl (respond_answers wf alive acked)

theorem raise_answers (wf : s.purgatory.WellFormed) (alive : s.crash = none) (acked : d.acks ≠ ackAtMostOnce) :
    s.Answers snappy turn logMissing (n + 6) (.raise d base) base :=
  answers_step rfl rfl alive rfl rfl rfl (advance_answers wf alive acked)

/-! ### From the arrival on -/

theorem handle_append (wf : s.purgatory.WellFormed) (alive : s.crash = none) (acked : d.acks ≠ ackAtMostOnce) :
    ∃ s' r, handle snappy turn logMissing (n + 8) s (.append d) = some (s', r) ∧ s.Steady s' ∧
      (r.errorCode ≠ 0 ∨ logMissing = false ∧ s.log.appendRaw d.raw d.count = (s'.log, .ok r.baseOffset)) := by
  have failing : ∀ (log : CommitLog) (code : Int), code ≠ 0 →
      step snappy (turn.env logMissing) s (.append d) = some ({ s with log := log }, d.failed code 0) →
      ∃ s' r, handle snappy turn logMissing (n + 8) s (.append d) = some (s', r) ∧ s.Steady s' ∧
        (r.errorCode ≠ 0 ∨ logMissing = false ∧ s.log.appendRaw d.raw d.count = (s'.log, .ok r.baseOffset)) := by
    intro log code nonzero moves
    exact ⟨_, _, (handle_step rfl moves alive).trans (handle_answer rfl), ⟨rfl, rfl, wf, alive⟩, Or.inl nonzero⟩
  cases missing : logMissing with
  | true =>
    subst missing
    exact failing s.log errUnknownTopicOrPartition (by decide) rfl
  | false =>
    subst missing
    cases torn : turn.torn with
    | some written =>
      refine failing (s.log.appendTorn d.raw written) errKafkaStorageError (by decide) ?_
      simp [step, Leader.append, Turn.env, torn]
    | none =>
      rcases result : s.log.appendRaw d.raw d.count with ⟨log, code | offset⟩
      · rw [result] at failing
        refine failing log errKafkaStorageError (by decide) ?_
        simp [step, Leader.append, Turn.env, torn, result]
      · let stored : Leader := { s with log := log, stored := s.stored ++ [(d, offset)] }
        have moves : step snappy (turn.env false) s (.append d) =
            some (stored, if d.pid ≥ 0 then .record d offset else .raise d offset) := by
          simp [step, Leader.append, Turn.env, torn, result, stored]
        have rest : stored.Answers snappy turn false (n + 7)
          (if d.pid ≥ 0 then .record d offset else .raise d offset) offset := by
          split
          · exact answers_step rfl rfl alive rfl rfl rfl (raise_answers wf alive acked)
          · exact raise_answers wf alive acked
        obtain ⟨s', r, ran, steady, kept, offset'⟩ := rest
        have busy : (Task.append d).answer turn = none := rfl
        refine ⟨s', r, (handle_step busy moves alive).trans ran,
          ⟨steady.leader, steady.isr, steady.purgatory, steady.crash⟩, Or.inr ⟨rfl, ?_⟩⟩
        rw [kept, offset']

theorem handle_validate (wf : s.purgatory.WellFormed) (alive : s.crash = none) (acked : d.acks ≠ ackAtMostOnce) :
    ∃ s' r, handle snappy turn logMissing (n + 9) s (.validate d) = some (s', r) ∧ s.Steady s' ∧
      (r.errorCode ≠ 0 ∨ (logMissing = false ∧ s.log.appendRaw d.raw d.count = (s'.log, .ok r.baseOffset)) ∨
        ∃ prod, s.idempotence.producers d.pid = some prod ∧
          lookupRing prod d.firstSeq d.lastSeq = some r.baseOffset) := by
  rcases result : s.idempotence.validate turn.now d.pid d.epoch d.firstSeq d.lastSeq with ⟨idempotence, verdict⟩
  let checked : Leader := { s with idempotence := idempotence }
  have moves : step snappy (turn.env logMissing) s (.validate d) = some (s.validate turn.now d) := rfl
  unfold Leader.validate at moves
  rw [result] at moves
  cases verdict with
  | rejected code =>
    exact ⟨checked, _, (handle_step rfl moves alive).trans (handle_answer rfl), ⟨rfl, rfl, wf, alive⟩,
      Or.inl (rejected_nonzero result)⟩
  | duplicate cached =>
    obtain ⟨_, prod, known, cachedAt⟩ := IdempotenceState.validate_duplicate result
    exact ⟨checked, _, (handle_step rfl moves alive).trans (handle_answer rfl), ⟨rfl, rfl, wf, alive⟩,
      Or.inr (Or.inr ⟨prod, known, cachedAt⟩)⟩
  | fresh =>
    have appended : ∃ s' r, handle snappy turn logMissing (n + 8) checked (.append d) = some (s', r) ∧
      checked.Steady s' ∧
        (r.errorCode ≠ 0 ∨ logMissing = false ∧ checked.log.appendRaw d.raw d.count = (s'.log, .ok r.baseOffset)) :=
      handle_append wf alive acked
    obtain ⟨s', r, ran, steady, outcome⟩ := appended
    exact ⟨s', r, (handle_step rfl moves alive).trans ran, ⟨steady.leader, steady.isr, steady.purgatory, steady.crash⟩,
      outcome.imp_right Or.inl⟩

theorem handle_arrive (turn : Turn) (logMissing : Bool) (wf : s.purgatory.WellFormed) (alive : s.crash = none)
    (acked : q.acks ≠ ackAtMostOnce)
    (readable : s.admits q = true → ∃ raw, q.records = some raw ∧ decodeRecordBatch snappy raw ≠ .error .panics) :
    ∃ s' r, handle snappy turn logMissing handlerSteps s (.arrive q) = some (s', r) ∧ s.Steady s' ∧
      (r.errorCode ≠ 0 ∨ s.Holds snappy logMissing q r.baseOffset s') := by
  have refused : ∀ code : Int, code ≠ 0 → s.arrive snappy q = (s, .rejected code) →
      ∃ s' r, handle snappy turn logMissing handlerSteps s (.arrive q) = some (s', r) ∧ s.Steady s' ∧
        (r.errorCode ≠ 0 ∨ s.Holds snappy logMissing q r.baseOffset s') := by
    intro code nonzero arrives
    have moves : step snappy (turn.env logMissing) s (.arrive q) = some (s, .rejected code) := congrArg some arrives
    exact ⟨s, _, (handle_step rfl moves alive).trans (handle_answer rfl), ⟨rfl, rfl, wf, alive⟩, Or.inl nonzero⟩
  by_cases valid : validateValidAcks q.acks = true
  · by_cases leads : s.ps.leaderBrokerID = s.brokerID
    · by_cases under : q.acks = ackExactlyOnce ∧ s.underMinISR = true
      · refine refused errNotEnoughReplicas (by decide) ?_
        rw [Leader.arrive, if_neg (by simp [valid]), if_neg (by simp [leads]), if_pos under]
      · obtain ⟨raw, records, calm⟩ := readable (admits_iff.mpr ⟨valid, leads, under⟩)
        cases decoded : decodeRecordBatch snappy raw with
        | error failure =>
          refine refused errCorruptMessage (by decide) ?_
          unfold Leader.arrive
          rw [if_neg (by simp [valid]), if_neg (by simp [leads]), if_neg under, records]
          dsimp only
          rw [decoded]
          cases failure with
          | panics => exact absurd decoded calm
          | _ => rfl
        | ok batch =>
          have moves : step snappy (turn.env logMissing) s (.arrive q) = some (s,
              if (⟨q.acks, raw, batch⟩ : Produce).pid ≥ 0 then .validate ⟨q.acks, raw, batch⟩
                else .append ⟨q.acks, raw, batch⟩) := by
            rw [step, Leader.arrive, if_neg (by simp [valid]), if_neg (by simp [leads]), if_neg under, records]
            dsimp only
            rw [decoded]
          split at moves
          · obtain ⟨s', r, ran, steady, outcome⟩ := handle_validate (d := ⟨q.acks, raw, batch⟩) wf alive acked
            exact ⟨s', r, (handle_step rfl moves alive).trans ran, steady,
              outcome.imp_right fun held => ⟨⟨q.acks, raw, batch⟩, records, decoded, held⟩⟩
          · obtain ⟨s', r, ran, steady, outcome⟩ := handle_append (d := ⟨q.acks, raw, batch⟩) wf alive acked
            exact ⟨s', r, (handle_step rfl moves alive).trans ran, steady,
              outcome.imp_right fun held => ⟨⟨q.acks, raw, batch⟩, records, decoded, Or.inl held⟩⟩
    · refine refused errNotLeaderForPartition (by decide) ?_
      rw [Leader.arrive, if_neg (by simp [valid]), if_pos leads]
  · refine refused errInvalidRequiredAcks (by decide) ?_
    rw [Leader.arrive, if_pos (by simpa using valid)]

theorem handle_arrive_empty (alive : s.crash = none) (admitted : s.admits q = true) (empty : q.records = none) :
    handle snappy turn logMissing handlerSteps s (.arrive q) = some (s, ⟨0, 0, false⟩) := by
  obtain ⟨valid, leads, replicated⟩ := admits_iff.mp admitted
  have moves : step snappy (turn.env logMissing) s (.arrive q) = some (s, .rejected 0) := by
    rw [step, Leader.arrive, if_neg (by simp [valid]), if_neg (by simp [leads]), if_neg replicated, empty]
  exact (handle_step rfl moves alive).trans (handle_answer rfl)

theorem handle_arrive_panics {raw : Bytes} (admitted : s.admits q = true) (records : q.records = some raw)
    (panics : decodeRecordBatch snappy raw = .error .panics) :
    handle snappy turn logMissing handlerSteps s (.arrive q) = none := by
  obtain ⟨valid, leads, replicated⟩ := admits_iff.mp admitted
  have moves : step snappy (turn.env logMissing) s (.arrive q) =
    some ({ s with crash := some .decode }, .finished) := by
    rw [step, Leader.arrive, if_neg (by simp [valid]), if_neg (by simp [leads]), if_neg replicated, records]
    dsimp only
    rw [panics]
  have busy : (Task.arrive q).answer turn = none := rfl
  rw [handlerSteps, handle, busy, moves]
  rfl

end Handler

end KafGo.Partition

namespace KafGo.Server
open Lib Coordinator Protocol Storage Partition

structure PartitionProduceResponse where
  index : Int32
  errorCode : Int
  baseOffset : Int
  logAppendTimeMs : Int
  logStartOffset : Int
  errorMessage : Option String

structure TopicProduceResponse where
  topicId : Wire.UUID
  partitionResponses : List PartitionProduceResponse

structure ProduceResponse where
  responses : List TopicProduceResponse
  throttleTimeMs : Int

structure TopicResult where
  topicId : Wire.UUID
  partitions : List (Int32 × PartitionResult)

def errorMessage (code : Int) : String :=
  if code = Partition.errUnknownTopicOrPartition then "unknown topic or partition"
  else if code = errCorruptMessage then "corrupt message"
  else if code = errKafkaStorageError then "kafka storage error"
  else "unknown error"

def partitionResponse (pr : Int32 × PartitionResult) : PartitionProduceResponse where
  index := pr.1
  errorCode := pr.2.errorCode
  baseOffset := pr.2.baseOffset
  logAppendTimeMs := -1
  logStartOffset := pr.2.baseOffset
  errorMessage := if pr.2.errorCode ≠ 0 then some (errorMessage pr.2.errorCode) else none

def TopicResult.response (tr : TopicResult) : TopicProduceResponse := ⟨tr.topicId, tr.partitions.map partitionResponse⟩

def writeProduceApiResponse (acks : Int) (results : List TopicResult) : Option ProduceResponse :=
  if acks = 0 then none else some ⟨results.map TopicResult.response, 0⟩

def storeId (id : Wire.UUID) : Uuid := beNat id.bytes

def entryOf (acks : Int16) (p : Wire.ProduceRequestPartitionData) : Partition.ProduceRequest :=
  ⟨acks.toInt, p.records.map (·.elems)⟩

namespace Broker

def leaderOf (b : Broker) (topicId : Uuid) (partition : Int) (e : PartitionEntry) : Leader where
  brokerID := b.brokerID
  topicKnown := true
  minInsync := (b.topicStore.metas topicId).map (·.minInsyncReplicas)
  ps := e.ps
  purgatory := e.purgatory
  idempotence := e.idempotence.getD .empty
  log := (b.topicStore.getCommitLog topicId partition).getD (newCommitLog defaultCommitLogConfig [])
  stored := []
  crash := none

def keep (b : Broker) (topicId : Uuid) (topicName : String) (partition : Int) (e : PartitionEntry) (s : Leader) :
    Broker :=
  { b with
    partitionStates := b.partitionStates.put (partitionKey topicName partition)
      { e with ps := s.ps, purgatory := s.purgatory, idempotence := e.idempotence.map fun _ => s.idempotence }
    topicStore :=
      if (b.topicStore.getCommitLog topicId partition).isNone then b.topicStore
      else b.topicStore.addCommitLog topicId partition s.log }

section Definitions

variable [Memory] (snappy : Bytes → Option Bytes)

def producePartition (turn : Turn) (b : Broker) (topicId : Uuid) (topicName : String) (acks : Int16)
    (p : Wire.ProduceRequestPartitionData) : Option (Broker × PartitionResult) :=
  if !validateValidAcks acks.toInt then some (b, ⟨errInvalidRequiredAcks, 0, false⟩)
  else match b.partitionStates.getPartitionState topicName p.index.toInt with
    | none => some (b, ⟨Partition.errNotLeaderForPartition, 0, false⟩)
    | some e =>
      (handle snappy turn (b.topicStore.getCommitLog topicId p.index.toInt).isNone handlerSteps
        (b.leaderOf topicId p.index.toInt e) (.arrive (entryOf acks p))).map fun served =>
          (b.keep topicId topicName p.index.toInt e served.1, served.2)

def producePartitions (topicId : Uuid) (topicName : String) (acks : Int16) :
    List Wire.ProduceRequestPartitionData → (Nat → Turn) → Broker → Option (Broker × List (Int32 × PartitionResult))
  | [], _, b => some (b, [])
  | p :: rest, turns, b =>
    (b.producePartition snappy (turns 0) topicId topicName acks p).bind fun served =>
      (producePartitions topicId topicName acks rest (fun n => turns (n + 1)) served.1).map fun more =>
        (more.1, (p.index, served.2) :: more.2)

/-- The loop over the topics, which goes on with the next one if `GetTopic` fails. -/
def produceTopics (acks : Int16) :
    List Wire.ProduceRequestTopicData → (Nat → Nat → Turn) → Broker → Option (Broker × List TopicResult)
  | [], _, b => some (b, [])
  | topic :: rest, turns, b => match b.topicStore.getTopic (storeId topic.topicId) with
    | none => produceTopics acks rest (fun n => turns (n + 1)) b
    | some topicMeta =>
      (producePartitions snappy (storeId topic.topicId) topicMeta.name acks topic.partitionData.elems (turns 0) b).bind
        fun served => (produceTopics acks rest (fun n => turns (n + 1)) served.1).map fun more =>
          (more.1, ⟨topic.topicId, served.2⟩ :: more.2)

/-- The broker afterwards and the response, if one is written; `none` if the process dies. -/
def handleProduceApiKeys (turns : Nat → Nat → Turn) (b : Broker) (q : Wire.ProduceRequest) :
    Option (Broker × Option ProduceResponse) :=
  (b.produceTopics snappy q.acks q.topicData.elems turns).map fun done =>
    (done.1, writeProduceApiResponse q.acks.toInt done.2)

/-- A partition with a producer state, none of whose `Done` channels is closed twice. -/
def ReadyEntry (_ : String) (e : PartitionEntry) : Prop := e.purgatory.WellFormed ∧ e.idempotence.isSome = true

def Ready (b : Broker) : Prop := b.partitionStates.All ReadyEntry

/-- The checks before the records of an entry are looked at. -/
def Admits (b : Broker) (topicId : Uuid) (topicName : String) (acks : Int16) (p : Wire.ProduceRequestPartitionData) :
    Prop :=
  ∃ e, b.partitionStates.getPartitionState topicName p.index.toInt = some e ∧
    (b.leaderOf topicId p.index.toInt e).admits (entryOf acks p) = true

/-- The entry does not get to its records, or `DecodeRecordBatch` gets through them. -/
def Readable (b : Broker) (topicId : Uuid) (topicName : String) (acks : Int16) (p : Wire.ProduceRequestPartitionData) :
    Prop :=
  b.Admits topicId topicName acks p →
    ∃ raw, (entryOf acks p).records = some raw ∧ decodeRecordBatch snappy raw ≠ .error .panics

/-- Every topic is known and every entry is readable. -/
def Answerable (b : Broker) (q : Wire.ProduceRequest) : Prop :=
  ∀ topic ∈ q.topicData.elems, ∃ topicMeta, b.topicStore.getTopic (storeId topic.topicId) = some topicMeta ∧
    ∀ p ∈ topic.partitionData.elems, b.Readable snappy (storeId topic.topicId) topicMeta.name q.acks p

/-- The entry has a result of its own: an error, or the offset of its batch, which is appended to the log now or is in
the producer state of the partition. -/
structure EntryAnswered (acks : Int16) (topicId : Uuid) (b : Broker) (p : Wire.ProduceRequestPartitionData)
    (r : PartitionProduceResponse) (b' : Broker) : Prop where
  index : r.index = p.index
  served : ∀ topicMeta, b.topicStore.getTopic topicId = some topicMeta → ∃ turn result,
    b.producePartition snappy turn topicId topicMeta.name acks p = some (b', result) ∧
      r = partitionResponse (p.index, result)
  outcome : r.errorCode ≠ 0 ∨ ∃ topicMeta e, ∃ d : Produce, b.topicStore.getTopic topicId = some topicMeta ∧
    b.partitionStates.getPartitionState topicMeta.name p.index.toInt = some e ∧
    (entryOf acks p).records = some d.raw ∧ decodeRecordBatch snappy d.raw = .ok d.batch ∧
    ((∃ log log', b.topicStore.getCommitLog topicId p.index.toInt = some log ∧
        log.appendRaw d.raw d.count = (log', .ok r.baseOffset) ∧
        b'.topicStore.getCommitLog topicId p.index.toInt = some log') ∨
      ∃ st prod, e.idempotence = some st ∧ st.producers d.pid = some prod ∧
        lookupRing prod d.firstSeq d.lastSeq = some r.baseOffset)

def TopicAnswered (acks : Int16) (b : Broker) (topic : Wire.ProduceRequestTopicData) (r : TopicProduceResponse)
    (b' : Broker) : Prop :=
  r.topicId = topic.topicId ∧ Along (EntryAnswered snappy acks (storeId topic.topicId)) b topic.partitionData.elems
    r.partitionResponses b'

end Definitions

section Store

variable {store : PartitionStateStore} (all : store.All ReadyEntry)

theorem newPartition_ready (key topicName : String) (partition leader leaderEpoch : Int) (replicas isr : List Int) :
    ReadyEntry key (newPartition topicName partition leader leaderEpoch replicas isr) :=
  ⟨PartitionPurgatory.empty_wellFormed, rfl⟩

include all

theorem setLeader_ready (topicName : String) (partition brokerID : Int) :
    (store.setLeader topicName partition brokerID).All ReadyEntry :=
  all.setLeader (fun _ old => ⟨old.1, rfl⟩) (newPartition_ready ..)

theorem setPartitionState_ready (topicName : String) (partition leader leaderEpoch : Int) (replicas isr : List Int) :
    (store.setPartitionState topicName partition leader leaderEpoch replicas isr).All ReadyEntry :=
  all.put (newPartition_ready ..)

theorem assignReplicas_ready (topicName : String) (partitionCount replicationFactor : Int) (brokers : List Int) :
    (store.assignReplicas topicName partitionCount replicationFactor brokers).All ReadyEntry :=
  all.assignReplicas fun _ _ => newPartition_ready ..

end Store

/-- The same topics, leaders and in-sync sets. -/
structure Like (b b' : Broker) : Prop where
  brokerID : b'.brokerID = b.brokerID
  topics : b'.topicStore.topics = b.topicStore.topics
  metas : b'.topicStore.metas = b.topicStore.metas
  view : ∀ key, (b'.partitionStates.partitions key).map (fun e => (e.ps.leaderBrokerID, e.ps.isr)) =
    (b.partitionStates.partitions key).map fun e => (e.ps.leaderBrokerID, e.ps.isr)

section Frame

variable {snappy : Bytes → Option Bytes} {b b' b'' : Broker} {topicId : Uuid} {topicName : String} {acks : Int16}
  {p : Wire.ProduceRequestPartitionData} {partition : Int} {e : PartitionEntry} {s : Leader}

theorem Like.refl (b : Broker) : b.Like b := ⟨rfl, rfl, rfl, fun _ => rfl⟩

theorem Like.trans (first : b.Like b') (second : b'.Like b'') : b.Like b'' :=
  ⟨second.brokerID.trans first.brokerID, second.topics.trans first.topics, second.metas.trans first.metas,
    fun key => (second.view key).trans (first.view key)⟩

theorem Like.symm (like : b.Like b') : b'.Like b :=
  ⟨like.brokerID.symm, like.topics.symm, like.metas.symm, fun key => (like.view key).symm⟩

theorem Like.getTopic (like : b.Like b') (topicId : Uuid) :
    b'.topicStore.getTopic topicId = b.topicStore.getTopic topicId :=
  congrFun like.topics topicId

theorem Like.admits (like : b.Like b') (admitted : b.Admits topicId topicName acks p) :
    b'.Admits topicId topicName acks p := by
  obtain ⟨e, found, admits⟩ := admitted
  have view := like.view (partitionKey topicName p.index.toInt)
  have here : b.partitionStates.partitions (partitionKey topicName p.index.toInt) = some e := found
  rw [here, Option.map_some] at view
  obtain ⟨e', found', same⟩ := Option.map_eq_some_iff.mp view
  obtain ⟨leader, isr⟩ := Prod.mk.inj same
  refine ⟨e', found', ?_⟩
  obtain ⟨valid, leads, replicated⟩ := admits_iff.mp admits
  refine admits_iff.mpr ⟨valid, ?_, ?_⟩
  · exact leader.trans (leads.trans like.brokerID.symm)
  · have under : (b'.leaderOf topicId p.index.toInt e').underMinISR =
      (b.leaderOf topicId p.index.toInt e).underMinISR := by
      simp only [Leader.underMinISR, Leader.getMinInsyncReplicas, leaderOf, isr, like.metas]
      rfl
    rw [under]
    exact replicated

theorem keep_like (found : b.partitionStates.getPartitionState topicName partition = some e)
    (steady : (b.leaderOf topicId partition e).Steady s) : b.Like (b.keep topicId topicName partition e s) := by
  refine ⟨rfl, ?_, ?_, ?_⟩
  · simp only [keep]
    split <;> rfl
  · simp only [keep]
    split <;> rfl
  · intro key
    simp only [keep]
    by_cases same : key = partitionKey topicName partition
    · have here : b.partitionStates.partitions key = some e := same ▸ found
      rw [here, same, PartitionStateStore.put_self, Option.map_some, Option.map_some]
      exact congrArg some (Prod.ext steady.leader steady.isr)
    · rw [PartitionStateStore.put_other _ _ same]

theorem keep_ready (ready : b.Ready) (found : b.partitionStates.getPartitionState topicName partition = some e)
    (steady : (b.leaderOf topicId partition e).Steady s) : (b.keep topicId topicName partition e s).Ready := by
  refine PartitionStateStore.All.put ready ⟨steady.purgatory, ?_⟩
  rw [Option.isSome_map]
  exact (ready _ e found).2

theorem getCommitLog_keep {log : CommitLog} (registered : b.topicStore.getCommitLog topicId partition = some log) :
    (b.keep topicId topicName partition e s).topicStore.getCommitLog topicId partition = some s.log := by
  simp only [keep, registered]
  exact TopicStore.getCommitLog_add

theorem acks_ne_zero (acked : acks = 1 ∨ acks = -1) : (entryOf acks p).acks ≠ ackAtMostOnce := by
  rcases acked with rfl | rfl
  · exact (by decide : (1 : Int16).toInt ≠ 0)
  · exact (by decide : (-1 : Int16).toInt ≠ 0)

theorem acks_valid (acked : acks = 1 ∨ acks = -1) : validateValidAcks acks.toInt = true := by
  rcases acked with rfl | rfl
  · decide
  · decide

section Requests

variable [Memory]

theorem producePartition_found (turn : Turn) (acked : acks = 1 ∨ acks = -1)
    (found : b.partitionStates.getPartitionState topicName p.index.toInt = some e) :
    b.producePartition snappy turn topicId topicName acks p =
      (handle snappy turn (b.topicStore.getCommitLog topicId p.index.toInt).isNone handlerSteps
        (b.leaderOf topicId p.index.toInt e) (.arrive (entryOf acks p))).map fun served =>
          (b.keep topicId topicName p.index.toInt e served.1, served.2) := by
  rw [producePartition, acks_valid acked, found]
  rfl

theorem producePartition_missing (turn : Turn) (acked : acks = 1 ∨ acks = -1)
    (missing : b.partitionStates.getPartitionState topicName p.index.toInt = none) :
    b.producePartition snappy turn topicId topicName acks p =
      some (b, ⟨Partition.errNotLeaderForPartition, 0, false⟩) := by
  rw [producePartition, acks_valid acked, missing]
  rfl

theorem producePartition_answered (turn : Turn) (acked : acks = 1 ∨ acks = -1) (ready : b.Ready)
    {topicMeta : TopicData} (known : b.topicStore.getTopic topicId = some topicMeta)
    (readable : b.Readable snappy topicId topicMeta.name acks p) : ∃ b' result,
      b.producePartition snappy turn topicId topicMeta.name acks p = some (b', result) ∧ b.Like b' ∧ b'.Ready ∧
      EntryAnswered snappy acks topicId b p (partitionResponse (p.index, result)) b' := by
  cases found : b.partitionStates.getPartitionState topicMeta.name p.index.toInt with
  | none =>
    have ran : b.producePartition snappy turn topicId topicMeta.name acks p = _ :=
      producePartition_missing turn acked found
    refine ⟨_, _, ran, .refl b, ready, rfl, ?_, Or.inl (show (6 : Int) ≠ 0 by decide)⟩
    intro topicMeta' known'
    obtain rfl := Option.some.inj (known.symm.trans known')
    exact ⟨turn, _, ran, rfl⟩
  | some e =>
    have wf : (b.leaderOf topicId p.index.toInt e).purgatory.WellFormed := (ready _ e found).1
    obtain ⟨s, r, handled, steady, outcome⟩ := handle_arrive turn
      (b.topicStore.getCommitLog topicId p.index.toInt).isNone wf rfl (acks_ne_zero acked)
      fun admits => readable ⟨e, found, admits⟩
    have ran : b.producePartition snappy turn topicId topicMeta.name acks p = _ :=
      producePartition_found turn acked found
    rw [handled, Option.map_some] at ran
    refine ⟨_, r, ran, keep_like found steady, keep_ready ready found steady, rfl, ?_, ?_⟩
    · intro topicMeta' known'
      obtain rfl := Option.some.inj (known.symm.trans known')
      exact ⟨turn, r, ran, rfl⟩
    · refine outcome.imp_right ?_
      rintro ⟨d, records, decoded, held⟩
      refine ⟨topicMeta, e, d, known, found, records, decoded, ?_⟩
      rcases held with ⟨registered, appended⟩ | ⟨prod, entry, cached⟩
      · obtain ⟨log, here⟩ : ∃ log, b.topicStore.getCommitLog topicId p.index.toInt = some log := by
          cases found : b.topicStore.getCommitLog topicId p.index.toInt with
          | none =>
            rw [found] at registered
            cases registered
          | some log => exact ⟨log, rfl⟩
        refine Or.inl ⟨log, s.log, here, ?_, getCommitLog_keep here⟩
        simp only [leaderOf, here, Option.getD_some] at appended
        exact appended
      · obtain ⟨st, producers⟩ := Option.isSome_iff_exists.mp (ready _ e found).2
        refine Or.inr ⟨st, prod, producers, ?_, cached⟩
        simp only [leaderOf, producers, Option.getD_some] at entry
        exact entry

theorem producePartition_ran {turn : Turn} (acked : acks = 1 ∨ acks = -1) (ready : b.Ready) {topicMeta : TopicData}
    (known : b.topicStore.getTopic topicId = some topicMeta) {result : PartitionResult}
    (ran : b.producePartition snappy turn topicId topicMeta.name acks p = some (b', result)) :
    b.Like b' ∧ b'.Ready ∧ (b.Admits topicId topicMeta.name acks p →
      (∃ raw, (entryOf acks p).records = some raw ∧ decodeRecordBatch snappy raw ≠ .error .panics) ∨
        (entryOf acks p).records = none ∧ result.errorCode = 0) := by
  by_cases readable : b.Readable snappy topicId topicMeta.name acks p
  · obtain ⟨_, _, again, like, kept, _⟩ := producePartition_answered turn acked ready known readable
    obtain ⟨rfl, _⟩ := Prod.mk.inj (Option.some.inj (ran.symm.trans again))
    exact ⟨like, kept, fun admits => Or.inl (readable admits)⟩
  · obtain ⟨⟨e, found, admits⟩, unread⟩ := Classical.not_imp.mp readable
    rw [producePartition_found turn acked found] at ran
    cases records : (entryOf acks p).records with
    | none =>
      rw [handle_arrive_empty rfl admits records, Option.map_some] at ran
      obtain ⟨rfl, rfl⟩ := Prod.mk.inj (Option.some.inj ran)
      have steady : (b.leaderOf topicId p.index.toInt e).Steady (b.leaderOf topicId p.index.toInt e) :=
        ⟨rfl, rfl, (ready _ e found).1, rfl⟩
      exact ⟨keep_like found steady, keep_ready ready found steady, fun _ => Or.inr ⟨rfl, rfl⟩⟩
    | some raw =>
      by_cases panics : decodeRecordBatch snappy raw = .error .panics
      · rw [handle_arrive_panics admits records panics] at ran
        cases ran
      · exact absurd ⟨raw, records, panics⟩ unread

/-! ### Whole requests -/

theorem Like.readable (like : b.Like b') (readable : b.Readable snappy topicId topicName acks p) :
    b'.Readable snappy topicId topicName acks p := fun admits => readable (like.symm.admits admits)

theorem producePartitions_answered (acked : acks = 1 ∨ acks = -1) {topicMeta : TopicData}
    (ps : List Wire.ProduceRequestPartitionData) : ∀ {b : Broker} (turns : Nat → Turn), b.Ready →
      b.topicStore.getTopic topicId = some topicMeta →
      (∀ p ∈ ps, b.Readable snappy topicId topicMeta.name acks p) →
      ∃ b' results, producePartitions snappy topicId topicMeta.name acks ps turns b = some (b', results) ∧ b.Like b' ∧
        b'.Ready ∧ Along (EntryAnswered snappy acks topicId) b ps (results.map partitionResponse) b' := by
  induction ps with
  | nil =>
    intro b turns ready _ _
    exact ⟨b, [], rfl, .refl b, ready, .nil b⟩
  | cons p ps ih =>
    intro b turns ready known readable
    obtain ⟨b₁, result, first, like, ready₁, answered⟩ :=
      producePartition_answered (turns 0) acked ready known (readable p List.mem_cons_self)
    obtain ⟨b₂, results, rest, like', ready₂, along⟩ := ih (fun n => turns (n + 1)) ready₁
      ((like.getTopic topicId).trans known) fun p member => like.readable (readable p (List.mem_cons_of_mem _ member))
    refine ⟨b₂, (p.index, result) :: results, ?_, like.trans like', ready₂, .cons answered along⟩
    rw [producePartitions, first, Option.bind_some, rest, Option.map_some]

theorem produceTopics_answered (acked : acks = 1 ∨ acks = -1) (topics : List Wire.ProduceRequestTopicData) :
    ∀ {b : Broker} (turns : Nat → Nat → Turn), b.Ready →
      (∀ topic ∈ topics, ∃ topicMeta, b.topicStore.getTopic (storeId topic.topicId) = some topicMeta ∧
        ∀ p ∈ topic.partitionData.elems, b.Readable snappy (storeId topic.topicId) topicMeta.name acks p) →
      ∃ b' results, produceTopics snappy acks topics turns b = some (b', results) ∧
        Along (TopicAnswered snappy acks) b topics (results.map TopicResult.response) b' := by
  induction topics with
  | nil =>
    intro b turns _ _
    exact ⟨b, [], rfl, .nil b⟩
  | cons topic topics ih =>
    intro b turns ready answerable
    obtain ⟨topicMeta, known, readable⟩ := answerable topic List.mem_cons_self
    obtain ⟨b₁, results, first, like, ready₁, along⟩ :=
      producePartitions_answered acked topic.partitionData.elems (turns 0) ready known readable
    obtain ⟨b₂, more, rest, others⟩ := ih (fun n => turns (n + 1)) ready₁ (by
      intro topic' member
      obtain ⟨topicMeta', known', readable'⟩ := answerable topic' (List.mem_cons_of_mem _ member)
      exact ⟨topicMeta', (like.getTopic _).trans known', fun p inside => like.readable (readable' p inside)⟩)
    refine ⟨b₂, ⟨topic.topicId, results⟩ :: more, ?_, .cons ⟨rfl, along⟩ others⟩
    rw [produceTopics, known]
    dsimp only
    rw [first, Option.bind_some, rest, Option.map_some]

/-- The states that the results are read along need not be those of the run: which entries have records does not
depend on the state. -/
theorem producePartitions_readable (acked : acks = 1 ∨ acks = -1) {topicMeta : TopicData}
    (ps : List Wire.ProduceRequestPartitionData) : ∀ {b b' c c' : Broker} {turns : Nat → Turn}
      {results : List (Int32 × PartitionResult)}, b.Ready → b.topicStore.getTopic topicId = some topicMeta →
      producePartitions snappy topicId topicMeta.name acks ps turns b = some (b', results) →
      Along (EntryAnswered snappy acks topicId) c ps (results.map partitionResponse) c' →
      b.Like b' ∧ b'.Ready ∧ ∀ p ∈ ps, b.Readable snappy topicId topicMeta.name acks p := by
  induction ps with
  | nil =>
    intro b b' c c' turns results ready _ ran _
    obtain ⟨rfl, _⟩ := Prod.mk.inj (Option.some.inj ran)
    exact ⟨.refl b, ready, fun p => nofun⟩
  | cons p ps ih =>
    intro b b' c c' turns results ready known ran along
    rw [producePartitions] at ran
    obtain ⟨⟨b₁, result⟩, first, ran⟩ := Option.bind_eq_some_iff.mp ran
    obtain ⟨⟨b₂, more⟩, rest, same⟩ := Option.map_eq_some_iff.mp ran
    obtain ⟨rfl, rfl⟩ := Prod.mk.inj same
    obtain ⟨like, ready₁, read⟩ := producePartition_ran acked ready known first
    cases along with
    | cons head tail =>
      obtain ⟨like', ready₂, others⟩ := ih ready₁ ((like.getTopic topicId).trans known) rest tail
      refine ⟨like.trans like', ready₂, List.forall_mem_cons.mpr
        ⟨?_, fun p member => like.symm.readable (others p member)⟩⟩
      intro admits
      rcases read admits with readable | ⟨empty, zero⟩
      · exact readable
      · rcases head.outcome with nonzero | ⟨_, _, d, _, _, records, _⟩
        · exact absurd zero nonzero
        · cases empty.symm.trans records

theorem length_produceTopics (topics : List Wire.ProduceRequestTopicData) : ∀ {b b' : Broker}
    {turns : Nat → Nat → Turn} {results : List TopicResult},
    produceTopics snappy acks topics turns b = some (b', results) → results.length ≤ topics.length := by
  induction topics with
  | nil =>
    intro b b' turns results ran
    obtain ⟨_, rfl⟩ := Prod.mk.inj (Option.some.inj ran)
    exact Nat.le_refl _
  | cons topic topics ih =>
    intro b b' turns results ran
    rw [produceTopics] at ran
    split at ran
    · exact Nat.le_succ_of_le (ih ran)
    · obtain ⟨served, _, ran⟩ := Option.bind_eq_some_iff.mp ran
      obtain ⟨more, rest, same⟩ := Option.map_eq_some_iff.mp ran
      obtain ⟨_, rfl⟩ := Prod.mk.inj same
      exact Nat.succ_le_succ (ih rest)

theorem produceTopics_answerable (acked : acks = 1 ∨ acks = -1) (topics : List Wire.ProduceRequestTopicData) :
    ∀ {b b' c c' : Broker} {turns : Nat → Nat → Turn} {results : List TopicResult}, b.Ready →
      produceTopics snappy acks topics turns b = some (b', results) →
      Along (TopicAnswered snappy acks) c topics (results.map TopicResult.response) c' →
      ∀ topic ∈ topics, ∃ topicMeta, b.topicStore.getTopic (storeId topic.topicId) = some topicMeta ∧
        ∀ p ∈ topic.partitionData.elems, b.Readable snappy (storeId topic.topicId) topicMeta.name acks p := by
  induction topics with
  | nil => exact fun _ _ _ _ => nofun
  | cons topic topics ih =>
    intro b b' c c' turns results ready ran along
    have count := along.length_eq
    rw [List.length_map, List.length_cons] at count
    rw [produceTopics] at ran
    split at ran
    · -- a skipped topic leaves fewer results than topics
      have fewer := length_produceTopics topics ran
      omega
    · rename_i topicMeta known
      obtain ⟨⟨b₁, partitions⟩, first, ran⟩ := Option.bind_eq_some_iff.mp ran
      obtain ⟨⟨b₂, more⟩, rest, same⟩ := Option.map_eq_some_iff.mp ran
      obtain ⟨rfl, rfl⟩ := Prod.mk.inj same
      cases along with
      | cons head tail =>
        obtain ⟨like, ready₁, readable⟩ :=
          producePartitions_readable acked topic.partitionData.elems ready known first head.2
        refine List.forall_mem_cons.mpr ⟨⟨topicMeta, known, readable⟩, ?_⟩
        intro topic' member
        obtain ⟨topicMeta', known', readable'⟩ := ih ready₁ rest tail topic' member
        exact ⟨topicMeta', (like.getTopic _).symm.trans known', fun p inside => like.symm.readable (readable' p inside)⟩

/-- The response has one result for each entry, with an error or the offset of its batch, exactly if every topic is
known and every admitted entry has records that can be looked at. -/
theorem produce_answers_iff (snappy : Bytes → Option Bytes) (turns : Nat → Nat → Turn) (b : Broker) (ready : b.Ready)
    (q : Wire.ProduceRequest) (acked : q.acks = 1 ∨ q.acks = -1) :
    (∃ b' resp, b.handleProduceApiKeys snappy turns q = some (b', some resp) ∧
      Along (TopicAnswered snappy q.acks) b q.topicData.elems resp.responses b') ↔ b.Answerable snappy q := by
  have responds : q.acks.toInt ≠ 0 := by
    rcases acked with one | all
    · rw [one]
      decide
    · rw [all]
      decide
  constructor
  · rintro ⟨b', resp, ran, along⟩
    obtain ⟨⟨b₁, results⟩, served, same⟩ := Option.map_eq_some_iff.mp ran
    obtain ⟨_, written⟩ := Prod.mk.inj same
    rw [writeProduceApiResponse, if_neg responds] at written
    rw [← Option.some.inj written] at along
    exact produceTopics_answerable acked _ ready served along
  · intro answerable
    obtain ⟨b', results, ran, along⟩ := produceTopics_answered acked _ turns ready answerable
    refine ⟨b', ⟨results.map TopicResult.response, 0⟩, ?_, along⟩
    rw [handleProduceApiKeys, ran, Option.map_some, writeProduceApiResponse, if_neg responds]

end Requests

end Frame

def ordersBroker : Broker :=
  { newServer 1 [] [] with
    topicStore := (newTopicStore.put ⟨"orders", 7, 1, 1⟩).addCommitLog 7 0 (newCommitLog defaultCommitLogConfig [])
    partitionStates := newPartitionStateStore.setLeader "orders" 0 1 }

theorem ordersBroker_ready : ordersBroker.Ready :=
  setLeader_ready PartitionStateStore.newPartitionStateStore_all "orders" 0 1

def single {α : Type} [Wire.Sized α] (a : α) : Wire.Slice α :=
  ⟨[a], (Nat.one_mul _).trans_le ((Wire.Sized.range).2.trans (show 2 ^ 20 ≤ maxAlloc by decide))⟩

def produceTo (topicId : UInt8) (records : Wire.CompactRecords) : Wire.ProduceRequest :=
  ⟨none, 1, 1000, single ⟨⟨List.replicate 15 0 ++ [topicId], rfl⟩, single ⟨0, records⟩⟩⟩

def oneRecord : Wire.Slice UInt8 := ⟨soloBatch (2 ^ 64 - 1) 0 0, by decide⟩

def quiet : Nat → Nat → Turn := fun _ _ => ⟨0, none, none⟩

theorem produce_answers_one : ∃ b' resp,
    ordersBroker.handleProduceApiKeys (fun _ => none) quiet (produceTo 7 (some oneRecord)) = some (b', some resp) ∧
      Along (TopicAnswered (fun _ => none) 1) ordersBroker
        (produceTo 7 (some oneRecord)).topicData.elems resp.responses b' := by
  refine (produce_answers_iff _ quiet ordersBroker ordersBroker_ready (produceTo 7 (some oneRecord))
    (Or.inl rfl)).mpr ?_
  intro topic member
  obtain rfl := List.mem_singleton.mp member
  have known : ordersBroker.topicStore.getTopic 7 = some ⟨"orders", 7, 1, 1⟩ := by
    simp [ordersBroker, TopicStore.getTopic, TopicStore.put, TopicStore.addCommitLog]
  have id : storeId ⟨List.replicate 15 0 ++ [7], rfl⟩ = 7 := by decide
  refine ⟨⟨"orders", 7, 1, 1⟩, (congrArg ordersBroker.topicStore.getTopic id).trans known, ?_⟩
  intro p inside _
  obtain rfl := List.mem_singleton.mp inside
  exact ⟨oneRecord.elems, rfl, by decide +kernel⟩

/-- The response to a request for a topic that the broker does not know says nothing about it. The same broker
answers an entry without records as if a batch had been stored at offset 0. -/
theorem unknown_topic_left_out :
    (ordersBroker.handleProduceApiKeys (fun _ => none) quiet (produceTo 9 (some oneRecord))).map (·.2) =
        some (some ⟨[], 0⟩) ∧
      (ordersBroker.handleProduceApiKeys (fun _ => none) quiet (produceTo 7 none)).map (·.2) =
        some (some ⟨[⟨⟨List.replicate 15 0 ++ [7], rfl⟩, [⟨0, 0, 0, -1, 0, none⟩]⟩], 0⟩) := by
  constructor
  · rfl
  · rfl

end Broker

end KafGo.Server
