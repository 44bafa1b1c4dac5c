import KafGo.Coordinator.Idempotence
import KafGo.Coordinator.PartitionState
import KafGo.Coordinator.Purgatory
import KafGo.Lib.Threads
import KafGo.Protocol.RecordBatch
import KafGo.Storage.CommitLog

/-!
# One partition on its leader

The goroutines that work on a partition: produce handlers, replica fetches, ticks of the ISR manager, and
single calls of the operations they use. Each lock is taken and released several times on the way, so a
task is cut into the steps between two of them; `step` is one such step.
-/

namespace KafGo.Partition
open Lib Coordinator Protocol Storage

def errCorruptMessage : Int := 2
def errUnknownTopicOrPartition : Int := 3
def errNotLeaderForPartition : Int := 6
def errRequestTimedOut : Int := 7
def errNotEnoughReplicas : Int := 19
def errKafkaStorageError : Int := 56
def errInvalidRequiredAcks : Int := 72

def ackAtMostOnce : Int := 0
def ackAtLeastOnce : Int := 1
def ackExactlyOnce : Int := -1

def validateValidAcks (acks : Int) : Bool :=
  acks == ackAtMostOnce || acks == ackAtLeastOnce || acks == ackExactlyOnce

structure ProduceRequest where
  acks : Int
  records : Option Bytes

structure Produce where
  acks : Int
  raw : Bytes
  batch : RecordBatch

namespace Produce

def pid (d : Produce) : Int := d.batch.producerId
def epoch (d : Produce) : Int := d.batch.producerEpoch
def firstSeq (d : Produce) : Int := d.batch.baseSequence
def count (d : Produce) : Nat := d.batch.records.length
def lastSeq (d : Produce) : Int := wrapSigned 32 (d.firstSeq + d.count - 1)

def lastOffset (d : Produce) (base : Int) : Int := base + d.count - 1

end Produce

structure PartitionResult where
  errorCode : Int
  baseOffset : Int
  suppressed : Bool
  deriving DecidableEq, Repr

inductive Crash where
  | decode
  | channel
  deriving DecidableEq, Repr

/-- `topicKnown` says that the name of the topic resolves, `minInsync` is the value of its meta data.
`stored` lists the appended batches with their base offsets, in log order. -/
structure Leader where
  brokerID : Int
  topicKnown : Bool
  minInsync : Option Int
  ps : PartitionState
  purgatory : PartitionPurgatory
  idempotence : IdempotenceState
  log : CommitLog
  stored : List (Produce × Int)
  crash : Option Crash

def Leader.getMinInsyncReplicas (s : Leader) : Int :=
  match s.minInsync with
  | some m => if m > 0 then m else 1
  | none => 1

/-- `int16(len(ps.ISR)) < minISR`. -/
def Leader.underMinISR (s : Leader) : Bool :=
  decide (wrapSigned 16 (s.ps.isr.length : Int) < s.getMinInsyncReplicas)

/-- What the environment decides in a step: the clock, whether a wait ran into its deadline, whether the
commit log is registered, and whether the write of an append fails, after how many bytes. -/
structure Env where
  now : Int
  timedOut : Bool
  logMissing : Bool
  torn : Option Nat

/-- What the caller of `AdvanceHWM` does afterwards. -/
inductive After where
  | respond (d : Produce) (base : Int)
  | checkMinISR
  | finished

/-- The next step of a goroutine. `advance` and `wake` are the two halves of `AdvanceHWM`. -/
inductive Task where
  | arrive (q : ProduceRequest)
  | validate (d : Produce)
  | append (d : Produce)
  | record (d : Produce) (base : Int)
  | raise (d : Produce) (base : Int)
  | respond (d : Produce) (base : Int)
  | readHWM (d : Produce) (base : Int) (w : Nat)
  | complete (d : Produce) (base : Int) (w : Nat) (hwm : Int)
  | await (d : Produce) (base : Int) (w : Nat)
  | rejected (code : Int)
  | answered (d : Produce) (r : PartitionResult)
  | replicaFetch (follower upto : Int)
  | tick (lagMax : Int)
  | shrink (snap : PartitionSnapshot) (now lagMax : Int) (todo : List Int) (changed : Bool)
  | expand (snap : PartitionSnapshot) (todo : List Int) (changed : Bool)
  | checkMinISR
  | failAll
  | removeFromISR (id : Int)
  | addToISR (id : Int)
  | advance (next : After)
  | wake (hwm : Int) (next : After)
  | finished

def After.task : After → Task
  | .respond d base => .respond d base
  | .checkMinISR => .checkMinISR
  | .finished => .finished

/-! ### The steps -/

def Produce.failed (d : Produce) (code base : Int) : Task := .answered d ⟨code, base, false⟩

def Produce.succeeded (d : Produce) (base : Int) : Task := .answered d ⟨0, base, false⟩

namespace Leader

def arrive [Memory] (snappy : Bytes → Option Bytes) (s : Leader) (q : ProduceRequest) : Leader × Task :=
  if !validateValidAcks q.acks then (s, .rejected errInvalidRequiredAcks)
  else if s.ps.leaderBrokerID ≠ s.brokerID then (s, .rejected errNotLeaderForPartition)
  else if q.acks = ackExactlyOnce ∧ s.underMinISR then (s, .rejected errNotEnoughReplicas)
  else match q.records with
    | none => (s, .rejected 0)
    | some raw => match decodeRecordBatch snappy raw with
      | .error .panics => ({ s with crash := some .decode }, .finished)
      | .error _ => (s, .rejected errCorruptMessage)
      | .ok batch =>
        let d : Produce := ⟨q.acks, raw, batch⟩
        (s, if d.pid ≥ 0 then .validate d else .append d)

def validate (s : Leader) (now : Int) (d : Produce) : Leader × Task :=
  let (idempotence, verdict) := s.idempotence.validate now d.pid d.epoch d.firstSeq d.lastSeq
  let s := { s with idempotence := idempotence }
  match verdict with
  | .rejected code => (s, d.failed code 0)
  | .duplicate cached => (s, d.succeeded cached)
  | .fresh => (s, .append d)

def append (s : Leader) (env : Env) (d : Produce) : Leader × Task :=
  if env.logMissing then (s, d.failed errUnknownTopicOrPartition 0)
  else match env.torn with
    | some written => ({ s with log := s.log.appendTorn d.raw written }, d.failed errKafkaStorageError 0)
    | none => match s.log.appendRaw d.raw d.count with
      | (log, .error _) => ({ s with log := log }, d.failed errKafkaStorageError 0)
      | (log, .ok base) =>
        ({ s with log := log, stored := s.stored ++ [(d, base)] },
          if d.pid ≥ 0 then .record d base else .raise d base)

def record (s : Leader) (now : Int) (d : Produce) (base : Int) : Leader :=
  { s with idempotence := s.idempotence.record now d.pid d.epoch d.firstSeq d.lastSeq base }

def respond (s : Leader) (d : Produce) (base : Int) : Leader × Task :=
  if d.acks = ackExactlyOnce then
    ({ s with purgatory := s.purgatory.add (d.lastOffset base) }, .readHWM d base s.purgatory.fresh)
  else if d.acks = ackAtMostOnce then (s, .answered d ⟨0, 0, true⟩)
  else (s, d.succeeded base)

def released (s : Leader) (purgatory : Option PartitionPurgatory) (next : Task) : Leader × Task :=
  match purgatory with
  | some p => ({ s with purgatory := p }, next)
  | none => ({ s with crash := some .channel }, .finished)

/-- The `select` on `Done` and the deadline; `none` while neither is ready. -/
def await (s : Leader) (env : Env) (d : Produce) (base : Int) (w : Nat) : Option Task :=
  if env.timedOut then some (d.failed errRequestTimedOut base)
  else match (s.purgatory.heap[w]?).bind (fun cell => cell.done.receive) with
    | none => none
    | some .completed => some (d.succeeded base)
    | some (.failed code) => some (d.failed code base)

end Leader

/-- `!ok || now.Sub(last) > isr.lagMax`. -/
def lagging (snap : PartitionSnapshot) (now lagMax : Int) (f : Int) : Bool :=
  match snap.lastCaughtUp f with
  | none => true
  | some last => decide (now - last > lagMax)

/-- A replica outside the in-sync set whose recorded log end reaches the high watermark. -/
def caughtUp (snap : PartitionSnapshot) (r : Int) : Bool :=
  match snap.replicaLEO r with
  | none => false
  | some leo => decide (leo ≥ snap.hwm)

def shrinks (snap : PartitionSnapshot) (now lagMax f : Int) : Bool :=
  decide (f ≠ snap.leaderBrokerID) && lagging snap now lagMax f

def expands (snap : PartitionSnapshot) (r : Int) : Bool :=
  decide (r ≠ snap.leaderBrokerID) && !decide (r ∈ snap.isr) && caughtUp snap r

def step [Memory] (snappy : Bytes → Option Bytes) (env : Env) (s : Leader) : Task → Option (Leader × Task)
  | .arrive q => some (s.arrive snappy q)
  | .validate d => some (s.validate env.now d)
  | .append d => some (s.append env d)
  | .record d base => some (s.record env.now d base, .raise d base)
  | .raise d base =>
    some ({ s with ps := s.ps.onLeaderAppend (d.lastOffset base) }, .advance (.respond d base))
  | .respond d base => some (s.respond d base)
  | .readHWM d base w => some (s, .complete d base w s.ps.hwm)
  | .complete d base w hwm => some (s.released (s.purgatory.completeUpTo hwm) (.await d base w))
  | .await d base w => (s.await env d base w).map fun t => (s, t)
  | .replicaFetch follower upto =>
    some ({ s with ps := s.ps.updateReplicaLEO env.now follower upto }, .advance .finished)
  | .tick lagMax => some (s, .shrink s.ps.snapshot env.now lagMax s.ps.isr false)
  | .shrink snap _ _ [] changed => some (s, .expand snap snap.replicas changed)
  | .shrink snap now lagMax (f :: todo) changed =>
    if shrinks snap now lagMax f then
      some ({ s with ps := s.ps.removeFromISR f }, .shrink snap now lagMax todo true)
    else some (s, .shrink snap now lagMax todo changed)
  | .expand _ [] changed => some (s, if changed then .advance .checkMinISR else .finished)
  | .expand snap (r :: todo) changed =>
    if expands snap r then some ({ s with ps := s.ps.addToISR r }, .expand snap todo true)
    else some (s, .expand snap todo changed)
  | .checkMinISR => some (s, if s.topicKnown && s.underMinISR then .failAll else .finished)
  | .failAll => some (s.released (s.purgatory.failAll errNotEnoughReplicasAfterAppend) .finished)
  | .removeFromISR id => some ({ s with ps := s.ps.removeFromISR id }, .finished)
  | .addToISR id => some ({ s with ps := s.ps.addToISR id }, .finished)
  | .advance next =>
    some ({ s with ps := s.ps.advanceHWM },
      if s.ps.advanced then .wake s.ps.advanceHWM.hwm next else next.task)
  | .wake hwm next => some (s.released (s.purgatory.completeUpTo hwm) next.task)
  | .rejected _ | .answered _ _ | .finished => none

inductive Spawned : Task → Prop where
  | produce (q : ProduceRequest) : Spawned (.arrive q)
  | fetch (follower upto : Int) : Spawned (.replicaFetch follower upto)
  | tick (lagMax : Int) : Spawned (.tick lagMax)
  | remove (id : Int) : Spawned (.removeFromISR id)
  | add (id : Int) : Spawned (.addToISR id)
  | advance : Spawned (.advance .finished)
  | failAll : Spawned .failAll

/-- A partition state as its store makes it, on any commit log. -/
structure Fresh (s : Leader) : Prop where
  leo : s.ps.leo = 0
  hwm : s.ps.hwm = 0
  purgatory : s.purgatory = .empty
  idempotence : s.idempotence = .empty
  next : 0 ≤ s.log.nextOffset
  stored : s.stored = []
  crash : s.crash = none

/-- No offset leaves the range of `int64`. -/
def Leader.fits (s : Leader) : Task → Bool
  | .append d => decide (s.log.nextOffset + d.count < 2 ^ 63)
  | _ => true

/-- All interleavings of the goroutines, up to a crash of the process or the end of `int64`. -/
def leaderSystem [Memory] (snappy : Bytes → Option Bytes) : System Leader Task Env where
  start := Fresh
  spawn := Spawned
  step env s t := if s.crash.isSome || !s.fits t then none else step snappy env s t

def newPartition (brokerID : Int) (replicas isr : List Int) (minInsync : Option Int) : Leader where
  brokerID := brokerID
  topicKnown := true
  minInsync := minInsync
  ps := ⟨brokerID, replicas, isr, 0, 0, fun _ => none, fun _ => none⟩
  purgatory := .empty
  idempotence := .empty
  log := newCommitLog ⟨1073741824, 4096⟩ []
  stored := []
  crash := none

theorem newPartition_fresh (brokerID : Int) (replicas isr : List Int) (minInsync : Option Int) :
    Fresh (newPartition brokerID replicas isr minInsync) where
  leo := rfl
  hwm := rfl
  purgatory := rfl
  idempotence := rfl
  next := by
    show 0 ≤ (newCommitLog ⟨1073741824, 4096⟩ []).nextOffset
    decide +kernel
  stored := rfl
  crash := rfl

def soloBatch (producerId producerEpoch baseSequence : Nat) : Bytes :=
  beBytes 8 0 ++ beBytes 4 56 ++ beBytes 4 0 ++ [2] ++ beBytes 4 0 ++ beBytes 2 0 ++ beBytes 4 0 ++ beBytes 8 0 ++
    beBytes 8 0 ++ beBytes 8 producerId ++ beBytes 2 producerEpoch ++ beBytes 4 baseSequence ++ beBytes 4 1 ++
    [0, 0, 0, 0, 1, 0, 0]

def calm : Env := ⟨0, false, false, none⟩

abbrev Run [Memory] (snappy : Bytes → Option Bytes) (c : Config Leader Task) : Prop :=
  Reachable (leaderSystem snappy) (free Leader Task Env) c

end KafGo.Partition
