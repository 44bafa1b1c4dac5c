import KafGo.Lib.Machine
import KafGo.Server.Fetch

/-!
# A replica and its leader

The leader appends batches and publishes its log end; the loop of a replica fetcher asks for records at its fetch
offset and appends what it gets to its own log. A restart opens the log again, but the new fetcher starts at
offset zero.
-/

namespace KafGo.Server
open Lib Coordinator Storage

/-- Where an iteration of `Run` is: before its request, after the leader has read the visible bound, or with an
answer on its way. -/
inductive Phase where
  | idle
  | asked (maxVisible : Int)
  | answered (records : Option Bytes)

structure ReplicaFetcher where
  brokerId : Int
  fetchOffset : Int
  commitLog : CommitLog
  phase : Phase

def newReplicaFetcher (brokerId : Int) (commitLog : CommitLog) : ReplicaFetcher := ⟨brokerId, 0, commitLog, .idle⟩

namespace ReplicaFetcher

def receive (rf : ReplicaFetcher) (records : Option Bytes) : ReplicaFetcher :=
  let rf := { rf with phase := .idle }
  match records with
  | none => rf
  | some raw =>
    if raw.length = 0 then rf
    else match countRecordsInRecordBatches raw with
      | .error _ => rf
      | .ok recordCount =>
        if recordCount ≤ 0 then rf
        else match rf.commitLog.appendRaw raw recordCount with
          | (log, .error _) => { rf with commitLog := log }
          | (log, .ok baseOffset) => { rf with commitLog := log, fetchOffset := baseOffset + recordCount }

/-- A restart: `AddFetcher` opens the directory, as `Close` or as a crash left it, for a new fetcher. -/
def addFetcher (rf : ReplicaFetcher) (config : CommitLogConfig) (closed : Bool) : ReplicaFetcher :=
  newReplicaFetcher rf.brokerId (newCommitLog config (if closed then rf.commitLog.close else rf.commitLog.files))

end ReplicaFetcher

/-- A partition on its leader, and one follower of it. -/
structure Replication where
  leader : CommitLog
  ps : PartitionState
  fetcher : ReplicaFetcher

inductive ReplicaAction where
  | append (b : Batch)
  | publish (lastOffset : Int)
  | request (now : Int)
  | serve
  | lose
  | deliver
  | restart (config : CommitLogConfig) (closed : Bool)

namespace Replication

/-- One step of the leader, of the fetcher, or of the network between them. -/
def step : ReplicaAction → Replication → Option Replication
  | .append b, s =>
    if s.leader.nextOffset + b.count < 2 ^ 63 then some { s with leader := (s.leader.appendRaw b.data b.count).1 }
    else none
  | .publish lastOffset, s =>
    if lastOffset < s.leader.nextOffset then some { s with ps := s.ps.onLeaderAppend lastOffset } else none
  | .request now, s => match s.fetcher.phase with
    | .idle =>
      let ps := seenBy s.ps now s.fetcher.brokerId s.fetcher.fetchOffset
      some { s with ps := ps, fetcher := { s.fetcher with phase := .asked (visibleTo ps s.fetcher.brokerId) } }
    | _ => none
  | .serve, s => match s.fetcher.phase with
    | .asked maxVisible =>
      let records := fetchRecords s.leader s.fetcher.fetchOffset partitionMaxBytes maxVisible
      some { s with fetcher := { s.fetcher with phase := .answered records } }
    | _ => none
  | .lose, s => some { s with fetcher := { s.fetcher with phase := .idle } }
  | .deliver, s => match s.fetcher.phase with
    | .answered records => some { s with fetcher := s.fetcher.receive records }
    | _ => none
  | .restart config closed, s =>
    if 0 < config.segmentMaxBytes then some { s with fetcher := s.fetcher.addFetcher config closed } else none

/-- A leader with any log, and a follower with an empty directory. -/
structure Start (s : Replication) : Prop where
  leader : ∃ layout, Built s.leader layout
  follower : ∃ config brokerId, 0 < config.segmentMaxBytes ∧
    s.fetcher = newReplicaFetcher brokerId (newCommitLog config [])

def machine : Machine Replication ReplicaAction := ⟨Start, step⟩

end Replication

/-- Restarts find an empty log, the index leads to the batch at the fetch offset, and the records of an answer
can be counted. -/
def ReplicaAction.aligned (s : Replication) : ReplicaAction → Bool
  | .serve => decide (s.leader.nextOffset ≤ s.fetcher.fetchOffset) || leadsTo s.leader s.fetcher.fetchOffset
  | .deliver => match s.fetcher.phase with
    | .answered (some raw) => countFits raw
    | _ => true
  | .restart _ _ => decide (s.fetcher.commitLog.nextOffset = 0)
  | _ => true

/-! ### The follower mirrors the leader -/

/-- The follower has the first batches of the leader and fetches behind them; an answer on its way continues
them. -/
structure Mirrors (s : Replication) (layout copy : List (List StoredBatch)) (next kept : Nat)
    (rest : List StoredBatch) : Prop where
  leader : s.leader.Holds layout next
  follower : s.fetcher.commitLog.Holds copy kept
  whole : layout.flatten = copy.flatten ++ rest
  offset : s.fetcher.fetchOffset = kept
  answer : ∀ raw, s.fetcher.phase = .answered (some raw) → ∃ lead more, lead ≠ [] ∧ raw = bytesOf lead ∧
    rest = lead ++ more

def Mirrored (s : Replication) : Prop := ∃ layout copy next kept rest, Mirrors s layout copy next kept rest

section Steps

variable {s : Replication} {layout copy : List (List StoredBatch)} {next kept : Nat} {rest : List StoredBatch}

theorem mirrors_phase (mirrors : Mirrors s layout copy next kept rest) (ps : PartitionState) {phase : Phase}
    (unanswered : ∀ raw, phase ≠ .answered (some raw)) :
    Mirrors { s with ps := ps, fetcher := { s.fetcher with phase := phase } } layout copy next kept rest :=
  ⟨mirrors.leader, mirrors.follower, mirrors.whole, mirrors.offset, fun raw same => absurd same (unanswered raw)⟩

theorem append_mirrored (mirrors : Mirrors s layout copy next kept rest) (b : Batch)
    (fits : s.leader.nextOffset + b.count < 2 ^ 63) :
    Mirrored { s with leader := (s.leader.appendRaw b.data b.count).1 } := by
  have inside : next + b.count < 2 ^ 63 := by
    have offset := mirrors.leader.next
    omega
  obtain ⟨leader, appended, holds, _⟩ := append_batch_holds mirrors.leader b inside
  rw [appended]
  refine ⟨_, copy, _, kept, rest ++ [b.storedAt next inside], holds, mirrors.follower, ?_, mirrors.offset, ?_⟩
  · rw [flatten_placed, mirrors.whole, List.append_assoc]
  · intro raw phase
    obtain ⟨lead, more, nonempty, bytes, parts⟩ := mirrors.answer raw phase
    exact ⟨lead, more ++ [b.storedAt next inside], nonempty, bytes, by rw [parts, List.append_assoc]⟩

theorem serve_mirrored (mirrors : Mirrors s layout copy next kept rest) (maxVisible : Int)
    (aligned : s.leader.nextOffset ≤ s.fetcher.fetchOffset ∨ leadsTo s.leader s.fetcher.fetchOffset = true) :
    Mirrors { s with fetcher := { s.fetcher with
      phase := .answered (fetchRecords s.leader s.fetcher.fetchOffset partitionMaxBytes maxVisible) } }
      layout copy next kept rest := by
  refine ⟨mirrors.leader, mirrors.follower, mirrors.whole, mirrors.offset, fun raw phase => ?_⟩
  have answer : fetchRecords s.leader s.fetcher.fetchOffset partitionMaxBytes maxVisible = some raw :=
    Phase.answered.inj phase
  rw [mirrors.offset] at answer aligned
  have chain := (linked_content mirrors.follower.linked).2
  obtain ⟨lead, more, parts, _, nonempty, bytes⟩ := fetchRecords_answered mirrors.leader mirrors.whole chain aligned
    (show 0 < partitionMaxBytes by decide) answer
  exact ⟨lead, more, nonempty, bytes, parts⟩

theorem receive_mirrored (mirrors : Mirrors s layout copy next kept rest) {lead more : List StoredBatch}
    (nonempty : lead ≠ []) (parts : rest = lead ++ more) (fits : countFits (bytesOf lead) = true) :
    Mirrored { s with fetcher := s.fetcher.receive (some (bytesOf lead)) } := by
  obtain ⟨g, gs, rfl⟩ := List.exists_cons_of_ne_nil nonempty
  have chained := (linked_content mirrors.leader.linked).2
  rw [mirrors.whole, parts] at chained
  obtain ⟨m, first, behind⟩ := chained_append.mp chained
  obtain rfl := chained_unique first (linked_content mirrors.follower.linked).2
  obtain ⟨e, chain, _⟩ := chained_append.mp behind
  have long := g.long
  have count := chained_count chain
  have grows := chained_le chain
  simp only [List.length_cons] at grows
  have patched : putBaseOffset m (bytesOf (g :: gs)) = bytesOf (g :: gs) := by
    apply putBaseOffset_same
    · simp only [bytesOf_cons, List.length_append]
      omega
    · rw [bytesOf_cons, ← chain.1, ← g.based]
      unfold uint64At
      rw [slice_append_left (by omega)]
      rfl
  obtain ⟨log, appended, holds, _⟩ := append_holds mirrors.follower g gs (bytesOf (g :: gs)) chain
    (by simp only [bytesOf_cons, List.length_append]; omega) patched
  have total : ((((g :: gs).map (fun f => f.count)).sum : Nat) : Int) = (e - m : Nat) := by omega
  have received : s.fetcher.receive (some (bytesOf (g :: gs))) =
      { s.fetcher with phase := .idle, commitLog := log, fetchOffset := (m : Int) + (e - m : Nat) } := by
    unfold ReplicaFetcher.receive
    dsimp only
    rw [if_neg (by simp only [bytesOf_cons, List.length_append]; omega),
      countRecordsInRecordBatches_batches fits, total]
    dsimp only
    rw [if_neg (by omega), appended]
  rw [received]
  refine ⟨layout, _, next, e, more, mirrors.leader, holds, ?_, ?_, nofun⟩
  · rw [flatten_placed, mirrors.whole, parts, List.append_assoc]
  · dsimp only
    omega

theorem restart_mirrored (mirrors : Mirrors s layout copy next kept rest) {config : CommitLogConfig}
    (positive : 0 < config.segmentMaxBytes) (closed : Bool) (empty : s.fetcher.commitLog.nextOffset = 0) :
    Mirrored { s with fetcher := s.fetcher.addFetcher config closed } := by
  have zero : kept = 0 := by
    have offset := mirrors.follower.next
    omega
  subst zero
  refine ⟨layout, copy, next, 0, rest, mirrors.leader, ?_, mirrors.whole, rfl, nofun⟩
  cases closed with
  | true =>
    exact reopen_holds mirrors.follower positive Segment.close (fun _ => rfl) (fun _ => rfl)
      fun s _ => close_whole s.offsetIndex
  | false =>
    exact reopen_holds mirrors.follower positive Segment.files (fun _ => rfl) (fun _ => rfl)
      fun s mapped => Or.inr mapped.1

end Steps

theorem step_mirrored {s s' : Replication} {a : ReplicaAction} (mirrored : Mirrored s) (aligned : a.aligned s = true)
    (moves : Replication.step a s = some s') : Mirrored s' := by
  obtain ⟨layout, copy, next, kept, rest, mirrors⟩ := mirrored
  cases a with
  | append b =>
    simp only [Replication.step] at moves
    split at moves
    · obtain rfl := Option.some.inj moves
      exact append_mirrored mirrors b (by assumption)
    · cases moves
  | publish lastOffset =>
    simp only [Replication.step] at moves
    split at moves
    · obtain rfl := Option.some.inj moves
      exact ⟨layout, copy, next, kept, rest, mirrors.leader, mirrors.follower, mirrors.whole, mirrors.offset,
        mirrors.answer⟩
    · cases moves
  | request now =>
    simp only [Replication.step] at moves
    split at moves
    · obtain rfl := Option.some.inj moves
      exact ⟨layout, copy, next, kept, rest, mirrors_phase mirrors _ nofun⟩
    · cases moves
  | serve =>
    simp only [Replication.step] at moves
    split at moves
    · obtain rfl := Option.some.inj moves
      refine ⟨layout, copy, next, kept, rest, serve_mirrored mirrors _ ?_⟩
      simpa only [ReplicaAction.aligned, Bool.or_eq_true, decide_eq_true_eq] using aligned
    · cases moves
  | lose =>
    obtain rfl := Option.some.inj moves
    exact ⟨layout, copy, next, kept, rest, mirrors_phase mirrors _ nofun⟩
  | deliver =>
    simp only [Replication.step] at moves
    split at moves
    · rename_i records phase
      obtain rfl := Option.some.inj moves
      cases records with
      | none => exact ⟨layout, copy, next, kept, rest, mirrors_phase mirrors s.ps nofun⟩
      | some raw =>
        obtain ⟨lead, more, nonempty, rfl, parts⟩ := mirrors.answer raw phase
        simp only [ReplicaAction.aligned, phase] at aligned
        exact receive_mirrored mirrors nonempty parts aligned
    · cases moves
  | restart config closed =>
    simp only [Replication.step] at moves
    split at moves
    · obtain rfl := Option.some.inj moves
      exact restart_mirrored mirrors (by assumption) closed (of_decide_eq_true aligned)
    · cases moves

theorem start_mirrored {s : Replication} (start : s.Start) : Mirrored s := by
  obtain ⟨⟨layout, built⟩, config, brokerId, positive, fetcher⟩ := start
  obtain ⟨next, holds⟩ := built_holds built
  refine ⟨layout, [[]], next, 0, layout.flatten, holds, ?_, rfl, ?_, ?_⟩
  · rw [fetcher]
    exact newCommitLog_holds positive
  · rw [fetcher]
    rfl
  · rw [fetcher]
    nofun

/-- In every run whose steps are aligned, the follower's bytes are those of the leader's first batches, and its
fetch offset is the number of records in them. -/
theorem follower_mirrors {s : Replication} (reached : Replication.machine.Reached (fun s a => a.aligned s = true) s) :
    s.fetcher.commitLog.content <+: s.leader.content ∧
      ∃ stored rest, s.fetcher.commitLog.content = bytesOf stored ∧ s.leader.content = bytesOf (stored ++ rest) ∧
        s.fetcher.fetchOffset = ((stored.map (fun f => f.count)).sum : Nat) := by
  have mirrored : Mirrored s := Machine.reached_invariant Mirrored (fun _ => start_mirrored)
    (fun _ _ _ => step_mirrored) reached
  obtain ⟨layout, copy, next, kept, rest, mirrors⟩ := mirrored
  obtain ⟨leader, _⟩ := linked_content mirrors.leader.linked
  obtain ⟨follower, chain⟩ := linked_content mirrors.follower.linked
  have count := chained_count chain
  rw [mirrors.whole] at leader
  refine ⟨⟨bytesOf rest, ?_⟩, copy.flatten, rest, follower, leader, ?_⟩
  · rw [bytesOf_append, ← follower] at leader
    exact leader.symm
  · rw [mirrors.offset, count, Nat.zero_add]

def newReplication : Replication where
  leader := newCommitLog ⟨1000, 4096⟩ []
  ps := ⟨1, [1, 2], [1], 0, 0, fun _ => none, fun _ => none⟩
  fetcher := newReplicaFetcher 2 (newCommitLog ⟨1000, 4096⟩ [])

theorem newReplication_start : newReplication.Start where
  leader := ⟨_, .empty _ (by decide) (by decide)⟩
  follower := ⟨_, 2, by decide, rfl⟩

/-- One iteration of the loop that copies two batches. -/
theorem follower_mirrors_two : ∃ s, Replication.machine.Reached (fun s a => a.aligned s = true) s ∧
    s.fetcher.fetchOffset = 2 ∧ s.fetcher.commitLog.content <+: s.leader.content := by
  obtain ⟨s, reached, fetched⟩ := Replication.machine.exec_reaches (fun s a => a.aligned s = true)
    (fun s a => a.aligned s) (fun _ _ checked => checked)
    [.append oneRecord, .append oneRecord, .publish 1, .request 0, .serve, .deliver]
    (fun s => decide (s.fetcher.fetchOffset = 2)) newReplication_start (by decide +kernel)
  exact ⟨s, reached, of_decide_eq_true fetched, (follower_mirrors reached).1⟩

/-- A follower that restarts with one batch stores it again; and one that has fetched the first of two batches
gets it once more when it asks for the second. -/
theorem follower_repeats :
    (∃ s, Replication.machine.Run s ∧ ¬ s.fetcher.commitLog.content <+: s.leader.content) ∧
    (∃ s, Replication.machine.Reached (fun _ a => ∀ config closed, a ≠ .restart config closed) s ∧
      ¬ s.fetcher.commitLog.content <+: s.leader.content) := by
  constructor
  · obtain ⟨s, reached, longer⟩ := Replication.machine.exec_reaches (fun _ _ => True) (fun _ _ => true)
      (fun _ _ _ => trivial)
      [.append oneRecord, .publish 0, .request 0, .serve, .deliver, .restart ⟨1000, 4096⟩ true, .request 0, .serve,
        .deliver]
      (fun s => decide (s.leader.content.length < s.fetcher.commitLog.content.length)) newReplication_start
      (by decide +kernel)
    exact ⟨s, reached, fun copied => absurd copied.length_le (Nat.not_le.mpr (of_decide_eq_true longer))⟩
  · obtain ⟨s, reached, longer⟩ := Replication.machine.exec_reaches
      (fun _ a => ∀ config closed, a ≠ .restart config closed)
        (fun _ a => match a with | .restart _ _ => false | _ => true)
      (fun _ a checked config closed same => by subst same; cases checked)
      [.append oneRecord, .publish 0, .request 0, .serve, .deliver, .append oneRecord, .publish 1, .request 0, .serve,
        .deliver]
      (fun s => decide (s.leader.content.length < s.fetcher.commitLog.content.length)) newReplication_start
      (by decide +kernel)
    exact ⟨s, reached, fun copied => absurd copied.length_le (Nat.not_le.mpr (of_decide_eq_true longer))⟩

end KafGo.Server
