import KafGo.Coordinator.ProducerStateManager
import KafGo.Lib.Machine
import KafGo.Partition.Leader
import KafGo.Server.Accepted
import KafGo.Storage.HeaderWalk

/-!
# The producer state over restarts

A leader validates, appends and records the batches of idempotent producers, each a step of its own. An append
that rolls starts a hook, which takes a snapshot of the state some time later and then writes it. A restart
keeps the files and nothing else.

The handlers number a batch by the records it decodes to, and `Recover` by what its header says about them.
-/

namespace KafGo.Server
open Lib Coordinator Protocol Storage Partition

/-- A roll hook, before and after its `Snapshot` call. -/
structure RollHook where
  newBase : Int
  entries : Option (List ProducerSnapshotEntry)

/-- `accepted` are batches that passed `Validate`, `appended` those that still have to be recorded, with their base
offsets. `stored` lists the batches of the log. -/
structure ProducerHost where
  log : CommitLog
  manager : ProducerStateManager
  accepted : List Produce
  appended : List (Produce × Int)
  hooks : List RollHook
  stored : List (Produce × Int)

inductive HostAction where
  | validate (acks : Int) (raw : Bytes) (now : Int)
  | append (i : Nat)
  | record (i : Nat) (now : Int)
  | snapshot (i : Nat) (order : List Int)
  | write (i : Nat)
  | restart (config : CommitLogConfig) (clock : Int → Int)

def sentAs (e : Produce × Int) : SentBatch := ⟨e.1.epoch, e.1.firstSeq, e.1.lastSeq, e.2⟩

/-- `Record` as a handler calls it after its append. -/
def recordProduce (clock : Int → Int) (s : IdempotenceState) (e : Produce × Int) : IdempotenceState :=
  if e.1.pid < 0 then s else s.record (clock e.2) e.1.pid e.1.epoch e.1.firstSeq e.1.lastSeq e.2

/-- The state after recording every batch of a log in order. -/
def replayed (clock : Int → Int) (stored : List (Produce × Int)) : IdempotenceState :=
  stored.foldl (recordProduce clock) IdempotenceState.empty

def sentFrom (pid : Int) (stored : List (Produce × Int)) : List SentBatch :=
  (stored.filter fun e => decide (e.1.pid = pid)).map sentAs

def storedBytes (stored : List (Produce × Int)) : Bytes := stored.flatMap fun e => putBaseOffset e.2 e.1.raw

namespace ProducerHost

def newHost (config : CommitLogConfig) : ProducerHost :=
  ⟨newCommitLog config [], newProducerStateManager [] IdempotenceState.empty, [], [], [], []⟩

/-- A produce request up to its append; `none` if the process dies. -/
def validate (snappy : Bytes → Option Bytes) (w : ProducerHost) (acks : Int) (raw : Bytes) (now : Int) :
    Option ProducerHost :=
  match decodeRecordBatch snappy raw with
  | .error .panics => none
  | .error _ => some w
  | .ok batch =>
    let d : Produce := ⟨acks, raw, batch⟩
    if d.pid < 0 then some { w with accepted := w.accepted ++ [d] }
    else
      let (state, verdict) := w.manager.state.validate now d.pid d.epoch d.firstSeq d.lastSeq
      some { w with
        manager := { w.manager with state := state }
        accepted := if verdict = .fresh then w.accepted ++ [d] else w.accepted }

def append (w : ProducerHost) (i : Nat) (d : Produce) : ProducerHost :=
  match w.log.appendRaw d.raw d.count with
  | (log, .error _) => { w with log := log, accepted := w.accepted.eraseIdx i }
  | (log, .ok base) =>
    { w with
      log := log
      accepted := w.accepted.eraseIdx i
      appended := w.appended ++ [(d, base)]
      hooks := if w.log.activeSegment.isFull then w.hooks ++ [⟨log.activeSegment.baseOffset, none⟩] else w.hooks
      stored := w.stored ++ [(d, base)] }

def record (w : ProducerHost) (i : Nat) (e : Produce × Int) (now : Int) : ProducerHost :=
  { w with
    manager := { w.manager with state := recordProduce (fun _ => now) w.manager.state e }
    appended := w.appended.eraseIdx i }

def restart (w : ProducerHost) (config : CommitLogConfig) (clock : Int → Int) : Option ProducerHost :=
  let log := newCommitLog config w.log.files
  match (newProducerStateManager w.manager.dir IdempotenceState.empty).recover clock log with
  | .error _ => none
  | .ok manager => some ⟨log, manager, [], [], [], w.stored⟩

def step (snappy : Bytes → Option Bytes) : HostAction → ProducerHost → Option ProducerHost
  | .validate acks raw now, w => w.validate snappy acks raw now
  | .append i, w => w.accepted[i]?.map (w.append i)
  | .record i now, w => w.appended[i]?.map fun e => w.record i e now
  | .snapshot i order, w =>
    match w.hooks[i]? with
    | some ⟨newBase, none⟩ => some { w with hooks := w.hooks.set i ⟨newBase, some (w.manager.state.snapshot order)⟩ }
    | _ => none
  | .write i, w =>
    match w.hooks[i]? with
    | some ⟨newBase, some entries⟩ =>
      some { w with manager := w.manager.writeSnapshot newBase entries, hooks := w.hooks.eraseIdx i }
    | _ => none
  | .restart config clock, w => w.restart config clock

def machine (snappy : Bytes → Option Bytes) : Machine ProducerHost HostAction where
  start w := ∃ config : CommitLogConfig, 0 < config.segmentMaxBytes ∧ w = newHost config
  step := step snappy

/-- The header of a batch that is appended tells the truth, and offsets stay in the range of `int64`. The iteration of
`Snapshot` visits every entry of the map once. -/
def Allowed (w : ProducerHost) : HostAction → Prop
  | .append i => ∀ d, w.accepted[i]? = some d → WellFormed d.raw ∧ w.log.nextOffset + d.count < 2 ^ 63
  | .snapshot _ order => order.Nodup ∧ ∀ pid, w.manager.state.producers pid ≠ none → pid ∈ order
  | .restart config _ => 0 < config.segmentMaxBytes
  | _ => True

section Matches

variable {snappy : Bytes → Option Bytes} {f : StoredBatch} {e : Produce × Int} {fs : List StoredBatch}
  {stored : List (Produce × Int)}

/-- The batch `f` of the log is the request `e` with its base offset patched in. -/
structure Matches (snappy : Bytes → Option Bytes) (f : StoredBatch) (e : Produce × Int) : Prop where
  stores : Stores f (e.1.raw, e.2)
  decoded : decodeRecordBatch snappy e.1.raw = .ok e.1.batch
  truthful : WellFormed e.1.raw

theorem Matches.header (matching : Matches snappy f e) :
    f.header = ⟨e.2, e.1.count - 1, e.1.pid, e.1.epoch, e.1.firstSeq⟩ := by
  obtain ⟨data, base, _⟩ := matching.stores
  have count : (e.1.count : Int) = int32At e.1.raw batchRecordCountOff := (decodeRecordBatch_ok matching.decoded).2
  have delta : int32At e.1.raw 23 = e.1.count - 1 := by
    rw [count]
    exact matching.truthful.2.2
  obtain ⟨_, _, pid, epoch, firstSeq⟩ := BatchHeader.mk.inj (decodeRecordBatch_header matching.decoded)
  have here : int64At f.data 0 = e.2 := (congrArg BatchHeader.baseOffset f.header_fields).symm.trans
    (f.header_base.trans base)
  rw [f.header_fields, here, data, ← delta]
  have apart : ∀ {pos n}, 8 ≤ pos → slice (putBaseOffset e.2 e.1.raw) pos n = slice e.1.raw pos n :=
    fun after => slice_putBaseOffset after
  simp only [int64At, int32At, int16At, uint64At, uint32At, uint16At, apart (show 8 ≤ 23 by decide),
    apart (show 8 ≤ 43 by decide), apart (show 8 ≤ 51 by decide), apart (show 8 ≤ 53 by decide)]
  exact BatchHeader.mk.injEq .. ▸ ⟨rfl, rfl, pid.symm, epoch.symm, firstSeq.symm⟩

theorem Matches.sent (matching : Matches snappy f e) : sentOf f.header = sentAs e := by
  rw [matching.header]
  unfold sentOf sentAs Produce.lastSeq
  rw [Int.add_sub_assoc]

theorem sentBy_matches (matching : List.Forall₂ (Matches snappy) fs stored) (pid : Int) :
    sentBy pid fs = sentFrom pid stored := by
  induction matching with
  | nil => rfl
  | @cons f e fs stored first rest ih =>
    have own : f.header.producerId = e.1.pid := by rw [first.header]
    unfold sentBy sentFrom at ih ⊢
    by_cases same : e.1.pid = pid
    · rw [List.filter_cons_of_pos (by simpa [own] using same), List.filter_cons_of_pos (by simpa using same),
        List.map_cons, List.map_cons, ih, first.sent]
    · rw [List.filter_cons_of_neg (by simpa [own] using same), List.filter_cons_of_neg (by simpa using same), ih]

theorem replayed_matches (matching : List.Forall₂ (Matches snappy) fs stored) (clock : Int → Int)
    (s : IdempotenceState) :
    (fs.map StoredBatch.header).foldl (recordHeader clock) s = stored.foldl (recordProduce clock) s := by
  induction matching generalizing s with
  | nil => rfl
  | @cons f e fs stored first rest ih =>
    have step : recordHeader clock s f.header = recordProduce clock s e := by
      have sent := first.sent
      unfold recordHeader recordProduce
      rw [sent, first.header]
      rfl
    rw [List.map_cons, List.foldl_cons, List.foldl_cons, step, ih]

theorem bytesOf_matches (matching : List.Forall₂ (Matches snappy) fs stored) : bytesOf fs = storedBytes stored := by
  induction matching with
  | nil => rfl
  | cons first rest ih => rw [bytesOf_cons, ih, first.stores.1]; rfl

end Matches

section Runs

variable {snappy : Bytes → Option Bytes} {w w' : ProducerHost}

/-- The log holds the stored batches, and the accepted ones were decoded. -/
structure Keeps (snappy : Bytes → Option Bytes) (w : ProducerHost) : Prop where
  log : ∃ layout next, w.log.Holds layout next ∧ List.Forall₂ (Matches snappy) layout.flatten w.stored
  decoded : ∀ d ∈ w.accepted, decodeRecordBatch snappy d.raw = .ok d.batch

theorem restart_keeps (keeps : w.Keeps snappy) {config : CommitLogConfig} {clock : Int → Int}
    (positive : 0 < config.segmentMaxBytes) (moves : w.restart config clock = some w') : w'.Keeps snappy := by
  obtain ⟨layout, next, holds, matching⟩ := keeps.log
  unfold restart at moves
  dsimp only at moves
  split at moves
  · cases moves
  · rw [← Option.some.inj moves]
    refine ⟨⟨layout, next, ?_, matching⟩, fun d member => absurd member List.not_mem_nil⟩
    exact reopen_holds holds positive Segment.files (fun _ => rfl) (fun _ => rfl) fun s mapped => Or.inr mapped.1

theorem append_keeps (keeps : w.Keeps snappy) {i : Nat} {d : Produce} (found : w.accepted[i]? = some d)
    (truthful : WellFormed d.raw) (room : w.log.nextOffset + d.count < 2 ^ 63) : (w.append i d).Keeps snappy := by
  obtain ⟨layout, next, holds, matching⟩ := keeps.log
  have decoded := keeps.decoded d (List.mem_of_getElem? found)
  have fits : next + d.count < 2 ^ 63 := by
    have offset := holds.next
    omega
  obtain ⟨log, appended, held, _⟩ := append_batch_holds holds (acceptedBatch decoded truthful) fits
  have result : w.log.appendRaw d.raw d.count = (log, .ok (next : Int)) := appended
  unfold append
  rw [result]
  refine ⟨⟨_, _, held, ?_⟩, fun d' member => keeps.decoded d' (List.mem_of_mem_eraseIdx member)⟩
  rw [flatten_placed]
  exact List.rel_append matching (.cons ⟨⟨rfl, rfl, (decodeRecordBatch_ok decoded).2⟩, decoded, truthful⟩ .nil)

theorem validate_keeps (keeps : w.Keeps snappy) {acks : Int} {raw : Bytes} {now : Int}
    (moves : w.validate snappy acks raw now = some w') : w'.Keeps snappy := by
  unfold validate at moves
  split at moves
  · cases moves
  · rw [← Option.some.inj moves]
    exact keeps
  · rename_i batch decoded
    have more : ∀ d ∈ w.accepted ++ [⟨acks, raw, batch⟩], decodeRecordBatch snappy d.raw = .ok d.batch := by
      intro d member
      rcases List.mem_append.mp member with old | new
      · exact keeps.decoded d old
      · rw [List.mem_singleton.mp new]
        exact decoded
    dsimp only at moves
    split at moves
    · rw [← Option.some.inj moves]
      exact ⟨keeps.log, more⟩
    · rw [← Option.some.inj moves]
      refine ⟨keeps.log, fun d member => ?_⟩
      dsimp only at member
      split at member
      · exact more d member
      · exact keeps.decoded d member

theorem reached_keeps (reached : (machine snappy).Reached Allowed w) : w.Keeps snappy := by
  refine Machine.reached_invariant (Keeps snappy) ?_ ?_ reached
  · rintro w ⟨config, positive, rfl⟩
    exact ⟨⟨[[]], 0, newCommitLog_holds positive, .nil⟩, fun d member => absurd member List.not_mem_nil⟩
  · intro w action w' keeps permitted moves
    cases action with
    | validate acks raw now => exact validate_keeps keeps moves
    | append i =>
      obtain ⟨d, found, rfl⟩ := Option.map_eq_some_iff.mp moves
      obtain ⟨truthful, room⟩ := permitted d found
      exact append_keeps keeps found truthful room
    | record i now =>
      obtain ⟨e, found, rfl⟩ := Option.map_eq_some_iff.mp moves
      exact ⟨keeps.log, keeps.decoded⟩
    | snapshot i order =>
      simp only [machine, step] at moves
      split at moves
      · rw [← Option.some.inj moves]
        exact ⟨keeps.log, keeps.decoded⟩
      · cases moves
    | write i =>
      simp only [machine, step] at moves
      split at moves
      · rw [← Option.some.inj moves]
        exact ⟨keeps.log, keeps.decoded⟩
      · cases moves
    | restart config clock => exact restart_keeps keeps permitted moves

/-! ### The state after a crash -/

/-- The segment files that a crash leaves, between two appends or inside one. -/
inductive Leaves (w : ProducerHost) : List SegmentFiles → Prop where
  | between : Leaves w w.log.files
  | inside {d : Produce} {n : Nat} (member : d ∈ w.accepted) (truthful : WellFormed d.raw) (part : n < d.raw.length)
      (room : w.log.nextOffset + d.count < 2 ^ 63) : Leaves w (w.log.appendTorn d.raw n).files

theorem leaves_trails (keeps : w.Keeps snappy) {left : List SegmentFiles} (leaves : w.Leaves left)
    {layout : List (List StoredBatch)} {next : Nat} (holds : w.log.Holds layout next) {config : CommitLogConfig}
    (positive : 0 < config.segmentMaxBytes) :
    ∃ whole layout', (newCommitLog config left).Trails whole ∧ whole.Holds layout' next ∧
      layout'.flatten = layout.flatten := by
  cases leaves with
  | between =>
    refine ⟨_, layout, CommitLog.trails_refl _, ?_, rfl⟩
    exact reopen_holds holds positive Segment.files (fun _ => rfl) (fun _ => rfl) fun s mapped => Or.inr mapped.1
  | @inside d n member truthful part room =>
    have fits : next + d.count < 2 ^ 63 := by
      have offset := holds.next
      omega
    exact torn_reopens holds (acceptedBatch (keeps.decoded d member) truthful) fits part positive

theorem keeps_active (keeps : w.Keeps snappy) {earlier active : List (Produce × Int)}
    (split : w.stored = earlier ++ active) {tail : Bytes} (torn : Torn tail)
    (file : storedBytes active ++ tail = storedBytes w.stored) : earlier = [] := by
  obtain ⟨layout, next, holds, matching⟩ := keeps.log
  have behind := List.forall₂_drop earlier.length matching
  rw [split, List.drop_left] at behind
  rw [← bytesOf_matches behind, ← bytesOf_matches matching, ← List.append_nil (bytesOf layout.flatten)] at file
  have whole := congrArg List.length (bytesOf_torn_inj torn torn_nil file).1
  have count := matching.length_eq
  rw [List.length_drop, count, split, List.length_append] at whole
  exact List.length_eq_zero_iff.mp (by omega)

end Runs

/-- The actions of a run that checks what is allowed; it has no snapshots. -/
def checked (w : ProducerHost) : HostAction → Bool
  | .append i => w.accepted[i]?.all fun d => decide (WellFormed d.raw ∧ w.log.nextOffset + d.count < 2 ^ 63)
  | .snapshot _ _ => false
  | .restart config _ => decide (0 < config.segmentMaxBytes)
  | _ => true

theorem checked_allowed (w : ProducerHost) (a : HostAction) (ok : checked w a = true) : Allowed w a := by
  cases a with
  | append i =>
    intro d found
    simpa [checked, found] using ok
  | snapshot i order => cases ok
  | restart config clock => simpa [checked, Allowed] using ok
  | validate acks raw now => trivial
  | record i now => trivial
  | write i => trivial

def send (raw : Bytes) : List HostAction := [.validate 1 raw 0, .append 0, .record 0 0]

def holdsTwo (w : ProducerHost) : Bool :=
  decide ((newCommitLog ⟨1000, 4096⟩ w.log.files).activeSegment.logFile = storedBytes w.stored ∧
    sentFrom 7 w.stored = [⟨0, 0, 0, 0⟩, ⟨0, 1, 1, 1⟩] ∧ w.manager.dir.map SnapshotFile.base = [])

/-- The first batch of producer 7 is rejected when it is sent again after recovery, where the replay of the log knows
it as a duplicate. -/
def forgets (config : CommitLogConfig) (w : ProducerHost) : Bool :=
  ((newProducerStateManager w.manager.dir IdempotenceState.empty).recover (fun _ => 0)
      (newCommitLog config w.log.files)).toOption.any (fun m : ProducerStateManager =>
    decide ((m.state.validate 0 7 0 0 0).2 = .rejected errDuplicateSequenceNumber)) &&
    decide (((replayed (fun _ => 0) w.stored).validate 0 7 0 0 0).2 = .duplicate 0)

def boasting : Bytes := (soloBatch 7 0 0).take 23 ++ beBytes 4 7 ++ (soloBatch 7 0 0).drop 27

end ProducerHost

end KafGo.Server
