import KafGo.Storage.MessageLog
import KafGo.Storage.TornTail

/-!
# Appends that fail

An append writes the log file, counts its size, and for some batches adds an entry to the offset index and one to the
time index. Each of these can fail, and the steps before it are not undone.
-/

namespace KafGo.Storage
open Lib

/-- What fails: the write of the log file after some bytes, one of the calls that grow the offset index, or the append
to the time index. -/
inductive Fault where
  | write (written : Nat)
  | truncate
  | unmap
  | map
  | timeIndex
  deriving DecidableEq

inductive AppendError where
  | log (e : LogError)
  | write
  | offsetIndex
  | timeIndex
  deriving DecidableEq

namespace OffsetIndex

/-- `idx.mmap = nil`: there is nothing to read or write. -/
def unmapped (idx : OffsetIndex) : OffsetIndex := { idx with mmap := fun _ => 0, size := 0 }

def appendPlain (idx : OffsetIndex) (offset position : Int) : OffsetIndex × Except AppendError Unit :=
  match idx.append offset position with
  | .ok idx => (idx, .ok ())
  | .error e => (idx, .error (.log e))

/-- The faults of the offset index only show when it has to grow. -/
def appendWith (fault : Fault) (idx : OffsetIndex) (offset position : Int) : OffsetIndex × Except AppendError Unit :=
  if idx.size < (idx.entryCount + 1) * entrySize then
    match fault with
    | .truncate => (idx, .error .offsetIndex)
    | .unmap => (idx, .error .offsetIndex)
    | .map => (idx.unmapped, .error .offsetIndex)
    | .write _ => idx.appendPlain offset position
    | .timeIndex => idx.appendPlain offset position
  else idx.appendPlain offset position

end OffsetIndex

namespace Segment

/-- `store` with a fault. A failed write does not count, and the size of a complete one stays when an index fails. -/
def storeWith (fault : Fault) (s : Segment) (position offset : Int) (data : Bytes) :
    Segment × Except AppendError Unit :=
  match fault with
  | .write written => ({ s with logFile := s.logFile ++ data.take written }, .error .write)
  | fault =>
    let s := { s with logFile := s.logFile ++ data, currentSize := s.currentSize + data.length }
    if s.offsetIndex.entryCount = 0 ∨ position - s.lastIndexedPosition ≥ s.indexInterval then
      match s.offsetIndex.appendWith fault offset position with
      | (idx, .error e) => ({ s with offsetIndex := idx }, .error e)
      | (idx, .ok ()) =>
        if fault = .timeIndex then ({ s with offsetIndex := idx }, .error .timeIndex)
        else ({ s with offsetIndex := idx, lastIndexedPosition := position }, .ok ())
    else (s, .ok ())

def appendRawWith (fault : Fault) (s : Segment) (baseOffset : Int) (data : Bytes) : Segment × Except AppendError Unit :=
  if data.length < 8 then (s, .error (.log .tooShort))
  else s.storeWith fault s.logFile.length baseOffset (putBaseOffset baseOffset data)

/-- The fault shows at the message of number `turn`. -/
def appendMessagesWith (fault : Fault) : (turn : Nat) → Segment → Int → List Message → Segment × Except AppendError Unit
  | _, s, _, [] => (s, .ok ())
  | 0, s, position, m :: rest =>
    match s.storeWith fault position m.offset.toInt (serializeMessage m) with
    | (s, .error e) => (s, .error e)
    | (s, .ok ()) =>
      match s.appendMessages (position + (serializeMessage m).length) rest with
      | (s, .error e) => (s, .error (.log e))
      | (s, .ok ()) => (s, .ok ())
  | turn + 1, s, position, m :: rest =>
    match s.appendMessage position m with
    | (s, .error e) => (s, .error (.log e))
    | (s, .ok ()) => appendMessagesWith fault turn s (position + (serializeMessage m).length) rest

end Segment

namespace CommitLog

def rolled (c : CommitLog) : CommitLog := if c.activeSegment.isFull then c.roll else c

def appendRawWith (fault : Fault) (c : CommitLog) (data : Bytes) (recordCount : Int) :
    CommitLog × Except AppendError Int :=
  if c.isClosed then (c, .error (.log .closed))
  else
    match c.rolled.activeSegment.appendRawWith fault c.rolled.nextOffset data with
    | (active, .error e) => ({ c.rolled with activeSegment := active }, .error e)
    | (active, .ok ()) =>
      ({ c.rolled with activeSegment := active, nextOffset := c.rolled.nextOffset + recordCount },
        .ok c.rolled.nextOffset)

def appendWith (fault : Fault) (turn : Nat) (c : CommitLog) (messages : List (Draft × Int64)) :
    CommitLog × Except AppendError Int :=
  if c.isClosed then (c, .error (.log .closed))
  else
    let next := c.rolled.nextOffset + messages.length
    match c.rolled.activeSegment.appendMessagesWith fault turn c.rolled.activeSegment.logFile.length
        (assignOffsets c.rolled.nextOffset messages) with
    | (active, .error e) => ({ c.rolled with activeSegment := active, nextOffset := next }, .error e)
    | (active, .ok ()) => ({ c.rolled with activeSegment := active, nextOffset := next }, .ok c.rolled.nextOffset)

/-- `FindRecords`: the bytes and the offsets of its answer. The lookup panics in an index without a mapping. -/
def fetch (c : CommitLog) (fetchOffset maxBytes : Int) : Except LogError (Option (Bytes × Int × Int)) :=
  let seg := c.segments.getD (c.findSegmentByOffset fetchOffset).toNat c.activeSegment
  if c.isClosed = false ∧ fetchOffset < c.nextOffset ∧ 0 ≤ c.findSegmentByOffset fetchOffset ∧
      seg.offsetIndex.size < seg.offsetIndex.entryCount * entrySize then .error .outOfRange
  else (c.findRecords fetchOffset maxBytes).map fun answer => answer.map fun reg => (reg.bytes, reg.leo, reg.logStart)

end CommitLog

/-- A call with an operation that fails, if it comes to that operation. -/
inductive FailedCall where
  | raw (data : Bytes) (recordCount : Int) (fault : Fault)
  | messages (drafts : List (Draft × Int64)) (turn : Nat) (fault : Fault)

def FailedCall.run (c : CommitLog) : FailedCall → CommitLog × Except AppendError Int
  | .raw data recordCount fault => c.appendRawWith fault data recordCount
  | .messages drafts turn fault => c.appendWith fault turn drafts

def FailedCall.plain (c : CommitLog) : FailedCall → CommitLog × Except LogError Int
  | .raw data recordCount _ => c.appendRaw data recordCount
  | .messages drafts _ _ => c.append drafts

/-- No byte of the call has reached the log, and no offset was given out. -/
def FailedCall.Untouched : FailedCall → Prop
  | .raw data _ fault => data.length < 8 ∨ fault = .write 0
  | .messages _ _ _ => False

/-- The log `c'` is as `c` was: the next offset, the answers of `FindRecords` and the next offset after opening again
are the same, and every later call does what it would have done. -/
structure CommitLog.AsBefore (c' c : CommitLog) : Prop where
  next : c'.nextOffset = c.nextOffset
  fetched : ∀ fetchOffset maxBytes, c'.fetch fetchOffset maxBytes = c.fetch fetchOffset maxBytes
  reopened : ∀ config : CommitLogConfig, 0 < config.segmentMaxBytes →
    (newCommitLog config c'.close).nextOffset = (newCommitLog config c.close).nextOffset ∧
      (newCommitLog config c'.files).nextOffset = (newCommitLog config c.files).nextOffset
  followed : ∀ call : FailedCall, call.run c' = call.run c

/-- An append puts its bytes right behind those of the log, at the offset that is next, where a batch is found. The last
part is for files and segments that fit the 32 bits of an index entry. -/
structure CommitLog.TakesAppends (c : CommitLog) : Prop where
  stored : ∀ (data : Bytes) (recordCount : Int), 8 ≤ data.length → ∃ c'',
    c.appendRaw data recordCount = (c'', .ok c.nextOffset) ∧ c''.content = c.content ++ putBaseOffset c.nextOffset data
  found : ∀ (b : Batch) (next : Nat) (fits : next + b.count < 2 ^ 63) (fault : Fault) (maxBytes : Int) (c'' : CommitLog)
    (base : Int), c.nextOffset = next → (FailedCall.raw b.data b.count fault).run c = (c'', .ok base) →
      c''.activeSegment.logFile.length < 2 ^ 32 → (next : Int) < c''.activeSegment.baseOffset + 2 ^ 32 →
      c''.activeSegment.logFile.length ≤ maxBytes → c''.headersFrom next maxBytes = .ok [(b.storedAt next fits).header]

/-! ### Faults that do not show -/

variable {offset position recordCount base : Int} {fault : Fault} {s s' : Segment} {data : Bytes} {c c' : CommitLog}
  {turn : Nat} {call : FailedCall} {e : AppendError}

theorem OffsetIndex.appendPlain_ok {idx idx' : OffsetIndex} (ran : idx.appendPlain offset position = (idx', .ok ())) :
    idx.append offset position = .ok idx' := by
  unfold OffsetIndex.appendPlain at ran
  split at ran
  · rename_i grown appended
    rw [appended, (Prod.mk.inj ran).1]
  · cases (Prod.mk.inj ran).2

theorem OffsetIndex.appendWith_ok {idx idx' : OffsetIndex}
    (ran : idx.appendWith fault offset position = (idx', .ok ())) : idx.append offset position = .ok idx' := by
  unfold OffsetIndex.appendWith at ran
  split at ran
  · cases fault with
    | write written => exact OffsetIndex.appendPlain_ok ran
    | timeIndex => exact OffsetIndex.appendPlain_ok ran
    | truncate => cases (Prod.mk.inj ran).2
    | unmap => cases (Prod.mk.inj ran).2
    | map => cases (Prod.mk.inj ran).2
  · exact OffsetIndex.appendPlain_ok ran

theorem Segment.storeWith_ok (ran : s.storeWith fault position offset data = (s', .ok ())) :
    s.store position offset data = (s', .ok ()) := by
  unfold Segment.storeWith at ran
  unfold Segment.store
  split at ran
  · cases (Prod.mk.inj ran).2
  · dsimp only at ran ⊢
    split at ran
    · rename_i due
      rw [if_pos due]
      split at ran
      · cases (Prod.mk.inj ran).2
      · rename_i idx appended
        rw [OffsetIndex.appendWith_ok appended]
        split at ran
        · cases (Prod.mk.inj ran).2
        · exact congrArg (·, Except.ok ()) (Prod.mk.inj ran).1
    · rename_i due
      rw [if_neg due]
      exact congrArg (·, Except.ok ()) (Prod.mk.inj ran).1

theorem CommitLog.appendRawWith_ok (ran : c.appendRawWith fault data recordCount = (c', .ok base)) :
    c.appendRaw data recordCount = (c', .ok base) := by
  unfold CommitLog.appendRawWith Segment.appendRawWith at ran
  split at ran
  · cases (Prod.mk.inj ran).2
  · rename_i opened
    split at ran
    · cases (Prod.mk.inj ran).2
    · rename_i active stored
      split at stored
      · cases (Prod.mk.inj stored).2
      · rename_i long
        have plain := (Segment.appendRaw_store (Nat.not_lt.mp long) _).trans (Segment.storeWith_ok stored)
        obtain ⟨rfl, same⟩ := Prod.mk.inj ran
        unfold CommitLog.rolled at plain same ⊢
        unfold CommitLog.appendRaw
        rw [if_neg opened]
        dsimp only
        rw [plain]
        exact congrArg (_, ·) (congrArg Except.ok (Except.ok.inj same))

theorem Segment.appendMessagesWith_ok {ms : List Message}
    (ran : s.appendMessagesWith fault turn position ms = (s', .ok ())) :
    s.appendMessages position ms = (s', .ok ()) := by
  induction ms generalizing turn s position with
  | nil =>
    rw [Segment.appendMessagesWith] at ran
    exact congrArg (·, Except.ok ()) (Prod.mk.inj ran).1
  | cons m rest ih =>
    cases turn with
    | zero =>
      rw [Segment.appendMessagesWith] at ran
      split at ran
      · cases (Prod.mk.inj ran).2
      · rename_i s₁ stored
        have turn : s.appendMessage position m = (s₁, .ok ()) := Segment.storeWith_ok stored
        split at ran
        · cases (Prod.mk.inj ran).2
        · rename_i s₂ others
          rw [Segment.appendMessages, turn]
          dsimp only
          rw [others]
          exact congrArg (·, Except.ok ()) (Prod.mk.inj ran).1
    | succ turn =>
      rw [Segment.appendMessagesWith] at ran
      split at ran
      · cases (Prod.mk.inj ran).2
      · rename_i s₁ stored
        rw [Segment.appendMessages, stored]
        exact ih ran

theorem CommitLog.appendWith_ok {messages : List (Draft × Int64)}
    (ran : c.appendWith fault turn messages = (c', .ok base)) : c.append messages = (c', .ok base) := by
  unfold CommitLog.appendWith at ran
  split at ran
  · cases (Prod.mk.inj ran).2
  · rename_i opened
    dsimp only at ran
    split at ran
    · cases (Prod.mk.inj ran).2
    · rename_i active stored
      have plain := Segment.appendMessagesWith_ok stored
      obtain ⟨rfl, same⟩ := Prod.mk.inj ran
      unfold CommitLog.rolled at plain same ⊢
      unfold CommitLog.append Segment.append
      rw [if_neg opened]
      dsimp only
      rw [plain]
      exact congrArg (_, ·) (congrArg Except.ok (Except.ok.inj same))

theorem FailedCall.run_ok (ran : call.run c = (c', .ok base)) :
    call.plain c = (c', .ok base) := by
  cases call with
  | raw data recordCount fault => exact CommitLog.appendRawWith_ok ran
  | messages drafts turn fault => exact CommitLog.appendWith_ok ran

theorem CommitLog.rolled_content (c : CommitLog) : c.rolled.content = c.content := c.roll_content

theorem CommitLog.rolled_isClosed (c : CommitLog) : c.rolled.isClosed = c.isClosed := by
  unfold CommitLog.rolled
  split <;> rfl

theorem Segment.storeWith_grows (failed : s.storeWith fault position offset data = (s', .error e)) (some : data ≠ [])
    (wrote : fault ≠ .write 0) :
    s.logFile.length < s'.logFile.length := by
  have positive := List.length_pos_of_ne_nil some
  have whole : s.logFile.length < (s.logFile ++ data).length := by
    rw [List.length_append]
    omega
  unfold Segment.storeWith at failed
  split at failed
  · rename_i written
    obtain ⟨rfl, _⟩ := Prod.mk.inj failed
    have nonzero : written ≠ 0 := fun zero => wrote (congrArg Fault.write zero)
    dsimp only
    rw [List.length_append, List.length_take]
    omega
  · dsimp only at failed
    split at failed
    · split at failed
      · obtain ⟨rfl, _⟩ := Prod.mk.inj failed
        exact whole
      · split at failed
        · obtain ⟨rfl, _⟩ := Prod.mk.inj failed
          exact whole
        · cases (Prod.mk.inj failed).2
    · cases (Prod.mk.inj failed).2

theorem CommitLog.appendRawWith_grows (opened : c.isClosed = false) (long : 8 ≤ data.length)
    (wrote : fault ≠ .write 0) (failed : c.appendRawWith fault data recordCount = (c', .error e)) :
    c.content.length < c'.content.length := by
  have some : putBaseOffset c.rolled.nextOffset data ≠ [] := by
    apply List.ne_nil_of_length_pos
    rw [length_putBaseOffset long]
    omega
  unfold CommitLog.appendRawWith Segment.appendRawWith at failed
  rw [opened, if_neg Bool.false_ne_true, if_neg (by omega)] at failed
  split at failed
  · rename_i active e' stored
    obtain ⟨rfl, _⟩ := Prod.mk.inj failed
    have grown := Segment.storeWith_grows stored some wrote
    rw [← c.rolled_content, CommitLog.content_active, CommitLog.content_active, List.length_append, List.length_append]
    dsimp only
    omega
  · cases (Prod.mk.inj failed).2

theorem CommitLog.appendRawWith_untouched (opened : c.isClosed = false)
    (untouched : data.length < 8 ∨ fault = .write 0)
    (failed : c.appendRawWith fault data recordCount = (c', .error e)) : c' = c.rolled := by
  have kept : ∃ e', c.rolled.activeSegment.appendRawWith fault c.rolled.nextOffset data =
      (c.rolled.activeSegment, .error e') := by
    unfold Segment.appendRawWith
    by_cases short : data.length < 8
    · exact ⟨_, if_pos short⟩
    · obtain rfl := untouched.resolve_left short
      rw [if_neg short, Segment.storeWith, List.take_zero, List.append_nil]
      exact ⟨_, rfl⟩
  obtain ⟨e', kept⟩ := kept
  unfold CommitLog.appendRawWith at failed
  rw [opened, if_neg Bool.false_ne_true, kept] at failed
  exact (Prod.mk.inj failed).1.symm

theorem CommitLog.appendRawWith_isClosed (fault : Fault) (c : CommitLog) (data : Bytes) (recordCount : Int) :
    (c.appendRawWith fault data recordCount).1.isClosed = c.isClosed := by
  have kept : c.rolled.isClosed = c.isClosed := c.rolled_isClosed
  unfold CommitLog.appendRawWith
  split
  · rfl
  · split
    · exact kept
    · exact kept

theorem FailedCall.run_untouched (opened : c.isClosed = false) (untouched : call.Untouched)
    (failed : call.run c = (c', .error e)) : c' = c.rolled := by
  cases call with
  | raw data recordCount fault => exact CommitLog.appendRawWith_untouched opened untouched failed
  | messages drafts turn fault => exact absurd untouched id

theorem FailedCall.run_closed (closed : c.isClosed = true) (failed : call.run c = (c', .error e)) : c' = c := by
  cases call with
  | raw data recordCount fault =>
    rw [FailedCall.run, CommitLog.appendRawWith, if_pos closed] at failed
    exact (Prod.mk.inj failed).1.symm
  | messages drafts turn fault =>
    rw [FailedCall.run, CommitLog.appendWith, if_pos closed] at failed
    exact (Prod.mk.inj failed).1.symm

theorem CommitLog.appendWith_nextOffset {messages : List (Draft × Int64)} (opened : c.isClosed = false)
    (failed : c.appendWith fault turn messages = (c', .error e)) :
    c'.nextOffset = c.nextOffset + messages.length ∧ messages ≠ [] := by
  unfold CommitLog.appendWith at failed
  rw [opened, if_neg Bool.false_ne_true] at failed
  dsimp only at failed
  split at failed
  · rename_i active e' stored
    refine ⟨?_, ?_⟩
    · rw [← (Prod.mk.inj failed).1]
      dsimp only
      rw [CommitLog.rolled, c.roll_nextOffset]
    · rintro rfl
      rw [assignOffsets, Segment.appendMessagesWith] at stored
      cases (Prod.mk.inj stored).2
  · cases (Prod.mk.inj failed).2

section Rolled

variable {c : CommitLog} {layout : List (List StoredBatch)} {next : Nat}

theorem CommitLog.fetch_congr {c' : CommitLog} {fetchOffset : Int} (closed : c'.isClosed = c.isClosed)
    (ends : c'.nextOffset = c.nextOffset) (starts : c'.oldestOffset = c.oldestOffset)
    (segment : fetchOffset < c.nextOffset → c'.findSegmentByOffset fetchOffset = c.findSegmentByOffset fetchOffset ∧
      (0 ≤ c.findSegmentByOffset fetchOffset → c'.segments.getD (c.findSegmentByOffset fetchOffset).toNat
        c'.activeSegment = c.segments.getD (c.findSegmentByOffset fetchOffset).toNat c.activeSegment))
    (maxBytes : Int) :
    c'.fetch fetchOffset maxBytes = c.fetch fetchOffset maxBytes := by
  unfold CommitLog.fetch CommitLog.findRecords
  dsimp only
  rw [closed, ends, starts]
  by_cases inside : fetchOffset < c.nextOffset
  · obtain ⟨same, getD⟩ := segment inside
    rw [same]
    by_cases some : 0 ≤ c.findSegmentByOffset fetchOffset
    · rw [getD some]
    · simp only [some, false_and, and_false, if_false, if_pos (Int.not_le.mp some)]
  · simp only [inside, false_and, and_false, if_false, ge_iff_le, if_pos (Int.not_lt.mp inside)]

theorem CommitLog.roll_segment (holds : c.Holds layout next) (full : c.activeSegment.isFull = true)
    {fetchOffset : Int} (inside : fetchOffset < c.nextOffset) :
    c.roll.findSegmentByOffset fetchOffset = c.findSegmentByOffset fetchOffset ∧
      (0 ≤ c.findSegmentByOffset fetchOffset →
        c.roll.segments.getD (c.findSegmentByOffset fetchOffset).toNat c.roll.activeSegment =
          c.segments.getD (c.findSegmentByOffset fetchOffset).toNat c.activeSegment) := by
  have held := roll_holds holds full
  have more : c.roll.segments = c.segments ++ [c.roll.activeSegment] := rfl
  rw [holds.next] at inside
  by_cases negative : fetchOffset < 0
  · have below : ∀ {c : CommitLog} {layout : List (List StoredBatch)}, c.Holds layout next →
        c.findSegmentByOffset fetchOffset = -1 := by
      intro c layout holds
      apply findSegmentByOffset_below
      intro s member
      have base := (linked_bounds holds.linked).2 s member
      omega
    rw [below held, below holds]
    exact ⟨rfl, fun impossible => by omega⟩
  · obtain ⟨off, rfl⟩ := Int.eq_ofNat_of_zero_le (Int.not_lt.mp negative)
    obtain ⟨i, s, base, pre, g, post, located⟩ := linked_locate holds.linked (Nat.zero_le off) (by omega)
    have short : i < layout.length := (List.getElem?_eq_some_iff.mp located.batches).1
    have batches : (layout ++ [[]])[i]? = some (pre ++ g :: post) := by
      rw [List.getElem?_append_left short]
      exact located.batches
    obtain ⟨_, _, s', base', located'⟩ := linked_at held.linked batches located.low located.high
    have index := findSegmentByOffset_located located.found located.order
    have index' := findSegmentByOffset_located located'.found located'.order
    have inRange : i < c.segments.length := (List.getElem?_eq_some_iff.mp located.found).1
    rw [index, index', Int.toNat_natCast]
    refine ⟨rfl, fun _ => ?_⟩
    rw [List.getD_eq_getElem?_getD, List.getD_eq_getElem?_getD, more, List.getElem?_append_left inRange, located.found]
    rfl

theorem CommitLog.rolled_fetch (holds : c.Holds layout next) (fetchOffset maxBytes : Int) :
    c.rolled.fetch fetchOffset maxBytes = c.fetch fetchOffset maxBytes := by
  unfold CommitLog.rolled
  by_cases full : c.activeSegment.isFull = true
  · rw [if_pos full]
    apply CommitLog.fetch_congr
    · rfl
    · rfl
    · rw [oldestOffset_holds (roll_holds holds full), oldestOffset_holds holds]
    · exact CommitLog.roll_segment holds full
  · rw [if_neg full]

/-! ### The append that follows -/

theorem Segment.store_succeeds {s : Segment} (mapped : s.offsetIndex.Mapped) (position offset : Int) (data : Bytes) :
    ∃ s', s.store position offset data = (s', .ok ()) := by
  unfold Segment.store
  dsimp only
  split
  · obtain ⟨idx, appended, _⟩ := OffsetIndex.append_ok mapped offset position
    rw [appended]
    exact ⟨_, rfl⟩
  · exact ⟨_, rfl⟩

theorem CommitLog.rolled_rolled (positive : 0 < c.config.segmentMaxBytes) :
    (if c.rolled.activeSegment.isFull then c.rolled.roll else c.rolled) = c.rolled := by
  have room : c.rolled.activeSegment.isFull = false := by
    unfold CommitLog.rolled
    by_cases full : c.activeSegment.isFull = true
    · rw [if_pos full]
      exact decide_eq_false (Int.not_le.mpr positive)
    · rw [if_neg full]
      exact Bool.eq_false_iff.mpr full
  rw [room, if_neg Bool.false_ne_true]

theorem FailedCall.run_rolled (call : FailedCall) (opened : c.isClosed = false)
    (positive : 0 < c.config.segmentMaxBytes) :
    call.run c.rolled = call.run c := by
  have closed := c.rolled_isClosed
  have again : c.rolled.rolled = c.rolled := CommitLog.rolled_rolled positive
  cases call with
  | raw data recordCount fault =>
    unfold FailedCall.run CommitLog.appendRawWith
    rw [closed, again, opened]
    rfl
  | messages drafts turn fault =>
    unfold FailedCall.run CommitLog.appendWith
    rw [closed, again, opened]
    rfl

theorem CommitLog.appendRaw_stores (holds : c.Holds layout next) {data : Bytes} (recordCount : Int)
    (long : 8 ≤ data.length) : ∃ c'', c.appendRaw data recordCount = (c'', .ok c.nextOffset) ∧
      c''.content = c.content ++ putBaseOffset c.nextOffset data := by
  obtain ⟨layout', held, _⟩ := rolled_holds holds
  change c.rolled.Holds layout' next at held
  obtain ⟨_, _, _, _, active, _⟩ := linked_last held.linked
  obtain ⟨s', appended⟩ := Segment.store_succeeds active.mapped c.rolled.activeSegment.logFile.length
    c.rolled.nextOffset (putBaseOffset c.rolled.nextOffset data)
  rw [← Segment.appendRaw_store long] at appended
  have ran : c.appendRaw data recordCount =
      ({ c.rolled with activeSegment := s', nextOffset := c.rolled.nextOffset + recordCount }, .ok c.nextOffset) := by
    rw [← c.roll_nextOffset]
    unfold CommitLog.rolled at appended ⊢
    unfold CommitLog.appendRaw
    rw [holds.opened, if_neg Bool.false_ne_true]
    dsimp only
    rw [appended]
  exact ⟨_, ran, CommitLog.appendRaw_content ran⟩

theorem placed_last (nonempty : layout ≠ []) (g : StoredBatch) :
    ∃ init pre, placed c layout [g] = init ++ [pre ++ [g]] := by
  unfold placed
  split
  · exact ⟨layout, [], rfl⟩
  · refine ⟨layout.dropLast, layout.getLast nonempty, ?_⟩
    rw [← extendLast_append, List.dropLast_append_getLast]

/-- The batch of an append is the last one of the active segment, where a fetch from its offset finds it alone. -/
theorem CommitLog.appendRaw_found (holds : c.Holds layout next) (b : Batch) (fits : next + b.count < 2 ^ 63)
    {maxBytes : Int} {c'' : CommitLog} (appended : (c.appendRaw b.data b.count).1 = c'')
    (small : c''.activeSegment.logFile.length < 2 ^ 32) (near : (next : Int) < c''.activeSegment.baseOffset + 2 ^ 32)
    (large : c''.activeSegment.logFile.length ≤ maxBytes) :
    c''.headersFrom next maxBytes = .ok [(b.storedAt next fits).header] := by
  obtain ⟨c₁, ran, held, _⟩ := append_batch_holds holds b fits
  rw [ran] at appended
  obtain rfl : c₁ = c'' := appended
  have nonempty : layout ≠ [] := by
    apply List.ne_nil_of_length_pos
    rw [← linked_length holds.linked, CommitLog.segments, List.length_append]
    exact Nat.succ_pos _
  obtain ⟨init, pre, split⟩ := placed_last (c := c) nonempty (b.storedAt next fits)
  rw [split] at held
  have count := linked_length held.linked
  rw [CommitLog.segments, List.length_append, List.length_append, List.length_singleton, List.length_singleton] at count
  have found : c₁.segments[init.length]? = some c₁.activeSegment := by
    rw [CommitLog.segments, show init.length = c₁.sealedSegments.length by omega, List.getElem?_concat_length]
  obtain ⟨_, _, _, same, active, chain, _⟩ := linked_last held.linked
  obtain ⟨_, last⟩ := List.append_inj' same rfl
  obtain rfl := List.singleton_inj.mp last
  have span : c₁.activeSegment.IndexFits (pre ++ [b.storedAt next fits]) := by
    refine Or.inr ⟨small, fun h member => ?_⟩
    have low : h.base ≤ next := by
      obtain ⟨middle, before, ends, _⟩ := chained_append.mp chain
      have start : next = middle := ends
      rcases List.mem_append.mp member with earlier | here
      · have bound := chained_mem before earlier
        omega
      · rw [List.mem_singleton.mp here]
        exact Nat.le_refl _
    omega
  exact headersFrom_trails c₁.trails_refl held found List.getElem?_concat_length span large

theorem CommitLog.rolled_asBefore (holds : c.Holds layout next) : c.rolled.AsBefore c where
  next := c.roll_nextOffset
  fetched := CommitLog.rolled_fetch holds
  reopened := by
    intro config positive
    obtain ⟨layout', held, _⟩ := rolled_holds holds
    have after := (trails_readsBack c.rolled.trails_refl held).reopened config positive
    have before := (trails_readsBack c.trails_refl holds).reopened config positive
    exact ⟨after.1.trans before.1.symm, after.2.trans before.2.symm⟩
  followed call := call.run_rolled holds.opened holds.positive

theorem CommitLog.holds_takesAppends (holds : c.Holds layout next) : c.TakesAppends where
  stored := fun _ recordCount long => CommitLog.appendRaw_stores holds recordCount long
  found := by
    intro b next' fits fault maxBytes c'' base offset ran small near large
    obtain rfl : next = next' := Int.ofNat.inj (holds.next.symm.trans offset)
    exact CommitLog.appendRaw_found holds b fits (congrArg Prod.fst (FailedCall.run_ok ran)) small near large

end Rolled

/-- A log that a failed call has written to is not as before: a write that fails before the first byte shows it. -/
theorem FailedCall.not_asBefore (opened : c.isClosed = false) (failed : call.run c = (c', .error e))
    (touched : ¬ call.Untouched) : ¬ c'.AsBefore c := by
  intro before
  cases call with
  | raw data recordCount fault =>
    have long : 8 ≤ data.length := Nat.not_lt.mp fun short => touched (Or.inl short)
    have grown := CommitLog.appendRawWith_grows opened long (fun nothing => touched (Or.inr nothing)) failed
    have stays : ∀ {c : CommitLog}, c.isClosed = false →
        ((FailedCall.raw data recordCount (.write 0)).run c).1.content = c.content := by
      intro c opened
      obtain ⟨left, e', ran⟩ : ∃ left e', c.appendRawWith (.write 0) data recordCount = (left, .error e') := by
        unfold CommitLog.appendRawWith Segment.appendRawWith
        rw [opened, if_neg Bool.false_ne_true, if_neg (by omega)]
        exact ⟨_, _, rfl⟩
      rw [FailedCall.run, ran, CommitLog.appendRawWith_untouched opened (Or.inr rfl) ran, CommitLog.rolled_content]
    have opened' : c'.isClosed = false := by
      have kept := CommitLog.appendRawWith_isClosed fault c data recordCount
      change (c.appendRawWith fault data recordCount) = _ at failed
      rwa [failed, opened] at kept
    have same := congrArg (fun result => result.1.content.length) (before.followed (.raw data recordCount (.write 0)))
    simp only [stays opened, stays opened'] at same
    omega
  | messages drafts turn fault =>
    obtain ⟨moved, some⟩ := CommitLog.appendWith_nextOffset opened failed
    have positive := List.length_pos_of_ne_nil some
    have same := before.next
    omega

/-- One batch in a log that was closed and opened again, and one more. The index file was cut to one entry, so that it
has to grow for the next batch. -/
def regrownLog : CommitLog :=
  ((newCommitLog ⟨1000, 0⟩ ((newCommitLog ⟨1000, 0⟩ []).appendRaw oneRecord.data 1).1.close).appendRaw
    oneRecord.data 1).1

theorem regrownLog_built : ∃ layout, Built regrownLog layout := by
  have first := Built.append (.empty ⟨1000, 0⟩ (by decide) (by decide)) oneRecord
    (show _ = ((0 : Nat) : Int) by decide +kernel) (by decide)
  have again := Built.reopen first ⟨1000, 0⟩ (by decide) (by decide)
  exact ⟨_, .append again oneRecord (show _ = ((1 : Nat) : Int) by decide +kernel) (by decide)⟩

/-- With an index entry for every batch the one behind 5 torn bytes is found, but it does not count when the log is
opened again: the next offset is 1 and not 2. -/
example :
    let c := ((FailedCall.raw oneRecord.data 1 (.write 5)).run
      ((newCommitLog ⟨1000, 0⟩ []).appendRaw oneRecord.data 1).1).1
    ((c.appendRaw oneRecord.data 1).1.headersFrom 1 1000).toOption.map (List.map BatchHeader.baseOffset) = some [1] ∧
      (newCommitLog ⟨1000, 0⟩ (c.appendRaw oneRecord.data 1).1.close).nextOffset = 1 := by
  decide +kernel

end KafGo.Storage
