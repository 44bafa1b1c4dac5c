import KafGo.Storage.Segment
import Mathlib.Data.List.Sort

/-!
The commit log of a partition: sealed segments in offset order and the active one that takes appends.
-/

namespace KafGo.Storage
open Lib

structure RecordsRegion where
  file : Bytes
  fileOffset : Int
  size : Int
  leo : Int
  logStart : Int

/-- `activeSegment` is always the last of `segments`, so the log keeps the others apart from it. -/
structure CommitLog where
  config : CommitLogConfig
  sealedSegments : List Segment
  activeSegment : Segment
  isClosed : Bool
  nextOffset : Int

def sortSegments (segments : List Segment) : List Segment :=
  segments.insertionSort (fun a b => a.baseOffset ≤ b.baseOffset)

def freshFiles (baseOffset : Int) : SegmentFiles := ⟨baseOffset, [], emptyIndexFile⟩

def loadSegments (config : CommitLogConfig) (dir : List SegmentFiles) : List Segment :=
  match dir with
  | [] => [newSegment config (freshFiles 0)]
  | _ => sortSegments (dir.map (newSegment config))

def newCommitLog (config : CommitLogConfig) (dir : List SegmentFiles) : CommitLog :=
  let segments := loadSegments config dir
  let active := segments.getLastD (newSegment config (freshFiles 0))
  { config := config
    sealedSegments := segments.dropLast
    activeSegment := active
    isClosed := false
    nextOffset := active.nextOffset }

namespace CommitLog

def segments (c : CommitLog) : List Segment := c.sealedSegments ++ [c.activeSegment]

/-- The directory as `Close` leaves it. -/
def close (c : CommitLog) : List SegmentFiles := c.segments.map Segment.close

/-- The directory as it is when the process dies without `Close`. -/
def files (c : CommitLog) : List SegmentFiles := c.segments.map Segment.files

def content (c : CommitLog) : Bytes := c.segments.flatMap Segment.logFile

def roll (c : CommitLog) : CommitLog :=
  { c with
    sealedSegments := c.segments
    activeSegment := newSegment c.config (freshFiles c.activeSegment.nextOffset) }

/-- A roll stays even when the append after it fails. -/
def appendRaw (c : CommitLog) (data : Bytes) (recordCount : Int) : CommitLog × Except LogError Int :=
  if c.isClosed then (c, .error .closed)
  else
    let c := if c.activeSegment.isFull then c.roll else c
    match c.activeSegment.appendRaw c.nextOffset data with
    | (active, .error e) => ({ c with activeSegment := active }, .error e)
    | (active, .ok ()) =>
      ({ c with activeSegment := active, nextOffset := c.nextOffset + recordCount }, .ok c.nextOffset)

/-- An append whose write fails after some bytes: they stay in the file. -/
def appendTorn (c : CommitLog) (data : Bytes) (written : Nat) : CommitLog :=
  let c := if c.activeSegment.isFull then c.roll else c
  { c with
    activeSegment :=
      { c.activeSegment with
        logFile := c.activeSegment.logFile ++ (putBaseOffset c.nextOffset data).take written } }

def oldestOffset (c : CommitLog) : Int := (c.segments.headD c.activeSegment).baseOffset

def newestOffset (c : CommitLog) : Int := c.nextOffset - 1

def activeSegmentBaseOffset (c : CommitLog) : Int := c.activeSegment.baseOffset

def segmentProbe (c : CommitLog) (offset : Int) (mid : Nat) : Ordering :=
  if (c.segments.getD mid c.activeSegment).baseOffset ≤ offset then .lt else .gt

/-- The last segment that starts at or below `offset`, or `-1`. -/
def findSegmentByOffset (c : CommitLog) (offset : Int) : Int :=
  bisect (c.segmentProbe offset) c.segments.length 0 (c.segments.length - 1) (-1)

def findRecords (c : CommitLog) (fetchOffset maxBytes : Int) : Except LogError (Option RecordsRegion) :=
  if c.isClosed then .ok none
  else if fetchOffset ≥ c.nextOffset then .ok none
  else
    let segIdx := c.findSegmentByOffset fetchOffset
    if segIdx < 0 then .ok none
    else
      let seg := c.segments.getD segIdx.toNat c.activeSegment
      match seg.findRawRegion fetchOffset maxBytes with
      | .error e => .error e
      | .ok (filePos, size) => .ok (some ⟨seg.logFile, filePos, size, c.nextOffset, c.oldestOffset⟩)

/-- The index of the last segment that starts at or below `fromOffset`, or zero. -/
def walkStart (c : CommitLog) (fromOffset : Int) : Nat :=
  ((List.range c.segments.length).reverse.find? fun i =>
    decide ((c.segments.getD i c.activeSegment).baseOffset ≤ fromOffset)).getD 0

def walkBatchHeadersFrom {σ ε : Type} (c : CommitLog) (fromOffset : Int) (fn : σ → BatchHeader → Except ε σ) (st : σ) :
    Except (Option ε) σ :=
  (c.segments.drop (c.walkStart fromOffset)).foldlM (fun st s => s.walkBatchHeaders fromOffset fn st) st

theorem segments_map {α : Type} (c : CommitLog) (view : Segment → α) :
    c.segments.map view = c.sealedSegments.map view ++ [view c.activeSegment] := by
  simp only [segments, List.map_append, List.map_cons, List.map_nil]

theorem roll_nextOffset (c : CommitLog) :
    (if c.activeSegment.isFull then c.roll else c).nextOffset = c.nextOffset := by
  split <;> rfl

/-- Offsets are handed out contiguously, whatever the data is. -/
theorem appendRaw_ok {c c' : CommitLog} {data : Bytes} {recordCount base : Int}
    (result : c.appendRaw data recordCount = (c', .ok base)) :
    base = c.nextOffset ∧ c'.nextOffset = c.nextOffset + recordCount := by
  unfold appendRaw at result
  split at result
  · cases (Prod.mk.inj result).2
  · dsimp only at result
    split at result
    · cases (Prod.mk.inj result).2
    · obtain ⟨rfl, same⟩ := Prod.mk.inj result
      obtain rfl := Except.ok.inj same
      exact ⟨c.roll_nextOffset, by dsimp only; rw [c.roll_nextOffset]⟩

theorem appendRaw_error {c c' : CommitLog} {data : Bytes} {recordCount : Int} {e : LogError}
    (result : c.appendRaw data recordCount = (c', .error e)) : c'.nextOffset = c.nextOffset := by
  unfold appendRaw at result
  split at result
  · rw [← (Prod.mk.inj result).1]
  · dsimp only at result
    split at result
    · rw [← (Prod.mk.inj result).1]
      exact c.roll_nextOffset
    · cases (Prod.mk.inj result).2

theorem appendTorn_nextOffset (c : CommitLog) (data : Bytes) (written : Nat) :
    (c.appendTorn data written).nextOffset = c.nextOffset := c.roll_nextOffset

theorem content_active (c : CommitLog) :
    c.content = c.sealedSegments.flatMap Segment.logFile ++ c.activeSegment.logFile := by
  rw [content, segments, List.flatMap_append, List.flatMap_singleton]

theorem roll_content (c : CommitLog) : (if c.activeSegment.isFull then c.roll else c).content = c.content := by
  split
  · have fresh : c.roll.activeSegment.logFile = [] := rfl
    rw [content_active, fresh, List.append_nil]
    rfl
  · rfl

theorem appendRaw_content {c c' : CommitLog} {data : Bytes} {recordCount base : Int}
    (ran : c.appendRaw data recordCount = (c', .ok base)) : c'.content = c.content ++ putBaseOffset base data := by
  unfold appendRaw at ran
  split at ran
  · cases (Prod.mk.inj ran).2
  · rw [← c.roll_content]
    generalize (if c.activeSegment.isFull then c.roll else c) = rolled at ran ⊢
    dsimp only at ran
    split at ran
    · cases (Prod.mk.inj ran).2
    · rename_i active stored
      obtain ⟨rfl, same⟩ := Prod.mk.inj ran
      obtain rfl := Except.ok.inj same
      rw [content_active, content_active, (Segment.appendRaw_stores stored).2, List.append_assoc]

/-- What is in the log stays there, whether an append succeeds or not. -/
theorem appendRaw_grows (c : CommitLog) (data : Bytes) (recordCount : Int) :
    c.content <+: (c.appendRaw data recordCount).1.content := by
  unfold appendRaw
  split
  · exact List.prefix_rfl
  · rw [← c.roll_content]
    generalize (if c.activeSegment.isFull then c.roll else c) = rolled
    have file := rolled.activeSegment.appendRaw_file rolled.nextOffset data
    have grown : rolled.activeSegment.logFile <+:
      (rolled.activeSegment.appendRaw rolled.nextOffset data).1.logFile := by
      rw [file]
      split
      · exact List.prefix_rfl
      · exact List.prefix_append _ _
    rw [content_active]
    dsimp only
    split <;>
    · rename_i appended
      rw [appended] at grown
      rw [content_active]
      exact (List.prefix_append_right_inj _).mpr grown

theorem appendTorn_grows (c : CommitLog) (data : Bytes) (written : Nat) :
    c.content <+: (c.appendTorn data written).content := by
  rw [← c.roll_content, content_active, content_active]
  exact (List.prefix_append_right_inj _).mpr (List.prefix_append _ _)

end CommitLog

theorem findSegmentByOffset_located {c : CommitLog} {off : Int} {i : Nat} {s : Segment}
    (found : c.segments[i]? = some s)
    (order : ∀ (j : Nat) (s' : Segment), c.segments[j]? = some s' → (s'.baseOffset ≤ (off : Int) ↔ j < i + 1)) :
    c.findSegmentByOffset off = i := by
  have inside : i < c.segments.length := (List.getElem?_eq_some_iff.mp found).1
  have searched : bisect (c.segmentProbe off) c.segments.length 0 (c.segments.length - 1) (-1) =
      ((i + 1 : Nat) : Int) - 1 := bisect_floor inside
    (fun j below => by
      have here : c.segments[j]? = some (c.segments.getD j c.activeSegment) := by
        rw [List.getD_eq_getElem?_getD, List.getElem?_eq_getElem below]
        rfl
      rw [← order j _ here]
      unfold CommitLog.segmentProbe
      split <;> simp_all)
    (fun j below equal => by
      unfold CommitLog.segmentProbe at equal
      split at equal <;> cases equal)
  unfold CommitLog.findSegmentByOffset
  omega

theorem findSegmentByOffset_below {c : CommitLog} {off : Int} (above : ∀ s ∈ c.segments, off < s.baseOffset) :
    c.findSegmentByOffset off = -1 := by
  have large : ∀ j < c.segments.length, c.segmentProbe off j = .gt := by
    intro j below
    have member : c.segments.getD j c.activeSegment ∈ c.segments := by
      rw [List.getD_eq_getElem?_getD, List.getElem?_eq_getElem below]
      exact List.getElem_mem below
    unfold CommitLog.segmentProbe
    rw [if_neg (by have := above _ member; omega)]
  have searched : bisect (c.segmentProbe off) c.segments.length 0 (c.segments.length - 1) (-1) =
    ((0 : Nat) : Int) - 1 :=
    bisect_floor (Nat.zero_le _) (fun j below => by simp [large j below])
      (fun j below equal => by simp [large j below] at equal)
  unfold CommitLog.findSegmentByOffset
  omega

end KafGo.Storage
