import KafGo.Storage.Index
import KafGo.Lib.Walk

/-!
One segment: the log file, its offset index, and the loops over batch headers. Each loop reads its own
part of the header and has its own way out at the end of the file.
-/

namespace KafGo.Storage
open Lib

structure CommitLogConfig where
  segmentMaxBytes : Int
  indexInterval : Int

/-- The files of one segment on disk. The base offset is in their names. -/
structure SegmentFiles where
  baseOffset : Int
  log : Bytes
  index : IndexFile

structure Segment where
  baseOffset : Int
  logFile : Bytes
  offsetIndex : OffsetIndex
  maxBytes : Int
  currentSize : Int
  indexInterval : Int
  lastIndexedPosition : Int

structure BatchMeta where
  filePos : Int
  baseOffset : Int
  totalLen : Int

structure BatchHeader where
  baseOffset : Int
  lastOffsetDelta : Int
  producerId : Int
  producerEpoch : Int
  baseSequence : Int
  deriving DecidableEq, Repr

/-- Opening the files of a segment, or creating them when there are none. -/
def newSegment (config : CommitLogConfig) (files : SegmentFiles) : Segment where
  baseOffset := files.baseOffset
  logFile := files.log
  offsetIndex := newOffsetIndex files.index files.baseOffset
  maxBytes := config.segmentMaxBytes
  currentSize := files.log.length
  indexInterval := config.indexInterval
  lastIndexedPosition := 0

namespace Segment

def files (s : Segment) : SegmentFiles := ⟨s.baseOffset, s.logFile, s.offsetIndex.file⟩

def close (s : Segment) : SegmentFiles := ⟨s.baseOffset, s.logFile, s.offsetIndex.close⟩

def isFull (s : Segment) : Bool := decide (s.maxBytes ≤ s.currentSize)

/-- An index error is reported after the bytes are already in the file. -/
def appendRaw (s : Segment) (baseOffset : Int) (data : Bytes) : Segment × Except LogError Unit :=
  if data.length < 8 then (s, .error .tooShort)
  else
    let data := putBaseOffset baseOffset data
    let position : Int := s.logFile.length
    let s := { s with logFile := s.logFile ++ data, currentSize := s.currentSize + data.length }
    if s.offsetIndex.entryCount = 0 ∨ position - s.lastIndexedPosition ≥ s.indexInterval then
      match s.offsetIndex.append baseOffset position with
      | .ok idx => ({ s with offsetIndex := idx, lastIndexedPosition := position }, .ok ())
      | .error e => (s, .error e)
    else (s, .ok ())

theorem appendRaw_file (s : Segment) (baseOffset : Int) (data : Bytes) : (s.appendRaw baseOffset data).1.logFile =
    if data.length < 8 then s.logFile else s.logFile ++ putBaseOffset baseOffset data := by
  unfold appendRaw
  by_cases short : data.length < 8
  · rw [if_pos short, if_pos short]
  · rw [if_neg short, if_neg short]
    dsimp only
    split
    · split <;> rfl
    · rfl

theorem appendRaw_stores {s s' : Segment} {data : Bytes} {base : Int}
    (appended : s.appendRaw base data = (s', .ok ())) :
    8 ≤ data.length ∧ s'.logFile = s.logFile ++ putBaseOffset base data := by
  have file := s.appendRaw_file base data
  by_cases short : data.length < 8
  · rw [appendRaw, if_pos short] at appended
    cases (Prod.mk.inj appended).2
  · rw [appended, if_neg short] at file
    exact ⟨Nat.not_lt.mp short, file⟩

end Segment

def readBatchMeta17 (file : Bytes) (pos : Int) : Except LogError BatchMeta :=
  match readAt file pos headerSizeUpToMagic with
  | none => .error (.readHeader pos)
  | some buf => .ok ⟨pos, int64At buf offsetBaseOffset, 12 + int32At buf offsetBatchLength⟩

def readLastOffset (file : Bytes) (m : BatchMeta) : Except LogError Int :=
  match readAt file (m.filePos + headerSizeUpToMagic) 10 with
  | none => .error (.readLastOffsetDelta m.filePos)
  | some buf => .ok (wrapSigned 64 (m.baseOffset + int32At buf 6))

/-- `startPos` is `-1` until the scan has chosen a batch; `preMeta` is the batch before the current one. -/
structure ScanState where
  startPos : Int
  preMeta : Option BatchMeta

def scanTurn (file : Bytes) (fetchOffset pos : Int) (st : ScanState) : Move LogError ScanState :=
  match readBatchMeta17 file pos with
  | .error e => .fail e
  | .ok curr =>
    if curr.baseOffset ≥ fetchOffset then
      match st.preMeta with
      | some pre => .stop { st with startPos := pre.filePos }
      | none => .stop { st with startPos := curr.filePos }
    else
      match readLastOffset file curr with
      | .error e => .fail e
      | .ok lastOffset =>
        if lastOffset ≥ fetchOffset then .stop { st with startPos := curr.filePos }
        else .next curr.totalLen { st with preMeta := some curr }

def accumulateTurn (file : Bytes) (maxBytes pos accumulated : Int) : Move LogError Int :=
  match readBatchMeta17 file pos with
  | .error e => .fail e
  | .ok curr =>
    if maxBytes > 0 ∧ accumulated > 0 ∧ accumulated + curr.totalLen > maxBytes then .stop accumulated
    else if maxBytes > 0 ∧ accumulated + curr.totalLen > maxBytes then .stop (accumulated + curr.totalLen)
    else .next curr.totalLen (accumulated + curr.totalLen)

namespace Segment

/-- More turns than the file has bytes repeat a position, and then the loop never ends. -/
def fuel (s : Segment) : Nat := s.logFile.length + 1

def findStart (s : Segment) (fetchOffset : Int) : Except LogError ScanState :=
  walk .diverges headerSizeUpToMagic s.logFile.length (scanTurn s.logFile fetchOffset) s.fuel
    (s.offsetIndex.lookup fetchOffset) ⟨-1, none⟩

def accumulate (s : Segment) (startPos maxBytes : Int) : Except LogError Int :=
  walk .diverges headerSizeUpToMagic s.logFile.length (accumulateTurn s.logFile maxBytes) s.fuel startPos 0

/-- The position and size of the region to send, `(0, 0)` when there is nothing. -/
def findRawRegion (s : Segment) (fetchOffset maxBytes : Int) : Except LogError (Int × Int) := do
  let st ← s.findStart fetchOffset
  let startPos : Option Int :=
    if st.startPos < 0 then st.preMeta.map BatchMeta.filePos else some st.startPos
  match startPos with
  | none => return (0, 0)
  | some startPos =>
    let accumulated ← s.accumulate startPos maxBytes
    if accumulated = 0 then return (0, 0)
    return (startPos, accumulated)

end Segment

def lastBaseOffsetTurn (file : Bytes) (pos lastBaseOffset : Int) : Move LogError Int :=
  match readAt file pos headerSizeWithDelta with
  | none => .stop lastBaseOffset
  | some buf =>
    let totalLen : Int := 12 + uint32At buf offsetBatchLength
    if totalLen ≤ 0 ∨ pos + totalLen > file.length then .stop lastBaseOffset
    else .next totalLen (int64At buf offsetBaseOffset)

def scanLastOffsetTurn (file : Bytes) (pos nextOffset : Int) : Move LogError Int :=
  match readAt file pos headerSizeWithDelta with
  | none => .stop nextOffset
  | some buf =>
    let totalLen : Int := 12 + int32At buf offsetBatchLength
    if totalLen ≤ 0 ∨ pos + totalLen > file.length then .stop nextOffset
    else .next totalLen
      (wrapSigned 64 (int64At buf offsetBaseOffset + int32At buf offsetLastOffsetDelta + 1))

namespace Segment

def scanLastOffset (s : Segment) : Except LogError Int :=
  walk .diverges headerSizeWithDelta s.logFile.length (scanLastOffsetTurn s.logFile) s.fuel 0 s.baseOffset

/-- Both loops only move forward, so neither uses up its fuel. -/
def nextOffset (s : Segment) : Int :=
  match walk .diverges headerSizeUpToMagic s.logFile.length (lastBaseOffsetTurn s.logFile) s.fuel 0 (-1) with
  | .error _ => s.baseOffset
  | .ok lastBaseOffset =>
    if lastBaseOffset < 0 then s.baseOffset
    else match s.scanLastOffset with
      | .error _ => s.baseOffset
      | .ok next => next

end Segment

def headerAt (buf : Bytes) : BatchHeader where
  baseOffset := int64At buf offsetBaseOffset
  lastOffsetDelta := int32At buf offsetLastOffsetDelta
  producerId := int64At buf 43
  producerEpoch := int16At buf 51
  baseSequence := int32At buf 53

/-- An error is the callback's, or `none` for a walk that never ends. -/
def walkHeadersTurn {σ ε : Type} (file : Bytes) (fromOffset : Int) (fn : σ → BatchHeader → Except ε σ) (pos : Int)
    (st : σ) : Move (Option ε) σ :=
  match readAt file pos headerSizeWithProducerInfo with
  | none => .stop st
  | some buf =>
    let totalLen : Int := 12 + int32At buf offsetBatchLength
    if totalLen ≤ 0 ∨ pos + totalLen > file.length then .stop st
    else if (headerAt buf).baseOffset ≥ fromOffset then
      match fn st (headerAt buf) with
      | .error e => .fail (some e)
      | .ok st => .next totalLen st
    else .next totalLen st

def walkHeaders {σ ε : Type} (file : Bytes) (fromOffset : Int) (fn : σ → BatchHeader → Except ε σ) (st : σ) :
    Except (Option ε) σ :=
  walk none headerSizeWithProducerInfo file.length (walkHeadersTurn file fromOffset fn) (file.length + 1) 0 st

def Segment.walkBatchHeaders {σ ε : Type} (s : Segment) (fromOffset : Int) (fn : σ → BatchHeader → Except ε σ)
    (st : σ) : Except (Option ε) σ :=
  walkHeaders s.logFile fromOffset fn st

end KafGo.Storage
