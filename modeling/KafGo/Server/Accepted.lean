import KafGo.Protocol.RecordBatch
import KafGo.Server.Broker
import KafGo.Storage.Clip
import KafGo.Storage.Headers
import KafGo.Storage.Contiguous

/-!
# What the produce path stores

`DecodeRecordBatch` decides whether a produce request is accepted, and `AppendRaw` then writes the bytes as the
client sent them. The decoder skips `BatchLength`, never compares `LastOffsetDelta` with the record count, takes a
batch without records, and ignores what is left after the last record. The storage layer goes by exactly these
fields: a header that lies is stored, and the walkers of the file lose the batches behind it.
-/

namespace KafGo.Server
open Lib Protocol Storage

/-- A header that tells the truth about the bytes and the records of its batch. -/
def WellFormed (data : Bytes) : Prop :=
  (batchLogOverhead : Int) + int32At data offsetBatchLength = data.length ∧
    1 ≤ int32At data batchRecordCountOff ∧
    int32At data offsetLastOffsetDelta = int32At data batchRecordCountOff - 1

instance (data : Bytes) : Decidable (WellFormed data) := inferInstanceAs (Decidable (_ ∧ _ ∧ _))

inductive ProduceCall where
  | produce (raw : Bytes)
  | restart

structure ProduceSession where
  log : CommitLog
  accepted : List (Bytes × Int)

def ProduceSession.call (snappy : Bytes → Option Bytes) (s : ProduceSession) : ProduceCall → ProduceSession
  | .produce raw => match decodeRecordBatch snappy raw with
    | .error _ => s
    | .ok batch => match s.log.appendRaw raw batch.records.length with
      | (log, .error _) => { s with log := log }
      | (log, .ok base) => ⟨log, s.accepted ++ [(raw, base)]⟩
  | .restart => { s with log := newCommitLog defaultCommitLogConfig s.log.close }

def ProduceSession.calls (snappy : Bytes → Option Bytes) (s : ProduceSession) (calls : List ProduceCall) :
    ProduceSession :=
  calls.foldl (ProduceSession.call snappy) s

def newProduceSession : ProduceSession := ⟨newCommitLog defaultCommitLogConfig [], []⟩

def announced : List ProduceCall → Nat
  | [] => 0
  | .produce raw :: calls => (int32At raw batchRecordCountOff).toNat + announced calls
  | .restart :: calls => announced calls

theorem wellFormed_putBaseOffset {data : Bytes} (long : 8 ≤ data.length) (base : Int) :
    WellFormed (putBaseOffset base data) ↔ WellFormed data := by
  unfold WellFormed int32At
  rw [length_putBaseOffset long, uint32At_putBaseOffset (by decide), uint32At_putBaseOffset (by decide),
    uint32At_putBaseOffset (by decide)]

theorem appendRaw_stores {c log : CommitLog} {data : Bytes} {recordCount base : Int}
    (appended : c.appendRaw data recordCount = (log, .ok base)) :
    8 ≤ data.length ∧ ∃ before, log.activeSegment.logFile = before ++ putBaseOffset base data := by
  unfold CommitLog.appendRaw at appended
  split at appended
  · cases appended
  · dsimp only at appended
    split at appended
    · cases appended
    · rename_i active stored
      cases appended
      obtain ⟨long, file⟩ := Segment.appendRaw_stores stored
      exact ⟨long, _, file⟩

variable {off next : Nat} {fs : List StoredBatch} {s : ProduceSession} {layout : List (List StoredBatch)}

theorem uint32At_nonneg {buf : Bytes} (nonneg : 0 ≤ int32At buf off) :
    (uint32At buf off : Int) = int32At buf off := by
  have bound : uint32At buf off < 2 ^ 32 := beNat_slice_lt buf off 4
  unfold int32At signed at nonneg ⊢
  split
  · rfl
  · rename_i large
    rw [if_neg large] at nonneg
    omega

def acceptedBatch {snappy : Bytes → Option Bytes} {raw : Bytes} {batch : RecordBatch}
    (decoded : decodeRecordBatch snappy raw = .ok batch) (truthful : WellFormed raw) : Batch :=
  have room := (decodeRecordBatch_ok decoded).1
  have records : (batch.records.length : Int) = int32At raw batchRecordCountOff := (decodeRecordBatch_ok decoded).2
  have length : 12 + int32At raw offsetBatchLength = raw.length := truthful.1
  have positive := truthful.2.1
  have delta := truthful.2.2
  have lengthFits := int32At_fits raw offsetBatchLength
  have countFits := int32At_fits raw batchRecordCountOff
  { data := raw
    count := batch.records.length
    long := room
    short := by omega
    batchLength := by
      have same := @uint32At_nonneg offsetBatchLength raw (by omega)
      omega
    counted := by
      have same := @uint32At_nonneg batchRecordCountOff raw (by omega)
      omega
    positive := by omega
    countFits := by omega
    lastOffsetDelta := by
      have same := @uint32At_nonneg offsetLastOffsetDelta raw (by omega)
      omega }

theorem int32At_of_uint32At {buf : Bytes} {n : Nat} (field : uint32At buf off = n) (small : n < 2 ^ 31) :
    int32At buf off = n := by
  unfold int32At
  rw [field, signed_of_lt small]

theorem batch_wellFormed (b : Batch) : WellFormed b.data := by
  have short := b.short
  have long := b.long
  have positive := b.positive
  have countFits := b.countFits
  have length := int32At_of_uint32At b.batchLength (by omega)
  have count := int32At_of_uint32At b.counted countFits
  have delta := int32At_of_uint32At b.lastOffsetDelta (by omega)
  unfold WellFormed
  rw [length, count, delta, batchLogOverhead]
  omega

def collect (seen : List BatchHeader) (h : BatchHeader) : Except Empty (List BatchHeader) := .ok (seen ++ [h])

/-- Every walker of the file of a segment finds exactly the batches `fs`. -/
structure Parses (seg : Segment) (fs : List StoredBatch) : Prop where
  file : seg.logFile = bytesOf fs
  headers : ∀ fromOffset, seg.walkBatchHeaders fromOffset collect [] =
    .ok ((fs.filter (StoredBatch.reaches fromOffset)).map StoredBatch.header)
  nextOffset : seg.nextOffset = seg.baseOffset + ((fs.map (fun f => f.count)).sum : Nat)
  clip : ∀ pre mid post leo logStart maxVisible, fs = pre ++ mid ++ post →
    RecordsRegion.clipRegionToOffset ⟨seg.logFile, (bytesOf pre).length, (bytesOf mid).length, leo,
      logStart⟩ maxVisible =
      .ok ⟨seg.logFile, (bytesOf pre).length, (bytesOf (mid.takeWhile (StoredBatch.visible maxVisible))).length, leo,
        logStart⟩
  region : ∀ off maxBytes, 0 < maxBytes → seg.baseOffset ≤ off → off < seg.nextOffset →
    ∃ pre g post size, fs = pre ++ g :: post ∧ seg.findRawRegion off maxBytes =
      .ok (((bytesOf pre).length : Int), size) ∧
      LongestRun maxBytes ((g :: post).map StoredBatch.length) size

theorem collect_all (fs : List StoredBatch) (seen : List BatchHeader) :
    fs.foldlM (fun seen f => collect seen f.header) seen = .ok (seen ++ fs.map StoredBatch.header) := by
  induction fs generalizing seen with
  | nil => simp [pure, Except.pure]
  | cons f fs ih =>
    rw [List.foldlM_cons, List.map_cons]
    exact (ih (seen ++ [f.header])).trans (by rw [List.append_assoc, List.singleton_append])

theorem findStart_holds {seg : Segment} {base last : Nat} (holds : seg.Holds base fs) (chain : Chained base fs last)
    (small : (bytesOf fs).length < 2 ^ 32) (low : base ≤ off) (high : off < last) :
    ∃ st pre g post, seg.findStart off = .ok st ∧ fs = pre ++ g :: post ∧ st.startPos = (bytesOf pre).length := by
  obtain ⟨p, g, q, split, lower, upper, before⟩ := chained_locate chain low high
  subst split
  obtain ⟨n, inside, aim⟩ := lookup_boundary holds (by simp) (by rw [holds.file]; exact small) off
  obtain ⟨m, _, based, rest⟩ := chained_append.mp chain
  obtain ⟨pre, h, post, st, split, found, start, _⟩ := findStart_stops holds.file inside aim
    (fun h member => Nat.le_trans (before h member) lower) upper (fun h member => by
      have behind := chained_mem rest member
      omega)
  exact ⟨st, pre, h, post, found, split, start⟩

theorem holds_parses {seg : Segment} {base last : Nat} (holds : seg.Holds base fs) (chain : Chained base fs last)
    (small : (bytesOf fs).length < 2 ^ 32) : Parses seg fs where
  file := holds.file
  headers fromOffset := by
    have walked := walkHeaders_batches collect fromOffset torn_nil fs []
    rw [List.append_nil, collect_all, List.nil_append] at walked
    unfold Segment.walkBatchHeaders
    rw [holds.file, walked]
    rfl
  nextOffset := by
    rw [nextOffset_holds holds chain, chained_count chain, holds.based, Int.natCast_add]
  clip pre mid post leo logStart maxVisible split := by
    have file : seg.logFile = bytesOf pre ++ bytesOf mid ++ bytesOf post := by
      rw [holds.file, split, bytesOf_append, bytesOf_append]
    exact clip_leading ⟨seg.logFile, _, _, leo, logStart⟩ file rfl rfl maxVisible
  region off maxBytes budget low high := by
    rw [nextOffset_holds holds chain] at high
    rw [holds.based] at low
    obtain ⟨n, rfl⟩ := Int.eq_ofNat_of_zero_le (by omega : 0 ≤ off)
    have inside : base ≤ n ∧ n < last := by omega
    obtain ⟨st, pre, g, post, found, split, start⟩ := findStart_holds holds chain small inside.1 inside.2
    obtain ⟨size, answer, longest⟩ := findRawRegion_from (by rw [holds.file, split]) budget found start
    exact ⟨pre, g, post, size, split, answer, longest⟩

/-! ### Runs -/

/-- The batch `f` is the accepted request `a`, with its base offset patched in. -/
def Stores (f : StoredBatch) (a : Bytes × Int) : Prop :=
  f.data = putBaseOffset a.2 a.1 ∧ (f.base : Int) = a.2 ∧ (f.count : Int) = int32At a.1 batchRecordCountOff

theorem stores_wellFormed {accepted : List (Bytes × Int)} (stores : List.Forall₂ Stores fs accepted) :
    ∀ a ∈ accepted, WellFormed (putBaseOffset a.2 a.1) := by
  induction stores with
  | nil => exact fun a member => absurd member List.not_mem_nil
  | @cons f a fs accepted here rest ih =>
    intro b member
    rcases List.mem_cons.mp member with rfl | member
    · rw [← here.1]
      exact batch_wellFormed f.toBatch
    · exact ih b member

/-- The log is what the accepted requests make it, and no segment reaches four gigabytes. -/
structure Accepting (s : ProduceSession) (layout : List (List StoredBatch)) (next : Nat) : Prop where
  holds : s.log.Holds layout next
  config : s.log.config = defaultCommitLogConfig
  stores : List.Forall₂ Stores layout.flatten s.accepted
  small : ∀ fs ∈ layout, (bytesOf fs).length < 2 ^ 32

theorem accepting_restart (accepting : Accepting s layout next) (snappy : Bytes → Option Bytes) :
    Accepting (s.call snappy .restart) layout next where
  holds := reopen_holds accepting.holds (by decide) Segment.close (fun _ => rfl) (fun _ => rfl)
    fun seg _ => close_whole seg.offsetIndex
  config := rfl
  stores := accepting.stores
  small := accepting.small

theorem placed_small {c : CommitLog} (holds : c.Holds layout next) (config : c.config = defaultCommitLogConfig)
    (small : ∀ fs ∈ layout, (bytesOf fs).length < 2 ^ 32) (f : StoredBatch) :
    ∀ fs ∈ placed c layout [f], (bytesOf fs).length < 2 ^ 32 := by
  have short := f.short
  intro fs member
  unfold placed at member
  split at member
  · rcases List.mem_append.mp member with old | new
    · exact small fs old
    · rw [List.mem_singleton.mp new, bytesOf_cons, bytesOf_nil, List.append_nil]
      omega
  · rename_i roomy
    obtain ⟨init, gs, m, rfl, held, _⟩ := linked_last holds.linked
    rw [extendLast_append] at member
    rcases List.mem_append.mp member with old | new
    · exact small fs (List.mem_append_left _ old)
    · have size := held.size
      have limit := holds.limit
      rw [config] at limit
      simp only [Segment.isFull, decide_eq_true_eq, limit, size, defaultCommitLogConfig] at roomy
      rw [List.mem_singleton.mp new, bytesOf_append, List.length_append, ← held.file, bytesOf_cons, bytesOf_nil,
        List.append_nil]
      omega

theorem accepting_produce (accepting : Accepting s layout next) {snappy : Bytes → Option Bytes} {raw : Bytes}
    {batch : RecordBatch} (decoded : decodeRecordBatch snappy raw = .ok batch) (truthful : WellFormed raw)
    (fits : next + batch.records.length < 2 ^ 63) :
    ∃ layout', Accepting (s.call snappy (.produce raw)) layout' (next + batch.records.length) := by
  let b := acceptedBatch decoded truthful
  obtain ⟨log, appended, held, config⟩ := append_batch_holds accepting.holds b fits
  have step : s.call snappy (.produce raw) = ⟨log, s.accepted ++ [(raw, (next : Int))]⟩ := by
    have stored : s.log.appendRaw raw batch.records.length = (log, .ok (next : Int)) := appended
    simp only [ProduceSession.call, decoded, stored]
  rw [step]
  refine ⟨_, held, config.trans accepting.config, ?_, placed_small accepting.holds accepting.config accepting.small _⟩
  rw [flatten_placed]
  exact List.rel_append accepting.stores (.cons ⟨rfl, rfl, (decodeRecordBatch_ok decoded).2⟩ .nil)

/-- Every accepted request of the calls has a truthful header. -/
def Truthful (snappy : Bytes → Option Bytes) (calls : List ProduceCall) : Prop :=
  ∀ raw batch, .produce raw ∈ calls → decodeRecordBatch snappy raw = .ok batch → WellFormed raw

theorem accepting_calls (snappy : Bytes → Option Bytes) (calls : List ProduceCall)
    (accepting : Accepting s layout next) (truthful : Truthful snappy calls) (fits : next + announced calls < 2 ^ 63) :
    ∃ layout' next', Accepting (s.calls snappy calls) layout' next' := by
  induction calls generalizing s layout next with
  | nil => exact ⟨layout, next, accepting⟩
  | cons call calls ih =>
    have later : Truthful snappy calls := fun raw batch member => truthful raw batch (.tail _ member)
    cases call with
    | restart => exact ih (accepting_restart accepting snappy) later fits
    | produce raw =>
      rw [announced] at fits
      cases decoded : decodeRecordBatch snappy raw with
      | error failure =>
        have same : s.call snappy (.produce raw) = s := by simp only [ProduceSession.call, decoded]
        have rest := ih accepting later (by omega)
        rwa [← same] at rest
      | ok batch =>
        have records : (batch.records.length : Int) = int32At raw batchRecordCountOff :=
          (decodeRecordBatch_ok decoded).2
        obtain ⟨layout', accepting'⟩ := accepting_produce accepting decoded
          (truthful raw batch (.head _) decoded) (by omega)
        exact ih accepting' later (by omega)

theorem newProduceSession_accepting : Accepting newProduceSession [[]] 0 where
  holds := newCommitLog_holds (by decide)
  config := rfl
  stores := .nil
  small := by
    intro fs member
    rw [List.mem_singleton.mp member]
    decide

/-- The bytes that an accepted request leaves in the file are a well-formed batch exactly if the header that the
client sent is truthful. If all accepted requests have truthful headers, and the offsets fit an `int64`, then in every
state that requests and restarts reach from an empty directory the segments hold exactly the accepted requests, each
as a well-formed batch, and every walker finds them. -/
theorem accepted_parses (snappy : Bytes → Option Bytes) :
    (∀ (c log : CommitLog) (raw : Bytes) (batch : RecordBatch) (base : Int), decodeRecordBatch snappy raw = .ok batch →
      c.appendRaw raw batch.records.length = (log, .ok base) →
      ∃ before stored, log.activeSegment.logFile = before ++ stored ∧ stored.length = raw.length ∧
        (WellFormed stored ↔ WellFormed raw)) ∧
    ∀ calls : List ProduceCall, Truthful snappy calls → announced calls < 2 ^ 63 →
      let s := newProduceSession.calls snappy calls
      (∀ a ∈ s.accepted, WellFormed (putBaseOffset a.2 a.1)) ∧
      ∃ layout : List (List StoredBatch), List.Forall₂ Stores layout.flatten s.accepted ∧
        layout.length = s.log.segments.length ∧
        ∀ (i : Nat) (seg : Segment) (fs : List StoredBatch), s.log.segments[i]? = some seg → layout[i]? = some fs →
          Parses seg fs := by
  refine ⟨fun c log raw batch base _ appended => ?_, fun calls truthful fits => ?_⟩
  · obtain ⟨long, before, file⟩ := appendRaw_stores appended
    exact ⟨before, _, file, length_putBaseOffset long base, wellFormed_putBaseOffset long base⟩
  · obtain ⟨layout, next, accepting⟩ := accepting_calls snappy calls newProduceSession_accepting truthful (by omega)
    have linked := accepting.holds.linked
    refine ⟨stores_wellFormed accepting.stores, layout, accepting.stores, (linked_length linked).symm, ?_⟩
    intro i seg fs found batches
    obtain ⟨base, last, fs', batches', held, chain, _⟩ := linked_segment linked found
    obtain rfl : fs = fs' := Option.some.inj (batches.symm.trans batches')
    exact holds_parses held chain (accepting.small fs (List.mem_of_getElem? batches))

def announcing (batchLength lastOffsetDelta recordCount : Nat) : Bytes :=
  beBytes 8 0 ++ beBytes 4 batchLength ++ beBytes 4 0 ++ [2] ++ beBytes 4 0 ++ beBytes 2 0 ++
    beBytes 4 lastOffsetDelta ++ beBytes 8 0 ++ beBytes 8 0 ++ beBytes 8 0 ++ beBytes 2 0 ++ beBytes 4 0 ++
    beBytes 4 recordCount ++ [0, 0, 0, 0, 1, 0, 0]

/-- Two requests with a restart in between. -/
theorem accepted_parses_two :
    let calls : List ProduceCall := [.produce (announcing 56 0 1), .restart, .produce (announcing 56 0 1)]
    let s := newProduceSession.calls some calls
    s.accepted.length = 2 ∧ ∀ a ∈ s.accepted, WellFormed (putBaseOffset a.2 a.1) := by
  intro calls s
  have truthful : Truthful some calls := by
    intro raw batch member _
    obtain rfl : raw = announcing 56 0 1 := by simpa [calls] using member
    decide +kernel
  exact ⟨by decide +kernel, ((accepted_parses some).2 calls truthful (by decide +kernel)).1⟩

/-- A header that announces a thousand bytes is accepted, and so is the request behind it. Neither is found by the
walk over the headers, and after a restart the log starts again at offset zero. With a false `LastOffsetDelta` the
restart changes the next offset, and a batch without records is accepted as well. -/
theorem lies_accepted :
    let hidden := newProduceSession.calls some [.produce (announcing 1000 0 1), .produce (announcing 56 0 1)]
    let skewed := newProduceSession.calls some [.produce (announcing 56 7 1)]
    let empty := newProduceSession.calls some [.produce (announcing 56 0 0)]
    (hidden.accepted.map Prod.snd = [0, 1] ∧ ¬ WellFormed (announcing 1000 0 1) ∧ hidden.log.nextOffset = 2 ∧
      hidden.log.activeSegment.walkBatchHeaders 0 collect [] = .ok [] ∧
      (hidden.call some .restart).log.nextOffset = 0) ∧
    (skewed.accepted.map Prod.snd = [0] ∧ ¬ WellFormed (announcing 56 7 1) ∧ skewed.log.nextOffset = 1 ∧
      (skewed.call some .restart).log.nextOffset = 8) ∧
    (empty.accepted.map Prod.snd = [0] ∧ ¬ WellFormed (announcing 56 0 0) ∧ empty.log.nextOffset = 0) := by
  decide +kernel

end KafGo.Server
