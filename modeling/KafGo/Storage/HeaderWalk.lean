import KafGo.Protocol.MalformedBatch
import KafGo.Storage.Boundaries

/-!
# Walking the headers of a log

`WalkBatchHeadersFrom` starts in the last segment at or below an offset and walks every segment from there on. In a log
whose batches lie in order, it passes each batch from the offset on to its callback once. Producers are recovered from
what it passes.
-/

namespace KafGo.Storage
open Lib Protocol

/-- The fields that the walk picks out, as the decoder of a batch has them. -/
def BatchHeader.ofBatch (batch : RecordBatch) : BatchHeader :=
  ⟨batch.baseOffset, batch.lastOffsetDelta, batch.producerId, batch.producerEpoch, batch.baseSequence⟩

theorem fixed_at {α : Type} (f : Bytes → α) {raw : Bytes} {off n : Nat} (room : off + n ≤ raw.length) :
    (do return f (← Read.take n) : Read α).run.run (raw.drop off) =
      (.ok (f (slice raw off n)), raw.drop (off + n)) := by
  have taken : (Read.take n).run.run (raw.drop off) = (.ok (slice raw off n), raw.drop (off + n)) := by
    rw [Read.take_run, if_neg (by rw [List.length_drop]; omega), List.drop_drop]
    rfl
  rw [Read.run_ok taken]
  rfl

theorem decodeHeader_at {raw : Bytes} (long : 61 ≤ raw.length) : decodeHeader.run.run raw =
    (.ok (⟨int64At raw 0, int32At raw 12, signed 8 (beNat (slice raw 16 1)), uint32At raw 17, int16At raw 21,
      int32At raw 23, int64At raw 27, int64At raw 35, int64At raw 43, int16At raw 51, int32At raw 53, []⟩,
      int32At raw 57), raw.drop 61) := by
  have start : decodeHeader.run.run raw = decodeHeader.run.run (raw.drop 0) := rfl
  rw [start]
  unfold decodeHeader Read.int64 Read.int32 Read.int16 Read.int8 Read.uint32
  iterate 13 rw [Read.run_ok (fixed_at _ (by omega))]
  rfl

theorem StoredBatch.header_fields (f : StoredBatch) : f.header =
    ⟨int64At f.data 0, int32At f.data 23, int64At f.data 43, int16At f.data 51, int32At f.data 53⟩ := by
  have inside : ∀ {off n}, off + n ≤ headerSizeWithProducerInfo →
      slice (slice f.data 0 headerSizeWithProducerInfo) off n = slice f.data off n := by
    intro off n fits
    rw [slice_slice fits, Nat.zero_add]
  unfold StoredBatch.header headerAt int64At int32At int16At uint64At uint32At uint16At
  rw [inside (by decide), inside (by decide), inside (by decide), inside (by decide), inside (by decide)]
  rfl

theorem StoredBatch.header_decoded (f : StoredBatch) : ∃ batch count, decodeHeader.run.run f.data =
    (.ok (batch, count), f.data.drop 61) ∧ f.header = .ofBatch batch :=
  ⟨_, _, decodeHeader_at f.long, f.header_fields⟩

theorem decodeRecordBatch_header {snappy : Bytes → Option Bytes} {raw : Bytes} {batch : RecordBatch}
    (ok : decodeRecordBatch snappy raw = .ok batch) : BatchHeader.ofBatch batch =
      ⟨int64At raw 0, int32At raw 23, int64At raw 43, int16At raw 51, int32At raw 53⟩ := by
  have long := (decodeRecordBatch_ok ok).1
  obtain ⟨⟨header, recordCount⟩, _, first, ok⟩ := Read.gives_bind (Prod.ext ok rfl : Read.Gives _ raw batch _)
  obtain ⟨rfl, _⟩ := Prod.mk.inj (Except.ok.inj (Prod.mk.inj (first.symm.trans (decodeHeader_at long))).1)
  dsimp only at ok
  iterate 6
    obtain ⟨_, _, _, next⟩ := Read.gives_bind ok
    clear ok
    rename' next => ok
  obtain ⟨rfl, _⟩ := Read.gives_pure ok
  rfl

section Walk

variable {σ ε : Type} (fn : σ → BatchHeader → Except ε σ)

/-- The loop over a segment file without its fuel. -/
def Segment.WalkEnds (s : Segment) (fromOffset : Int) (st : σ) (r : Except (Option ε) σ) : Prop :=
  Ends headerSizeWithProducerInfo s.logFile.length (walkHeadersTurn s.logFile fromOffset fn) 0 st r

theorem walkHeadersTurn_forward {file : Bytes} {fromOffset pos len : Int} {st st' : σ}
    (moves : walkHeadersTurn file fromOffset fn pos st = .next len st') : 0 < len := by
  unfold walkHeadersTurn at moves
  split at moves
  · cases moves
  · dsimp only at moves
    split at moves
    · cases moves
    · split at moves
      · split at moves
        · cases moves
        · cases moves
          omega
      · cases moves
        omega

theorem walkBatchHeaders_ends (s : Segment) (fromOffset : Int) (st : σ) :
    ∃ r, s.WalkEnds fn fromOffset st r ∧ s.walkBatchHeaders fromOffset fn st = r := by
  obtain ⟨r, ends, walked⟩ := walk_forward (none : Option ε) (s.logFile.length + 1)
    (fun _ _ _ _ _ _ moves => walkHeadersTurn_forward fn moves : Forward headerSizeWithProducerInfo s.logFile.length
      (walkHeadersTurn s.logFile fromOffset fn) 0 st)
    (by simp only [headerSizeWithProducerInfo]; omega)
  exact ⟨r, ends, walked (by omega)⟩

/-! ### Segments in order -/

/-- The segment files hold well-formed batches with increasing offsets, and no batch lies at or above the base offset of
a later segment. -/
structure CommitLog.Ordered (c : CommitLog) (layout : List (List StoredBatch)) : Prop where
  files : c.segments.map Segment.logFile = layout.map bytesOf
  increasing : layout.flatten.Pairwise fun f g => f.base < g.base
  separate : (c.segments.zip layout).Pairwise fun a b => ∀ f ∈ a.2, (f.base : Int) < b.1.baseOffset

theorem walkSegments_batches (fromOffset : Int) {segments : List Segment} {layout : List (List StoredBatch)}
    (files : segments.map Segment.logFile = layout.map bytesOf) (st : σ) :
    segments.foldlM (fun st s => s.walkBatchHeaders fromOffset fn st) st =
      ((layout.flatten.filter (StoredBatch.reaches fromOffset)).foldlM
        (fun st f => fn st f.header) st).mapError some := by
  induction segments generalizing layout st with
  | nil =>
    obtain rfl := List.map_eq_nil_iff.mp files.symm
    rfl
  | cons s segments ih =>
    obtain ⟨fs, layout, rfl⟩ := List.exists_cons_of_ne_nil (show layout ≠ [] by rintro rfl; cases files)
    obtain ⟨file, files⟩ := List.cons.inj files
    have walked := walkHeaders_batches fn fromOffset torn_nil fs st
    rw [List.append_nil] at walked
    rw [List.foldlM_cons, Segment.walkBatchHeaders, file, walked, List.flatten_cons, List.filter_append,
      List.foldlM_append]
    cases (fs.filter (StoredBatch.reaches fromOffset)).foldlM (fun st f => fn st f.header) st with
    | error e => rfl
    | ok st' => exact ih files st'

theorem walkStart_below (c : CommitLog) (fromOffset : Int) : c.walkStart fromOffset = 0 ∨
    ∃ s, c.segments[c.walkStart fromOffset]? = some s ∧ s.baseOffset ≤ fromOffset := by
  unfold CommitLog.walkStart
  cases found : (List.range c.segments.length).reverse.find? fun i =>
      decide ((c.segments.getD i c.activeSegment).baseOffset ≤ fromOffset) with
  | none => exact .inl rfl
  | some k =>
    have inside : k < c.segments.length := by
      simpa using List.mem_of_find?_eq_some found
    have below := List.find?_some found
    rw [decide_eq_true_eq, List.getD_eq_getElem?_getD, List.getElem?_eq_getElem inside] at below
    exact .inr ⟨_, List.getElem?_eq_getElem inside, below⟩

theorem walkStart_skips {c : CommitLog} {layout : List (List StoredBatch)} (ordered : c.Ordered layout)
    (fromOffset : Int) :
    ∀ f ∈ (layout.take (c.walkStart fromOffset)).flatten, f.reaches fromOffset = false := by
  intro f member
  obtain ⟨fs, early, inside⟩ := List.mem_flatten.mp member
  obtain ⟨i, before, rfl⟩ := List.mem_take_iff_getElem.mp early
  rcases walkStart_below c fromOffset with zero | ⟨s, start, below⟩
  · omega
  · have size : c.segments.length = layout.length := by
      have lengths := congrArg List.length ordered.files
      rwa [List.length_map, List.length_map] at lengths
    obtain ⟨there, rfl⟩ := List.getElem?_eq_some_iff.mp start
    have later := List.pairwise_iff_getElem.mp ordered.separate i (c.walkStart fromOffset)
      (by rw [List.length_zip]; omega)
      (by rw [List.length_zip]; omega) (by omega)
    rw [List.getElem_zip, List.getElem_zip] at later
    have lower := later f inside
    dsimp only at lower
    exact decide_eq_false (by omega)

theorem walkBatchHeadersFrom_batches {c : CommitLog} {layout : List (List StoredBatch)} (ordered : c.Ordered layout)
    (fromOffset : Int) (st : σ) : c.walkBatchHeadersFrom fromOffset fn st =
      ((layout.flatten.filter (StoredBatch.reaches fromOffset)).foldlM
        (fun st f => fn st f.header) st).mapError some := by
  have files : (c.segments.drop (c.walkStart fromOffset)).map Segment.logFile =
      (layout.drop (c.walkStart fromOffset)).map bytesOf := by
    rw [List.map_drop, List.map_drop, ordered.files]
  have whole : layout.flatten.filter (StoredBatch.reaches fromOffset) =
      (layout.drop (c.walkStart fromOffset)).flatten.filter (StoredBatch.reaches fromOffset) := by
    have none := List.filter_eq_nil_iff.mpr fun f member =>
      Bool.eq_false_iff.mp (walkStart_skips ordered fromOffset f member)
    rw [← List.take_append_drop (c.walkStart fromOffset) layout, List.flatten_append, List.filter_append, none,
      List.nil_append, List.take_append_drop]
  unfold CommitLog.walkBatchHeadersFrom
  rw [walkSegments_batches fn fromOffset files, whole]

end Walk

theorem linked_ordered {b e : Nat} {ss : List Segment} {layout : List (List StoredBatch)}
    (linked : Linked b ss layout e) :
    ss.map Segment.logFile = layout.map bytesOf ∧
      (ss.zip layout).Pairwise fun a b => ∀ f ∈ a.2, (f.base : Int) < b.1.baseOffset := by
  induction linked with
  | active holds chain => exact ⟨by simp [holds.file], List.pairwise_singleton _ _⟩
  | sealed holds nonempty chain rest ih =>
    refine ⟨by rw [List.map_cons, List.map_cons, holds.file, ih.1], List.Pairwise.cons ?_ ih.2⟩
    intro later member f inside
    have low := (linked_bounds rest).2 later.1 (List.of_mem_zip member).1
    have high := (chained_mem chain inside).2
    have positive := f.positive
    omega

theorem CommitLog.Holds.ordered {c : CommitLog} {layout : List (List StoredBatch)} {next : Nat}
    (holds : c.Holds layout next) : c.Ordered layout where
  files := (linked_ordered holds.linked).1
  increasing := (chained_pairwise (linked_content holds.linked).2).imp fun {f _} before => by
    have positive := f.positive
    omega
  separate := (linked_ordered holds.linked).2

/-- In a log whose batches lie in order, the callback gets the headers of all batches from the offset on, in order and
up to its first error. The walk of a segment file ends whatever is in it. -/
theorem walkBatchHeadersFrom_exact {σ ε : Type} (c : CommitLog) (fromOffset : Int) (fn : σ → BatchHeader → Except ε σ)
    (st : σ) :
    (∀ layout, c.Ordered layout →
      c.walkBatchHeadersFrom fromOffset fn st =
          ((layout.flatten.filter (StoredBatch.reaches fromOffset)).foldlM
            (fun st f => fn st f.header) st).mapError some ∧
        ((layout.flatten.filter (StoredBatch.reaches fromOffset)).Pairwise fun f g => f.base < g.base) ∧
        ∀ f ∈ layout.flatten, ∃ batch count, decodeHeader.run.run f.data = (.ok (batch, count), f.data.drop 61) ∧
          f.header = .ofBatch batch) ∧
    ∀ s : Segment, ∃ r, s.WalkEnds fn fromOffset st r ∧ s.walkBatchHeaders fromOffset fn st = r := by
  refine ⟨fun layout ordered => ⟨walkBatchHeadersFrom_batches fn ordered fromOffset st, ?_, ?_⟩, ?_⟩
  · exact ordered.increasing.sublist List.filter_sublist
  · exact fun f _ => f.header_decoded
  · exact fun s => walkBatchHeaders_ends fn s fromOffset st

/-- Three batches in two segments, walked from the second one on by a callback that fails at the third. -/
theorem walkBatchHeadersFrom_rolled :
    let log := ((newLogSession ⟨100, 4096⟩).calls [.append oneRecord, .append oneRecord, .append oneRecord]).log
    let fn (seen : List Int) (h : BatchHeader) : Except (List Int) (List Int) :=
      if h.baseOffset = 2 then .error (seen ++ [2]) else .ok (seen ++ [h.baseOffset])
    ∃ layout, log.Ordered layout ∧ layout.length = 2 ∧ log.walkBatchHeadersFrom 1 fn [] = .error (some [1, 2]) := by
  intro log fn
  obtain ⟨layout, holds, flat, _⟩ := calls_hold [.append oneRecord, .append oneRecord, .append oneRecord]
    (s := newLogSession ⟨100, 4096⟩) (newCommitLog_holds (by decide)) (by decide)
  obtain ⟨walked, _⟩ := (walkBatchHeadersFrom_exact log 1 fn []).1 layout holds.ordered
  refine ⟨layout, holds.ordered, ?_, ?_⟩
  · rw [← linked_length holds.linked]
    decide +kernel
  · rw [walked, flat]
    decide +kernel

end KafGo.Storage
