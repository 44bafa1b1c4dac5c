import KafGo.Storage.TornTail

/-!
# Contiguous offsets

Any sequence of appends, with the log closed and opened again in between as often as one likes. The end of the log
is computed in three ways: the counter in memory, `NextOffset` of the active segment when the log rolls, and the scan
when it is opened. All three agree, so the offsets have no gaps and the segments follow each other.
-/

namespace KafGo.Storage
open Lib

/-- A call of `AppendRaw`, or `Close` and `NewCommitLog` on the same directory, perhaps with another configuration. -/
inductive LogCall where
  | append (b : Batch)
  | reopen (config : CommitLogConfig) (positive : 0 < config.segmentMaxBytes)

structure LogSession where
  log : CommitLog
  returned : List (Except LogError Int)

def LogSession.call (s : LogSession) : LogCall → LogSession
  | .append b =>
    let (log, result) := s.log.appendRaw b.data b.count
    ⟨log, s.returned ++ [result]⟩
  | .reopen config _ => { s with log := newCommitLog config s.log.close }

def LogSession.calls (s : LogSession) (calls : List LogCall) : LogSession := calls.foldl LogSession.call s

def newLogSession (config : CommitLogConfig) : LogSession := ⟨newCommitLog config [], []⟩

def batchesOf : List LogCall → List Batch
  | [] => []
  | .append b :: calls => b :: batchesOf calls
  | .reopen _ _ :: calls => batchesOf calls

def recordsOf (calls : List LogCall) : Nat := ((batchesOf calls).map Batch.count).sum

variable {b e : Nat} {ss : List Segment} {layout : List (List StoredBatch)} {fs : List StoredBatch}

theorem linked_segment {i : Nat} {s : Segment} (linked : Linked b ss layout e) (found : ss[i]? = some s) :
    ∃ base m fs, layout[i]? = some fs ∧ s.Holds base fs ∧ Chained base fs m ∧
      ∀ s', ss[i + 1]? = some s' → fs ≠ [] ∧ s'.baseOffset = m := by
  induction linked generalizing i with
  | active holds chain =>
    cases i with
    | zero =>
      obtain rfl := Option.some.inj found
      exact ⟨_, _, _, rfl, holds, chain, by simp⟩
    | succ i => simp at found
  | sealed holds nonempty chain rest ih =>
    cases i with
    | zero =>
      obtain rfl := Option.some.inj found
      refine ⟨_, _, _, rfl, holds, chain, fun s' next => ⟨nonempty, ?_⟩⟩
      cases rest with
      | active later _ =>
        obtain rfl := Option.some.inj next
        exact later.based
      | sealed later _ _ _ =>
        obtain rfl := Option.some.inj next
        exact later.based
    | succ i => exact ih found

theorem linked_increasing (linked : Linked b ss layout e) : (ss.map Segment.baseOffset).Pairwise (· < ·) := by
  induction linked with
  | active holds chain => exact List.pairwise_singleton _ _
  | sealed holds nonempty chain rest ih =>
    refine List.Pairwise.cons (fun base member => ?_) ih
    obtain ⟨s, inside, rfl⟩ := List.mem_map.mp member
    have low := (linked_bounds rest).2 s inside
    have bound := chained_le chain
    have some := List.length_pos_of_ne_nil nonempty
    rw [holds.based]
    omega

theorem chained_head {f : StoredBatch} (chain : Chained b fs e) (first : fs.head? = some f) : f.base = b := by
  cases fs with
  | nil => cases first
  | cons g fs =>
    obtain rfl := Option.some.inj first
    exact chain.1

theorem chained_last {f : StoredBatch} (chain : Chained b fs e) (last : fs.getLast? = some f) :
    f.base + f.count = e := by
  obtain ⟨before, rfl⟩ := List.getLast?_eq_some_iff.mp last
  obtain ⟨m, _, here⟩ := chained_append.mp chain
  rw [here.1]
  exact here.2

/-- A segment file as it should be: the batches `fs`, the first at the base offset of the segment, and the last one
ending where the next segment starts. -/
structure Segment.Spans (s : Segment) (fs : List StoredBatch) (next : Option Segment) : Prop where
  file : s.logFile = bytesOf fs
  starts : ∀ f, fs.head? = some f → (f.base : Int) = s.baseOffset
  ends : ∀ s', next = some s' → ∃ f, fs.getLast? = some f ∧ (f.base : Int) + f.count = s'.baseOffset

theorem linked_spans {i : Nat} {s : Segment} (linked : Linked b ss layout e) (found : ss[i]? = some s)
    (batches : layout[i]? = some fs) :
    s.Spans fs ss[i + 1]? := by
  obtain ⟨base, m, fs', batches', holds, chain, next⟩ := linked_segment linked found
  obtain rfl : fs = fs' := Option.some.inj (batches.symm.trans batches')
  refine ⟨holds.file, fun f first => ?_, fun s' follows => ?_⟩
  · rw [holds.based, chained_head chain first]
  · obtain ⟨nonempty, start⟩ := next s' follows
    obtain ⟨before, f, rfl⟩ := List.eq_nil_or_concat' fs |>.resolve_left nonempty
    have last : (before ++ [f]).getLast? = some f := List.getLast?_concat
    have bound := chained_last chain last
    exact ⟨f, last, by rw [start, ← bound, Int.natCast_add]⟩

theorem calls_hold (calls : List LogCall) {s : LogSession} {next : Nat} (holds : s.log.Holds layout next)
    (fits : next + recordsOf calls < 2 ^ 63) :
    ∃ layout', (s.calls calls).log.Holds layout' (next + recordsOf calls) ∧
      layout'.flatten = layout.flatten ++ storedFrom next (batchesOf calls) fits ∧
      (s.calls calls).returned =
        s.returned ++ (storedFrom next (batchesOf calls) fits).map (fun f => .ok (f.base : Int)) := by
  induction calls generalizing s layout next with
  | nil => exact ⟨layout, holds, by simp [batchesOf, storedFrom], by simp [LogSession.calls, batchesOf, storedFrom]⟩
  | cons call calls ih =>
    cases call with
    | append b =>
      have total : next + recordsOf (.append b :: calls) = next + b.count + recordsOf calls := by
        simp only [recordsOf, batchesOf, List.map_cons, List.sum_cons, Nat.add_assoc]
      obtain ⟨log, appended, held, _⟩ := append_batch_holds holds b (by omega)
      have step : s.call (.append b) = ⟨log, s.returned ++ [.ok (next : Int)]⟩ := by
        simp only [LogSession.call, appended]
      obtain ⟨layout', held', flat, returned⟩ := @ih _ (s.call (.append b)) _ (by rw [step]; exact held) (by omega)
      refine ⟨layout', by rw [total]; exact held', ?_, ?_⟩
      · rw [flat, flatten_placed, List.append_assoc]
        rfl
      · change ((s.call (.append b)).calls calls).returned = _
        rw [returned, step, List.append_assoc]
        rfl
    | reopen config positive =>
      exact ih (reopen_holds holds positive Segment.close (fun _ => rfl) (fun _ => rfl)
        fun s _ => close_whole s.offsetIndex) fits

/-- In every sequence of appends of well-formed batches from an empty directory, with the log closed and opened again
any number of times in between, as long as the offsets fit an `int64`: the appends succeed with contiguous base
offsets from zero on; the segments hold exactly these batches, with increasing base offsets and each ending where the
next one starts; and the next offset in memory is the one that opening the directory computes, from the base offset
and the `LastOffsetDelta` of the last batch. -/
theorem offsets_contiguous (config : CommitLogConfig) (positive : 0 < config.segmentMaxBytes) (calls : List LogCall)
    (fits : recordsOf calls < 2 ^ 63) :
    let s := (newLogSession config).calls calls
    let stored := storedFrom 0 (batchesOf calls) ((Nat.zero_add _).trans_lt fits)
    s.returned = stored.map (fun f => .ok (f.base : Int)) ∧ Chained 0 stored (recordsOf calls) ∧
      (∃ layout : List (List StoredBatch), layout.flatten = stored ∧ layout.length = s.log.segments.length ∧
        (s.log.segments.map Segment.baseOffset).Pairwise (· < ·) ∧
        ∀ (i : Nat) (seg : Segment) (fs : List StoredBatch), s.log.segments[i]? = some seg → layout[i]? = some fs →
          seg.Spans fs s.log.segments[i + 1]?) ∧
      s.log.nextOffset = recordsOf calls ∧
      (∀ config' : CommitLogConfig, 0 < config'.segmentMaxBytes →
        (newCommitLog config' s.log.close).nextOffset = s.log.nextOffset) ∧
      ∀ last, stored.getLast? = some last →
        s.log.nextOffset = int64At last.data offsetBaseOffset + int32At last.data offsetLastOffsetDelta + 1 := by
  intro s stored
  obtain ⟨layout, holds, flat, returned⟩ := calls_hold calls (s := newLogSession config) (newCommitLog_holds positive)
    ((Nat.zero_add _).trans_lt fits)
  have content : layout.flatten = stored := flat
  have chain := (linked_content holds.linked).2
  rw [content, Nat.zero_add] at chain
  have next : s.log.nextOffset = recordsOf calls := by
    rw [holds.next, Nat.zero_add]
  refine ⟨returned, chain, ⟨layout, content, (linked_length holds.linked).symm, linked_increasing holds.linked,
    fun i seg fs found batches => linked_spans holds.linked found batches⟩, next, ?_, ?_⟩
  · intro config' positive'
    have opened := reopen_holds holds positive' Segment.close (fun _ => rfl) (fun _ => rfl)
      fun s _ => close_whole s.offsetIndex
    exact opened.next.trans holds.next.symm
  · intro last isLast
    have ends := chained_last chain isLast
    have one := last.positive
    have base := last.header_baseOffset (n := last.length) (by have := last.length_pos; omega)
    have delta := last.header_lastOffsetDelta (n := last.length) (by have := last.length_pos; omega)
    have whole : slice last.data 0 last.length = last.data := List.take_of_length_le (Nat.le_refl _)
    rw [whole] at base delta
    rw [next, base, delta]
    omega

/-- Three appends of which the third rolls, with the log opened again before it. -/
theorem offsets_contiguous_rolled :
    let s := (newLogSession ⟨100, 4096⟩).calls [.append oneRecord, .append oneRecord, .reopen ⟨100, 4096⟩ (by decide),
      .append oneRecord]
    s.log.segments.length = 2 ∧ s.log.nextOffset = 3 := by
  have contiguous := offsets_contiguous ⟨100, 4096⟩ (by decide)
    [.append oneRecord, .append oneRecord, .reopen ⟨100, 4096⟩ (by decide), .append oneRecord] (by decide)
  exact ⟨by decide +kernel, contiguous.2.2.2.1⟩

end KafGo.Storage
