import KafGo.Storage.Region
import KafGo.Storage.Headers
import KafGo.Storage.Clip

/-!
# Logs with a torn tail

A crash in the middle of a write leaves part of a batch at the end of the active file. Opening the directory
again does not cut these bytes off. A log with torn bytes is compared with the log that has none of them: as
long as nothing is written behind them, both answer alike.
-/

namespace KafGo.Storage
open Lib

/-- The segment is `whole` with torn bytes at the end of its file. -/
structure Segment.Trails (s whole : Segment) : Prop where
  base : s.baseOffset = whole.baseOffset
  index : s.offsetIndex = whole.offsetIndex
  file : ∃ tail, Torn tail ∧ s.logFile = whole.logFile ++ tail

structure CommitLog.Trails (c whole : CommitLog) : Prop where
  config : c.config = whole.config
  closed : c.isClosed = whole.isClosed
  next : c.nextOffset = whole.nextOffset
  sealed : List.Forall₂ Segment.Trails c.sealedSegments whole.sealedSegments
  active : c.activeSegment.Trails whole.activeSegment

variable {c whole : CommitLog} {s : Segment} {layout : List (List StoredBatch)} {next n : Nat}

theorem CommitLog.Trails.segments (trails : c.Trails whole) :
    List.Forall₂ Segment.Trails c.segments whole.segments :=
  List.rel_append trails.sealed (.cons trails.active .nil)

theorem Segment.trails_refl (s : Segment) : s.Trails s := ⟨rfl, rfl, [], torn_nil, (List.append_nil _).symm⟩

theorem segments_trails_refl (segments : List Segment) : List.Forall₂ Segment.Trails segments segments := by
  induction segments with
  | nil => exact .nil
  | cons s segments ih => exact .cons s.trails_refl ih

theorem CommitLog.trails_refl (c : CommitLog) : c.Trails c :=
  ⟨rfl, rfl, rfl, segments_trails_refl _, Segment.trails_refl _⟩

theorem trails_get {ss whole : List Segment} (trails : List.Forall₂ Segment.Trails ss whole) {i : Nat}
    (found : ss[i]? = some s) : ∃ s', whole[i]? = some s' ∧ s.Trails s' := by
  induction trails generalizing i with
  | nil => simp at found
  | cons first rest ih =>
    cases i with
    | zero =>
      obtain rfl := Option.some.inj found
      exact ⟨_, rfl, first⟩
    | succ i => exact ih found

theorem trails_bases {ss whole : List Segment} (trails : List.Forall₂ Segment.Trails ss whole) :
    ss.map Segment.baseOffset = whole.map Segment.baseOffset := by
  induction trails with
  | nil => rfl
  | cons first rest ih => rw [List.map_cons, List.map_cons, first.base, ih]

theorem nextOffset_trails {whole : Segment} {base e : Nat} {fs : List StoredBatch} (trails : s.Trails whole)
    (holds : whole.Holds base fs) (chain : Chained base fs e) : s.nextOffset = e := by
  obtain ⟨tail, torn, file⟩ := trails.file
  exact nextOffset_of_file (trails.base.trans holds.based) (by rw [file, holds.file]) chain (torn_incomplete torn)

section Torn

variable {pre rest : List StoredBatch} {tail : Bytes} {maxBytes : Int}

/-- With a budget for the whole file all the batches are added up, and the loop goes on behind them. -/
theorem accumulate_crosses (file : s.logFile = bytesOf (pre ++ rest) ++ tail) (nonempty : rest ≠ [])
    (large : (s.logFile.length : Int) ≤ maxBytes) :
    ∃ fuel, s.accumulate (bytesOf pre).length maxBytes = walk .diverges headerSizeUpToMagic s.logFile.length
      (accumulateTurn s.logFile maxBytes) (fuel + 2) (bytesOf (pre ++ rest)).length (bytesOf rest).length := by
  have positive : rest.length < (bytesOf rest).length := by
    obtain ⟨f, others, rfl⟩ := List.exists_cons_of_ne_nil nonempty
    have long := f.long
    have bound := length_le_bytesOf others
    simp only [bytesOf_cons, List.length_append, List.length_cons]
    omega
  have total : s.logFile.length = (bytesOf pre).length + (bytesOf rest).length + tail.length := by
    rw [file, List.length_append, bytesOf_append, List.length_append]
  obtain ⟨fuel, fuelEq⟩ : ∃ fuel, s.fuel = fuel + 2 + rest.length :=
    ⟨s.fuel - 2 - rest.length, by unfold Segment.fuel; omega⟩
  obtain ⟨acc, sum, walked⟩ := walk_cross LogError.diverges headerSizeUpToMagic s.logFile.length
    (bytesOf pre).length (accumulateTurn s.logFile maxBytes) (fuel + 2) 0 StoredBatch.length
    (fun crossed acc => acc = ((bytesOf crossed).length : Int)) rest rfl (by
      intro crossed f after acc inner sum
      have whole : pre ++ rest = (pre ++ crossed) ++ f :: after := by rw [inner, List.append_assoc]
      have fitting : acc + f.length ≤ maxBytes := by
        have parts : (bytesOf rest).length = (bytesOf crossed).length + f.length + (bytesOf after).length := by
          rw [inner, bytesOf_append, bytesOf_cons, List.length_append, List.length_append]
          unfold StoredBatch.length
          omega
        omega
      rw [bytesOf_position, file]
      refine ⟨batch_room tail whole, acc + f.length, ?_, ?_⟩
      · rw [accumulateTurn_batch tail whole (by omega) acc, if_pos fitting]
      · rw [sum]
        simp [StoredBatch.length])
  refine ⟨fuel, ?_⟩
  unfold Segment.accumulate
  rw [fuelEq, walked, bytesOf_position, sum]

/-- The region takes all the batches from its start on. It may also count in the declared length of the torn
batch, of which the file only has the torn bytes. -/
theorem accumulate_torn (file : s.logFile = bytesOf (pre ++ rest) ++ tail) (torn : Torn tail) (nonempty : rest ≠ [])
    (large : (s.logFile.length : Int) ≤ maxBytes) :
    ∃ (size : Nat) (part : Bytes), s.accumulate (bytesOf pre).length maxBytes = .ok (size : Int) ∧ 0 < size ∧
      Torn part ∧ slice s.logFile (bytesOf pre).length size = bytesOf rest ++ part := by
  have positive : 0 < (bytesOf rest).length :=
    Nat.lt_of_lt_of_le (List.length_pos_of_ne_nil nonempty) (length_le_bytesOf rest)
  have behind : ∀ size, slice s.logFile (bytesOf pre).length ((bytesOf rest).length + size) =
      bytesOf rest ++ tail.take size := by
    intro size
    unfold slice
    rw [file, bytesOf_append, List.append_assoc, List.drop_left, List.take_length_add_append]
  have only : slice s.logFile (bytesOf pre).length (bytesOf rest).length = bytesOf rest ++ [] := by
    have exactly := behind 0
    rwa [List.take_zero, Nat.add_zero] at exactly
  obtain ⟨fuel, start⟩ := accumulate_crosses file nonempty large
  rw [file, bytesOf_append] at large
  simp only [List.length_append] at large
  rw [start, file]
  by_cases room : ((bytesOf (pre ++ rest)).length : Int) + headerSizeUpToMagic ≤
      (bytesOf (pre ++ rest) ++ tail).length
  · obtain ⟨buf, read⟩ : ∃ buf, readAt (bytesOf (pre ++ rest) ++ tail) (bytesOf (pre ++ rest)).length
        headerSizeUpToMagic = some buf := ⟨_, readAt_ok (by exact_mod_cast room)⟩
    have beyond := torn_declared torn (by decide) read
    obtain ⟨declared, same⟩ : ∃ n : Nat, 12 + int32At buf offsetBatchLength = n :=
      ⟨(12 + int32At buf offsetBatchLength).toNat, by omega⟩
    have turn : accumulateTurn (bytesOf (pre ++ rest) ++ tail) maxBytes (bytesOf (pre ++ rest)).length
        (bytesOf rest).length = if ((bytesOf rest).length : Int) + declared ≤ maxBytes then
          .next declared ((bytesOf rest).length + declared) else .stop (bytesOf rest).length := by
      unfold accumulateTurn readBatchMeta17
      rw [read]
      dsimp only
      rw [same]
      split_ifs <;> first | rfl | omega
    rw [same, List.length_append] at beyond
    split at turn
    · refine ⟨(bytesOf rest).length + declared, tail, ?_, by omega, torn, ?_⟩
      · rw [walk_next room turn, walk_exit (by rw [List.length_append]; simp only [headerSizeUpToMagic]; omega)]
        rfl
      · rw [← file, behind, List.take_of_length_le (by omega)]
    · exact ⟨_, [], walk_stop room turn, by omega, torn_nil, file ▸ only⟩
  · exact ⟨_, [], walk_exit (by omega), by omega, torn_nil, file ▸ only⟩

end Torn

/-! ### Reading batches back -/

def CommitLog.headersFrom (c : CommitLog) (fetchOffset maxBytes : Int) : Except (Option Unit) (List BatchHeader) :=
  match c.findRecords fetchOffset maxBytes with
  | .ok (some region) => walkHeaders region.bytes fetchOffset (fun hs h => .ok (hs ++ [h])) []
  | _ => .error none

/-- The positions and relative offsets of the segment fit the 32 bits of an index entry, if it has any. -/
def Segment.IndexFits (s : Segment) (fs : List StoredBatch) : Prop :=
  s.offsetIndex.entryCount = 0 ∨
    s.logFile.length < 2 ^ 32 ∧ ∀ h ∈ fs, (h.base : Int) < s.baseOffset + 2 ^ 32

theorem collect_headers {ε : Type} (fs : List StoredBatch) (hs : List BatchHeader) :
    fs.foldlM (fun hs f => (.ok (hs ++ [f.header]) : Except ε (List BatchHeader))) hs =
      .ok (hs ++ fs.map StoredBatch.header) := by
  induction fs generalizing hs with
  | nil => rw [List.map_nil, List.append_nil]; rfl
  | cons f fs ih =>
    rw [List.foldlM_cons]
    change List.foldlM _ (hs ++ [f.header]) fs = _
    rw [ih, List.map_cons, List.append_assoc, List.singleton_append]

section Found

variable {c whole : CommitLog} {layout : List (List StoredBatch)} {i base next : Nat} {s s' : Segment}
  {pre post : List StoredBatch} {g : StoredBatch}

theorem lookup_trails (located : Located whole.segments layout g.base i s' base pre g post) (trails : s.Trails s')
    (fits : s.IndexFits (pre ++ g :: post)) :
    ∃ n ≤ pre.length, s.offsetIndex.lookup g.base = (bytesOf (pre.take n)).length := by
  rcases fits with none | ⟨small, span⟩
  · rcases s.offsetIndex.lookup_entry g.base with zero | ⟨k, below, _⟩
    · exact ⟨0, Nat.zero_le _, by rw [zero]; rfl⟩
    · omega
  · obtain ⟨tail, _, file⟩ := trails.file
    have shorter : s'.logFile.length < 2 ^ 32 := by
      rw [file, List.length_append] at small
      omega
    have near : ∀ h ∈ pre ++ g :: post, h.base < base + 2 ^ 32 := by
      intro h member
      have bound := span h member
      rw [trails.base, located.holds.based] at bound
      omega
    obtain ⟨n, reach, aim, _⟩ := lookup_marked located shorter near
    refine ⟨n, reach, ?_⟩
    rw [trails.index, aim, List.take_append_of_le_length reach]

theorem findStart_trails (located : Located whole.segments layout g.base i s' base pre g post) (trails : s.Trails s')
    (fits : s.IndexFits (pre ++ g :: post)) :
    ∃ p m st, pre = p ++ m ∧ s.findStart g.base = .ok st ∧ st.startPos = (bytesOf p).length := by
  obtain ⟨tail, torn, file⟩ := trails.file
  rw [located.holds.file] at file
  obtain ⟨n, reach, aim⟩ := lookup_trails located trails fits
  obtain ⟨p, m, st, split, found, start, _⟩ :=
    findStart_before file aim (located_before located) located.high
  exact ⟨p, m, st, split, found, start⟩

/-- Each batch of a log is read back with all the later ones of its segment, torn bytes or not. -/
theorem headersFrom_trails (trails : c.Trails whole) (holds : whole.Holds layout next) {maxBytes : Int}
    (found : c.segments[i]? = some s) (batches : layout[i]? = some (pre ++ g :: post))
    (fits : s.IndexFits (pre ++ g :: post)) (large : (s.logFile.length : Int) ≤ maxBytes) :
    c.headersFrom g.base maxBytes = .ok ((g :: post).map StoredBatch.header) := by
  have positive := g.positive
  obtain ⟨_, inside, s', base, located⟩ := linked_at holds.linked batches (Nat.le_refl _) (by omega)
  have behind : s.Trails s' := by
    obtain ⟨other, there, behind⟩ := trails_get trails.segments found
    rw [located.found] at there
    obtain rfl := Option.some.inj there
    exact behind
  obtain ⟨tail, torn, file⟩ := behind.file
  obtain ⟨p, m, st, split, scanned, start⟩ := findStart_trails located behind fits
  rw [located.holds.file, split, List.append_assoc] at file
  obtain ⟨size, part, accumulated, some, tornPart, bytes⟩ := accumulate_torn file torn (by simp) large
  have order : ∀ (j : Nat) (other : Segment), c.segments[j]? = Option.some other →
      (other.baseOffset ≤ (g.base : Int) ↔ j < i + 1) := by
    intro j other here
    obtain ⟨other', there, same⟩ := trails_get trails.segments here
    rw [same.base]
    exact located.order j other' there
  have region := findRawRegion_start scanned start accumulated (by omega)
  have upper := holds.next
  have answer := findRecords_segment (trails.closed.trans holds.opened) (by rw [trails.next]; omega) found order region
  -- The walk skips the batch before `g` that the region may start with.
  have kept : (m ++ g :: post).filter (StoredBatch.reaches g.base) = g :: post := by
    rw [List.filter_append, List.filter_eq_nil_iff.mpr, List.nil_append, List.filter_eq_self]
    · intro h member
      rcases List.mem_cons.mp member with rfl | later
      · exact decide_eq_true (Int.le_refl _)
      · have above := located_after located h later
        exact decide_eq_true (by omega)
    · intro h member
      have before := located_before located h (by rw [split]; simp [member])
      have counted := h.positive
      simp only [StoredBatch.reaches, decide_eq_true_eq]
      omega
  unfold CommitLog.headersFrom
  rw [answer]
  dsimp only [RecordsRegion.bytes]
  rw [Int.toNat_natCast, Int.toNat_natCast, bytes, walkHeaders_batches _ _ tornPart, kept, collect_headers]
  rfl

end Found

theorem newSegment_trails {config : CommitLogConfig} {whole : Segment} (view : Segment → SegmentFiles)
    (base : ∀ s, (view s).baseOffset = s.baseOffset) (bytes : ∀ s, (view s).log = s.logFile)
    (index : ∀ s s' : Segment, s.offsetIndex = s'.offsetIndex → (view s).index = (view s').index)
    (trails : s.Trails whole) : (newSegment config (view s)).Trails (newSegment config (view whole)) where
  base := by
    change (view s).baseOffset = (view whole).baseOffset
    rw [base, base, trails.base]
  index := by
    change newOffsetIndex (view s).index (view s).baseOffset = newOffsetIndex (view whole).index (view whole).baseOffset
    rw [base, base, trails.base, index s whole trails.index]
  file := by
    obtain ⟨tail, torn, file⟩ := trails.file
    refine ⟨tail, torn, ?_⟩
    change (view s).log = (view whole).log ++ tail
    rw [bytes, bytes, file]

theorem reopen_trails (trails : c.Trails whole) (holds : whole.Holds layout next) (config : CommitLogConfig)
    (view : Segment → SegmentFiles) (base : ∀ s, (view s).baseOffset = s.baseOffset)
    (bytes : ∀ s, (view s).log = s.logFile)
    (index : ∀ s s' : Segment, s.offsetIndex = s'.offsetIndex → (view s).index = (view s').index) :
    (newCommitLog config (c.segments.map view)).Trails (newCommitLog config (whole.segments.map view)) := by
  have sorted := bases_sorted holds
  have viewed := bases_viewed view base sorted
  rw [← trails_bases trails.segments] at sorted
  have viewed' := bases_viewed view base sorted
  rw [CommitLog.segments_map] at viewed viewed'
  rw [c.segments_map, whole.segments_map, newCommitLog_sorted viewed, newCommitLog_sorted viewed']
  have opened := fun {s s' : Segment} => @newSegment_trails s config s' view base bytes index
  have last := opened trails.active
  refine ⟨rfl, rfl, ?_, ?_, last⟩
  · obtain ⟨_, fs, m, _, held, chain, _⟩ := linked_last holds.linked
    have again : (newSegment config (view whole.activeSegment)).baseOffset = m := (base _).trans held.based
    have file : (newSegment config (view whole.activeSegment)).logFile = bytesOf fs ++ [] := by
      rw [List.append_nil]
      exact (bytes _).trans held.file
    obtain ⟨tail, torn, behind⟩ := last.file
    rw [file, List.append_nil] at behind
    dsimp only
    rw [nextOffset_of_file again file chain incomplete_nil,
      nextOffset_of_file (last.base.trans again) behind chain (torn_incomplete torn)]
  · rw [List.map_map, List.map_map, List.forall₂_map_left_iff, List.forall₂_map_right_iff]
    exact trails.sealed.imp fun _ _ behind => opened behind

def CommitLog.appendAll (c : CommitLog) (bs : List Batch) : CommitLog :=
  bs.foldl (fun c b => (c.appendRaw b.data b.count).1) c

def storedFrom : (next : Nat) → (bs : List Batch) → next + (bs.map Batch.count).sum < 2 ^ 63 → List StoredBatch
  | _, [], _ => []
  | next, b :: bs, fits =>
    b.storedAt next (by simp only [List.map_cons, List.sum_cons] at fits; omega) ::
      storedFrom (next + b.count) bs (by simp only [List.map_cons, List.sum_cons] at fits; omega)

theorem roll_trails (trails : c.Trails whole) (next : c.activeSegment.nextOffset = whole.activeSegment.nextOffset) :
    c.roll.Trails whole.roll ∧ c.roll.activeSegment = whole.roll.activeSegment := by
  have same : c.roll.activeSegment = whole.roll.activeSegment := by
    change newSegment c.config (freshFiles _) = newSegment whole.config (freshFiles _)
    rw [trails.config, next]
  refine ⟨⟨trails.config, trails.closed, trails.next, trails.segments, ?_⟩, same⟩
  rw [same]
  exact whole.roll.activeSegment.trails_refl

theorem append_trails (trails : c.Trails whole) (same : c.activeSegment = whole.activeSegment) (data : Bytes)
    (recordCount : Int) :
    (c.appendRaw data recordCount).1.Trails (whole.appendRaw data recordCount).1 ∧
      (c.appendRaw data recordCount).1.activeSegment = (whole.appendRaw data recordCount).1.activeSegment := by
  have rolled : (if c.activeSegment.isFull then c.roll else c).Trails
        (if whole.activeSegment.isFull then whole.roll else whole) ∧
      (if c.activeSegment.isFull then c.roll else c).activeSegment =
        (if whole.activeSegment.isFull then whole.roll else whole).activeSegment := by
    rw [same]
    split
    · exact roll_trails trails (by rw [same])
    · exact ⟨trails, same⟩
  unfold CommitLog.appendRaw
  rw [trails.closed]
  split
  · exact ⟨trails, same⟩
  · dsimp only
    generalize (if c.activeSegment.isFull then c.roll else c) = c₁ at rolled
    generalize (if whole.activeSegment.isFull then whole.roll else whole) = whole₁ at rolled
    obtain ⟨behind, active⟩ := rolled
    rw [active, behind.next]
    split
    · exact ⟨⟨behind.config, behind.closed, rfl, behind.sealed, Segment.trails_refl _⟩, rfl⟩
    · exact ⟨⟨behind.config, behind.closed, rfl, behind.sealed, Segment.trails_refl _⟩, rfl⟩

theorem appendAll_trails (bs : List Batch) (trails : c.Trails whole) (same : c.activeSegment = whole.activeSegment) :
    (c.appendAll bs).Trails (whole.appendAll bs) := by
  induction bs generalizing c whole with
  | nil => exact trails
  | cons b bs ih =>
    obtain ⟨behind, active⟩ := append_trails trails same b.data b.count
    exact ih behind active

theorem appendAll_holds (bs : List Batch) (holds : c.Holds layout next)
    (fits : next + (bs.map Batch.count).sum < 2 ^ 63) :
    ∃ layout', (c.appendAll bs).Holds layout' (next + (bs.map Batch.count).sum) ∧
      layout'.flatten = layout.flatten ++ storedFrom next bs fits := by
  induction bs generalizing c layout next with
  | nil => exact ⟨layout, holds, by simp [storedFrom]⟩
  | cons b bs ih =>
    have total : next + ((b :: bs).map Batch.count).sum = next + b.count + (bs.map Batch.count).sum := by
      rw [List.map_cons, List.sum_cons, Nat.add_assoc]
    obtain ⟨c', appended, held, _⟩ := append_batch_holds holds b (by omega)
    obtain ⟨layout', held', flat⟩ := ih held (by omega)
    refine ⟨layout', ?_, ?_⟩
    · rw [total]
      change CommitLog.Holds (CommitLog.appendAll (c.appendRaw b.data b.count).1 bs) _ _
      rw [appended]
      exact held'
    · rw [flat, flatten_placed, List.append_assoc]
      rfl

theorem appendRaw_full (opened : c.isClosed = false) (full : c.activeSegment.isFull = true)
    (positive : 0 < c.config.segmentMaxBytes) (data : Bytes) (recordCount : Int) :
    c.appendRaw data recordCount = c.roll.appendRaw data recordCount := by
  have room : ¬ c.roll.activeSegment.isFull = true := by
    change ¬ decide (c.config.segmentMaxBytes ≤ ((([] : Bytes).length : Nat) : Int)) = true
    simpa using positive
  unfold CommitLog.appendRaw
  rw [if_neg (by rw [opened]; decide), if_neg (show ¬ c.roll.isClosed = true by
    rw [show c.roll.isClosed = c.isClosed from rfl, opened]; decide), if_pos full, if_neg room]

/-! ### The crash -/

theorem appendTorn_trails (offset : c.nextOffset = next) (b : Batch) (fits : next + b.count < 2 ^ 63)
    (part : n < b.data.length) :
    (c.appendTorn b.data n).Trails (if c.activeSegment.isFull then c.roll else c) := by
  have same : (if c.activeSegment.isFull then c.roll else c).nextOffset = next := c.roll_nextOffset.trans offset
  have long := b.long
  have torn : Torn ((putBaseOffset next b.data).take n) := by
    apply torn_take (b.storedAt next fits)
    change n < (putBaseOffset next b.data).length
    rwa [length_putBaseOffset (by omega)]
  refine ⟨rfl, rfl, rfl, segments_trails_refl _, rfl, rfl, _, torn, ?_⟩
  change _ ++ (putBaseOffset (if c.activeSegment.isFull then c.roll else c).nextOffset b.data).take n = _
  rw [same]

theorem torn_reopens (holds : c.Holds layout next) (b : Batch) (fits : next + b.count < 2 ^ 63)
    (part : n < b.data.length) {config : CommitLogConfig} (positive : 0 < config.segmentMaxBytes) :
    ∃ whole layout', (newCommitLog config (c.appendTorn b.data n).files).Trails whole ∧ whole.Holds layout' next ∧
      layout'.flatten = layout.flatten := by
  obtain ⟨layout', rolled, flat⟩ := rolled_holds holds
  have torn := appendTorn_trails holds.next b fits part
  have trails := reopen_trails torn rolled config Segment.files (fun _ => rfl) (fun _ => rfl)
    (fun s s' same => congrArg OffsetIndex.file same)
  have whole := reopen_holds rolled positive Segment.files (fun _ => rfl) (fun _ => rfl)
    (fun s mapped => Or.inr mapped.1)
  exact ⟨_, layout', trails, whole, flat⟩

/-- The log has exactly the batches of `layout`, segment by segment: it ends at `next`, again after it was
closed or left as it is and opened again, and each batch is read back with the later ones of its segment. -/
structure CommitLog.ReadsBack (c : CommitLog) (layout : List (List StoredBatch)) (next : Nat) : Prop where
  segmented : c.segments.length = layout.length
  ends : c.nextOffset = next
  reopened : ∀ config : CommitLogConfig, 0 < config.segmentMaxBytes →
    (newCommitLog config c.close).nextOffset = next ∧ (newCommitLog config c.files).nextOffset = next
  found : ∀ (i : Nat) (s : Segment) (pre : List StoredBatch) (g : StoredBatch) (post : List StoredBatch)
    (maxBytes : Int), c.segments[i]? = some s → layout[i]? = some (pre ++ g :: post) →
    s.IndexFits (pre ++ g :: post) → (s.logFile.length : Int) ≤ maxBytes →
    c.headersFrom g.base maxBytes = .ok ((g :: post).map StoredBatch.header)

theorem trails_readsBack (trails : c.Trails whole) (holds : whole.Holds layout next) : c.ReadsBack layout next where
  segmented := trails.segments.length_eq.trans (linked_length holds.linked)
  ends := trails.next.trans holds.next
  reopened := by
    intro config positive
    constructor
    · have again := reopen_trails trails holds config Segment.close (fun _ => rfl) (fun _ => rfl)
        (fun s s' same => congrArg OffsetIndex.close same)
      have opened := reopen_holds holds positive Segment.close (fun _ => rfl) (fun _ => rfl)
        (fun s _ => close_whole s.offsetIndex)
      exact again.next.trans opened.next
    · have again := reopen_trails trails holds config Segment.files (fun _ => rfl) (fun _ => rfl)
        (fun s s' same => congrArg OffsetIndex.file same)
      have opened := reopen_holds holds positive Segment.files (fun _ => rfl) (fun _ => rfl)
        (fun s mapped => Or.inr mapped.1)
      exact again.next.trans opened.next
  found i s pre g post maxBytes found batches fits large :=
    headersFrom_trails trails holds found batches fits large

/-- After a crash inside the write of a batch the log opens with the end of its last complete batch as next
offset. If the next append finds the torn segment full, with at least one complete batch in it, or if there is
none, the complete batches and all the later ones are read back. -/
theorem torn_readsBack (built : Built c layout) (offset : c.nextOffset = next) (b : Batch)
    (fits : next + b.count < 2 ^ 63) (part : n < b.data.length) (config : CommitLogConfig)
    (positive : 0 < config.segmentMaxBytes) {c₁ : CommitLog}
    (opened : newCommitLog config (c.appendTorn b.data n).files = c₁) :
    c₁.nextOffset = next ∧
      ∀ (bs : List Batch) (room : next + (bs.map Batch.count).sum < 2 ^ 63),
        bs = [] ∨ c₁.activeSegment.isFull = true ∧ c₁.activeSegment.baseOffset < c₁.nextOffset →
        ∃ layout', layout'.flatten = layout.flatten ++ storedFrom next bs room ∧
          (c₁.appendAll bs).ReadsBack layout' (next + (bs.map Batch.count).sum) := by
  obtain ⟨next', holds⟩ := built_holds built
  obtain rfl : next = next' := Int.ofNat.inj (offset.symm.trans holds.next)
  obtain ⟨whole₁, layout₀, trails, whole, flat₀⟩ := torn_reopens holds b fits part positive
  rw [opened] at trails
  have offset₁ : c₁.nextOffset = next := trails.next.trans whole.next
  refine ⟨offset₁, ?_⟩
  intro bs room clear
  cases bs with
  | nil =>
    refine ⟨layout₀, by simpa [storedFrom] using flat₀, ?_⟩
    exact trails_readsBack trails whole
  | cons b' bs =>
    rcases clear with none | ⟨full, some⟩
    · cases none
    · -- The first append rolls, and the torn bytes stay behind in a sealed segment.
      have rolled : c₁.appendAll (b' :: bs) = c₁.roll.appendAll (b' :: bs) := by
        have first := appendRaw_full (trails.closed.trans whole.opened) full
          (by rw [trails.config]; exact whole.positive) b'.data b'.count
        change CommitLog.appendAll (c₁.appendRaw b'.data b'.count).1 bs = _
        rw [first]
        rfl
      have recomputed : c₁.activeSegment.nextOffset = whole₁.activeSegment.nextOffset := by
        obtain ⟨_, fs, m, _, held, chain, _⟩ := linked_last whole.linked
        rw [nextOffset_trails trails.active held chain, nextOffset_holds held chain]
      obtain ⟨behind, active⟩ := roll_trails trails recomputed
      have held := roll_nonempty_holds whole (by rw [← trails.active.base, ← trails.next]; exact some)
      obtain ⟨layout', held', flat⟩ := appendAll_holds (b' :: bs) held room
      refine ⟨layout', by rw [flat, List.flatten_append, flat₀]; simp, ?_⟩
      rw [rolled]
      exact trails_readsBack (appendAll_trails _ behind active) held'

def tornRecordLog (config : CommitLogConfig) (n : Nat) : CommitLog :=
  newCommitLog config (twoRecordLog.appendTorn oneRecord.data n).files

theorem torn_readsBack_rolled : ∃ layout', layout'.flatten =
      twoRecordLayout.flatten ++ storedFrom 2 [oneRecord] (by decide) ∧
    ((tornRecordLog ⟨100, 4096⟩ 20).appendAll [oneRecord]).ReadsBack layout' 3 := by
  have ends : twoRecordLog.nextOffset = (2 : Nat) := by decide +kernel
  have reopened : newCommitLog ⟨100, 4096⟩ (twoRecordLog.appendTorn oneRecord.data 20).files =
      tornRecordLog ⟨100, 4096⟩ 20 := rfl
  obtain ⟨_, later⟩ := torn_readsBack twoRecordLog_built ends oneRecord (by decide) (by decide) ⟨100, 4096⟩
    (by decide) reopened
  exact later [oneRecord] (by decide) (Or.inr (by decide +kernel))

/-- Five torn bytes and one more batch behind them in the same file: the walk misses the batch at offset 2,
and the next time the log is opened it continues at offset 1. -/
theorem torn_append_lost : Built twoRecordLog twoRecordLayout ∧ (tornRecordLog ⟨1000, 4096⟩ 5).nextOffset = 2 ∧
    ((tornRecordLog ⟨1000, 4096⟩ 5).appendAll [oneRecord]).nextOffset = 3 ∧
    (newCommitLog ⟨1000, 4096⟩ ((tornRecordLog ⟨1000, 4096⟩ 5).appendAll [oneRecord]).files).nextOffset = 1 ∧
    (((tornRecordLog ⟨1000, 4096⟩ 5).appendAll [oneRecord]).headersFrom 0 1000).toOption.map
      (List.map BatchHeader.baseOffset) = some [0, 1, 0] :=
  ⟨twoRecordLog_built, by decide +kernel, by decide +kernel, by decide +kernel, by decide +kernel⟩

end KafGo.Storage
