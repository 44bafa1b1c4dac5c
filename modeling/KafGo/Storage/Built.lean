import KafGo.Storage.Layout

/-!
# Logs built from an empty directory

`Built` collects every log that appends, closing, crashing between appends and reopening can produce,
with the batches of each segment. `built_holds` shows that its segments hold exactly those batches.
-/

namespace KafGo.Storage
open Lib

/-- Segments that hold the batches of `layout`, with offsets from `b` up to `e`. Only the last one may
be empty. -/
inductive Linked : Nat → List Segment → List (List StoredBatch) → Nat → Prop where
  | active {b e : Nat} {s : Segment} {fs : List StoredBatch} (holds : s.Holds b fs) (chain : Chained b fs e) :
      Linked b [s] [fs] e
  | sealed {b m e : Nat} {s : Segment} {ss : List Segment} {fs : List StoredBatch}
      {layout : List (List StoredBatch)} (holds : s.Holds b fs) (nonempty : fs ≠ []) (chain : Chained b fs m)
      (rest : Linked m ss layout e) : Linked b (s :: ss) (fs :: layout) e

structure CommitLog.Holds (c : CommitLog) (layout : List (List StoredBatch)) (next : Nat) : Prop where
  opened : c.isClosed = false
  positive : 0 < c.config.segmentMaxBytes
  limit : c.activeSegment.maxBytes = c.config.segmentMaxBytes
  linked : Linked 0 c.segments layout next
  next : c.nextOffset = next

def extendLast : List (List StoredBatch) → List StoredBatch → List (List StoredBatch)
  | [], gs => [gs]
  | [fs], gs => [fs ++ gs]
  | fs :: rest, gs => fs :: extendLast rest gs

theorem extendLast_append (layout : List (List StoredBatch)) (fs gs : List StoredBatch) :
    extendLast (layout ++ [fs]) gs = layout ++ [fs ++ gs] := by
  induction layout with
  | nil => rfl
  | cons head rest ih =>
    cases rest with
    | nil => rfl
    | cons second rest => exact congrArg (head :: ·) ih

/-- Where an append puts its batches: in the active segment, or in a new one when that is full. -/
def placed (c : CommitLog) (layout : List (List StoredBatch)) (gs : List StoredBatch) : List (List StoredBatch) :=
  if c.activeSegment.isFull then layout ++ [gs] else extendLast layout gs

variable {b e next : Nat} {ss : List Segment} {layout : List (List StoredBatch)} {s : Segment} {c : CommitLog}
  {config : CommitLogConfig}

theorem linked_bounds (linked : Linked b ss layout e) : b ≤ e ∧ ∀ s ∈ ss, (b : Int) ≤ s.baseOffset := by
  induction linked with
  | active holds chain =>
    have bound := chained_le chain
    refine ⟨by omega, fun s member => ?_⟩
    rw [List.mem_singleton.mp member, holds.based]
  | sealed holds nonempty chain rest ih =>
    have bound := chained_le chain
    obtain ⟨le, later⟩ := ih
    refine ⟨by omega, fun s member => ?_⟩
    rcases List.mem_cons.mp member with rfl | member
    · rw [holds.based]
    · have base := later s member
      omega

theorem linked_length (linked : Linked b ss layout e) : ss.length = layout.length := by
  induction linked with
  | active holds chain => rfl
  | sealed holds nonempty chain rest ih => rw [List.length_cons, List.length_cons, ih]

theorem linked_sorted (linked : Linked b ss layout e) : ss.Pairwise (fun a b => a.baseOffset ≤ b.baseOffset) := by
  induction linked with
  | active holds chain => exact List.pairwise_singleton _ _
  | sealed holds nonempty chain rest ih =>
    refine List.Pairwise.cons (fun s member => ?_) ih
    have low := (linked_bounds rest).2 s member
    have bound := chained_le chain
    rw [holds.based]
    omega

theorem linked_map (view : Segment → Segment) (same : ∀ s base fs, s.Holds base fs → (view s).Holds base fs)
    (linked : Linked b ss layout e) :
    Linked b (ss.map view) layout e := by
  induction linked with
  | active holds chain => exact .active (same _ _ _ holds) chain
  | sealed holds nonempty chain rest ih => exact .sealed (same _ _ _ holds) nonempty chain ih

/-- The last segment can be exchanged, and a new one added behind it once it is not empty. -/
theorem linked_last (linked : Linked b (ss ++ [s]) layout e) :
    ∃ init fs m, layout = init ++ [fs] ∧ s.Holds m fs ∧ Chained m fs e ∧
      (∀ s' fs' e', s'.Holds m fs' → Chained m fs' e' → Linked b (ss ++ [s']) (init ++ [fs']) e') ∧
      (∀ s' fs' e', fs ≠ [] → s'.Holds e fs' → Chained e fs' e' →
        Linked b (ss ++ [s] ++ [s']) (layout ++ [fs']) e') := by
  induction ss generalizing b layout with
  | nil =>
    cases linked with
    | active holds chain =>
      exact ⟨[], _, b, rfl, holds, chain, fun s' fs' e' held chained => .active held chained,
        fun s' fs' e' nonempty held chained => .sealed holds nonempty chain (.active held chained)⟩
    | sealed holds nonempty chain rest => cases rest
  | cons first ss ih =>
    rw [List.cons_append] at linked
    cases hrest : ss ++ [s] with
    | nil => simp at hrest
    | cons second others =>
      rw [hrest] at linked
      cases linked with
      | sealed holds nonempty chain rest =>
        rw [← hrest] at rest
        obtain ⟨init, fs, m, split, held, chained, exchange, extend⟩ := ih rest
        refine ⟨_ :: init, fs, m, by rw [split]; rfl, held, chained, ?_, ?_⟩
        · intro s' fs' e' held' chained'
          exact .sealed holds nonempty chain (exchange s' fs' e' held' chained')
        · intro s' fs' e' nonempty' held' chained'
          exact .sealed holds nonempty chain (extend s' fs' e' nonempty' held' chained')

theorem oldestOffset_holds (holds : c.Holds layout next) : c.oldestOffset = 0 := by
  have linked := holds.linked
  unfold CommitLog.oldestOffset
  generalize c.segments = ss at linked
  cases linked with
  | active held chain => exact held.based
  | sealed held nonempty chain rest => exact held.based

theorem linked_content (linked : Linked b ss layout e) :
    ss.flatMap Segment.logFile = bytesOf layout.flatten ∧ Chained b layout.flatten e := by
  induction linked with
  | active holds chain => exact ⟨by simp [holds.file], by simpa using chain⟩
  | sealed holds nonempty chain rest ih =>
    obtain ⟨content, chained⟩ := ih
    refine ⟨?_, ?_⟩
    · rw [List.flatMap_cons, List.flatten_cons, bytesOf_append, holds.file, content]
    · rw [List.flatten_cons]
      exact chained_append.mpr ⟨_, chain, chained⟩

theorem flatten_extendLast (layout : List (List StoredBatch)) (gs : List StoredBatch) :
    (extendLast layout gs).flatten = layout.flatten ++ gs := by
  induction layout with
  | nil => simp [extendLast]
  | cons head rest ih =>
    cases rest with
    | nil => simp [extendLast]
    | cons second rest =>
      rw [show extendLast (head :: second :: rest) gs = head :: extendLast (second :: rest) gs from rfl,
        List.flatten_cons, ih, List.flatten_cons (l := head), List.append_assoc]

theorem flatten_placed (c : CommitLog) (layout : List (List StoredBatch)) (gs : List StoredBatch) :
    (placed c layout gs).flatten = layout.flatten ++ gs := by
  unfold placed
  split
  · simp
  · exact flatten_extendLast layout gs

theorem nextOffset_holds {base : Nat} {fs : List StoredBatch} (holds : s.Holds base fs) (chain : Chained base fs e) :
    s.nextOffset = e :=
  nextOffset_of_file holds.based (by rw [holds.file, List.append_nil]) chain incomplete_nil

/-- A full segment has bytes, so a roll never starts a segment where the active one starts. -/
theorem full_nonempty {base : Nat} {fs : List StoredBatch} (holds : s.Holds base fs) (positive : 0 < s.maxBytes)
    (full : s.isFull = true) : fs ≠ [] := by
  rintro rfl
  have size := holds.size
  rw [holds.file] at size
  simp only [Segment.isFull, decide_eq_true_eq, size, bytesOf_nil, List.length_nil] at full
  omega

theorem roll_nonempty_holds (holds : c.Holds layout next) (nonempty : c.activeSegment.baseOffset < c.nextOffset) :
    c.roll.Holds (layout ++ [[]]) next := by
  obtain ⟨init, fs, m, split, held, chain, _, extend⟩ := linked_last holds.linked
  have recomputed : c.activeSegment.nextOffset = next := nextOffset_holds held chain
  have some : fs ≠ [] := by
    rintro rfl
    have same : m = next := chain
    rw [held.based, holds.next] at nonempty
    omega
  refine ⟨holds.opened, holds.positive, rfl, ?_, holds.next⟩
  have fresh : (newSegment c.config (freshFiles next)).Holds next [] :=
    newSegment_holds rfl rfl (Or.inl rfl)
  have added := extend _ [] next some fresh rfl
  simpa only [CommitLog.roll, CommitLog.segments, recomputed] using added

theorem roll_holds (holds : c.Holds layout next) (full : c.activeSegment.isFull = true) :
    c.roll.Holds (layout ++ [[]]) next := by
  obtain ⟨init, fs, m, split, held, chain, _⟩ := linked_last holds.linked
  have nonempty := full_nonempty held (by rw [holds.limit]; exact holds.positive) full
  have bound := chained_le chain
  have some := List.length_pos_of_ne_nil nonempty
  apply roll_nonempty_holds holds
  rw [held.based, holds.next]
  omega

theorem rolled_holds (holds : c.Holds layout next) :
    ∃ layout', (if c.activeSegment.isFull then c.roll else c).Holds layout' next ∧
      layout'.flatten = layout.flatten := by
  by_cases full : c.activeSegment.isFull = true
  · rw [if_pos full]
    exact ⟨_, roll_holds holds full, by rw [List.flatten_concat, List.append_nil]⟩
  · rw [if_neg full]
    exact ⟨layout, holds, rfl⟩

/-- An append of a run of batches that continues the log succeeds and stores exactly these batches. -/
theorem append_holds (holds : c.Holds layout next) (g : StoredBatch) (gs : List StoredBatch) (data : Bytes)
    (chain : Chained next (g :: gs) e) (long : 8 ≤ data.length)
    (patched : putBaseOffset next data = bytesOf (g :: gs)) :
    ∃ c', c.appendRaw data (e - next : Nat) = (c', .ok (next : Int)) ∧
      c'.Holds (placed c layout (g :: gs)) e ∧ c'.config = c.config := by
  have started : g.base = next := chain.1
  have ends := chained_le chain
  have rolled : ∃ c₁ layout₁, (if c.activeSegment.isFull then c.roll else c) = c₁ ∧ c₁.Holds layout₁ next ∧
      c₁.config = c.config ∧ placed c layout (g :: gs) = extendLast layout₁ (g :: gs) := by
    by_cases full : c.activeSegment.isFull = true
    · refine ⟨_, _, if_pos full, roll_holds holds full, rfl, ?_⟩
      rw [placed, if_pos full, extendLast_append, List.nil_append]
    · exact ⟨_, _, if_neg full, holds, rfl, by rw [placed, if_neg full]⟩
  obtain ⟨c₁, layout₁, eq, held, config, place⟩ := rolled
  obtain ⟨init, fs, m, split, active, chained, exchange, _⟩ := linked_last held.linked
  have low := chained_le chained
  obtain ⟨s', appended, held', limit', _⟩ := segment_append_holds active g gs data (by omega)
    long (by rw [started]; exact patched)
  rw [started] at appended
  unfold CommitLog.appendRaw
  rw [holds.opened, if_neg (by decide), eq]
  dsimp only
  rw [held.next, appended]
  refine ⟨_, rfl, ⟨held.opened, held.positive, limit'.trans held.limit, ?_, ?_⟩, config⟩
  · rw [place, split, extendLast_append]
    exact exchange s' _ e held' (chained_append.mpr ⟨next, chained, chain⟩)
  · dsimp only
    omega

theorem append_batch_holds (holds : c.Holds layout next) (b : Batch) (fits : next + b.count < 2 ^ 63) :
    ∃ c', c.appendRaw b.data b.count = (c', .ok (next : Int)) ∧
      c'.Holds (placed c layout [b.storedAt next fits]) (next + b.count) ∧ c'.config = c.config := by
  have long := b.long
  have added := append_holds (e := next + b.count) holds (b.storedAt next fits) [] b.data ⟨rfl, rfl⟩ (by omega)
    (by rw [bytesOf_cons, bytesOf_nil, List.append_nil]; rfl)
  rwa [Nat.add_sub_cancel_left] at added

theorem newCommitLog_sorted {dir : List SegmentFiles} {last : SegmentFiles}
    (sorted : ((dir ++ [last]).map SegmentFiles.baseOffset).Pairwise (· ≤ ·)) :
    newCommitLog config (dir ++ [last]) =
      { config := config
        sealedSegments := dir.map (newSegment config)
        activeSegment := newSegment config last
        isClosed := false
        nextOffset := (newSegment config last).nextOffset } := by
  have inOrder : ((dir ++ [last]).map (newSegment config)).Pairwise (fun a b => a.baseOffset ≤ b.baseOffset) :=
    List.pairwise_map.mpr (List.pairwise_map.mp sorted)
  have loaded : loadSegments config (dir ++ [last]) = (dir ++ [last]).map (newSegment config) := by
    unfold loadSegments
    split
    · rename_i empty
      simp at empty
    · exact inOrder.insertionSort_eq
  simp only [newCommitLog, loaded, List.map_append, List.map_cons, List.map_nil, List.getLastD_concat,
    List.dropLast_concat]

theorem bases_sorted (holds : c.Holds layout next) :
    (c.segments.map Segment.baseOffset).Pairwise (· ≤ ·) :=
  List.pairwise_map.mpr (linked_sorted holds.linked)

theorem bases_viewed {segments : List Segment} (view : Segment → SegmentFiles)
    (base : ∀ s, (view s).baseOffset = s.baseOffset) (sorted : (segments.map Segment.baseOffset).Pairwise (· ≤ ·)) :
    ((segments.map view).map SegmentFiles.baseOffset).Pairwise (· ≤ ·) := by
  rw [List.map_map, show SegmentFiles.baseOffset ∘ view = Segment.baseOffset from funext base]
  exact sorted

/-- Opening a directory that holds the batches of a log again, as `Close` or as a crash left it. -/
theorem reopen_holds (holds : c.Holds layout next) (positive : 0 < config.segmentMaxBytes)
    (view : Segment → SegmentFiles) (base : ∀ s, (view s).baseOffset = s.baseOffset)
    (bytes : ∀ s, (view s).log = s.logFile)
    (whole : ∀ s : Segment, s.offsetIndex.Mapped → (view s).index.size = 0 ∨ entrySize ≤ (view s).index.size) :
    (newCommitLog config (c.segments.map view)).Holds layout next := by
  have same : ∀ (s : Segment) b fs, s.Holds b fs → (newSegment config (view s)).Holds b fs :=
    fun s b fs held => newSegment_holds (by rw [base, held.based]) (by rw [bytes, held.file])
      (whole s held.mapped)
  have linked := linked_map (fun s => newSegment config (view s)) same holds.linked
  have sorted := bases_viewed view base (bases_sorted holds)
  rw [c.segments_map view] at sorted
  rw [c.segments_map view, newCommitLog_sorted sorted]
  rw [c.segments_map] at linked
  obtain ⟨_, _, _, _, held, chain, _⟩ := linked_last linked
  refine ⟨rfl, positive, rfl, ?_, nextOffset_holds held chain⟩
  simpa only [CommitLog.segments, List.map_map, Function.comp_def] using linked

theorem newCommitLog_holds (positive : 0 < config.segmentMaxBytes) :
    (newCommitLog config []).Holds [[]] 0 := by
  have fresh : (newSegment config (freshFiles 0)).Holds 0 [] := newSegment_holds rfl rfl (Or.inl rfl)
  exact ⟨rfl, positive, rfl, .active fresh rfl, nextOffset_holds fresh rfl⟩

/-- Logs built from an empty directory by appends of well-formed batches, closed or left as they are
and opened again any number of times. Offsets stay in the range of `int64`. -/
inductive Built : CommitLog → List (List StoredBatch) → Prop where
  | empty (config : CommitLogConfig) (positive : 0 < config.segmentMaxBytes) (interval : 0 ≤ config.indexInterval) :
      Built (newCommitLog config []) [[]]
  | append {c : CommitLog} {layout : List (List StoredBatch)} {next : Nat} (built : Built c layout)
      (b : Batch) (offset : c.nextOffset = next) (fits : next + b.count < 2 ^ 63) :
      Built (c.appendRaw b.data b.count).1 (placed c layout [b.storedAt next fits])
  | reopen {c : CommitLog} {layout : List (List StoredBatch)} (built : Built c layout) (config : CommitLogConfig)
      (positive : 0 < config.segmentMaxBytes) (interval : 0 ≤ config.indexInterval) :
      Built (newCommitLog config c.close) layout
  | restart {c : CommitLog} {layout : List (List StoredBatch)} (built : Built c layout) (config : CommitLogConfig)
      (positive : 0 < config.segmentMaxBytes) (interval : 0 ≤ config.indexInterval) :
      Built (newCommitLog config c.files) layout

theorem built_holds (built : Built c layout) :
    ∃ next, c.Holds layout next := by
  induction built with
  | empty config positive interval => exact ⟨0, newCommitLog_holds positive⟩
  | append built b offset fits ih =>
    obtain ⟨next, holds⟩ := ih
    have same := offset.symm.trans holds.next
    obtain rfl : _ = next := Int.ofNat.inj same
    obtain ⟨c', appended, held, _⟩ := append_batch_holds holds b fits
    rw [appended]
    exact ⟨_, held⟩
  | reopen built config positive interval ih =>
    obtain ⟨next, holds⟩ := ih
    exact ⟨next, reopen_holds holds positive Segment.close (fun _ => rfl) (fun _ => rfl)
      fun s _ => close_whole s.offsetIndex⟩
  | restart built config positive interval ih =>
    obtain ⟨next, holds⟩ := ih
    exact ⟨next, reopen_holds holds positive Segment.files (fun _ => rfl) (fun _ => rfl)
      fun s mapped => Or.inr mapped.1⟩

end KafGo.Storage
