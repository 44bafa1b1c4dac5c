import KafGo.Coordinator.PartitionState
import KafGo.Storage.Boundaries

/-!
# Serving a fetch

What the leader answers to a fetch of a replica, and how the replica counts the records it got. When the
index leads straight to the batch that starts at the fetch offset, the answer is a run of whole batches from
there.
-/

namespace KafGo.Server
open Lib Coordinator Storage

def partitionMaxBytes : Int := 10 * 2 ^ 20

/-- The broker with id zero is served like a consumer. -/
def isReplicated (replicaId : Int) : Bool := decide (replicaId > 0)

def seenBy (ps : PartitionState) (now replicaId fetchOffset : Int) : PartitionState :=
  if isReplicated replicaId then (ps.updateReplicaLEO now replicaId fetchOffset).advanceHWM else ps

def visibleTo (ps : PartitionState) (replicaId : Int) : Int := if isReplicated replicaId then ps.leo else ps.hwm

/-- The records of a partition's answer: the region that was found, clipped to what is visible. -/
def fetchRecords (c : CommitLog) (fetchOffset maxBytes maxVisible : Int) : Option Bytes :=
  match c.findRecords fetchOffset maxBytes with
  | .ok (some reg) => match reg.clipRegionToOffset maxVisible with
    | .ok clipped => if clipped.size > 0 then some clipped.bytes else none
    | .error _ => none
  | _ => none

def logStart (c : CommitLog) (fetchOffset maxBytes : Int) : Int :=
  match c.findRecords fetchOffset maxBytes with
  | .ok (some reg) => reg.logStart
  | _ => 0

def countTurn (wrap : Int → Int) (raw : Bytes) (pos total : Int) : Move LogError Int :=
  if raw.length - pos < batchHeaderReadSize then .fail .unexpectedEOF
  else
    let hdr := slice raw pos.toNat batchHeaderReadSize
    let batchLen := uint32At hdr offsetBatchLength
    if batchLen < batchLogOverhead then .fail .unexpectedEOF
    else .next (batchLogOverhead + batchLen) (wrap (total + int32At hdr batchRecordCountOff))

def countRecords (wrap : Int → Int) (raw : Bytes) : Except LogError Int :=
  walk .diverges 1 raw.length (countTurn wrap raw) (raw.length + 1) 0 0

/-- The sum is an `int32`. -/
def countRecordsInRecordBatches (raw : Bytes) : Except LogError Int := countRecords (wrapSigned 32) raw

/-- The record counts of the batches add up below the range of an `int32`. -/
def countFits (raw : Bytes) : Bool :=
  match countRecords id raw with
  | .ok total => decide (total < 2 ^ 31)
  | .error _ => true

def segmentFor (c : CommitLog) (off : Int) : Segment :=
  c.segments.getD (c.findSegmentByOffset off).toNat c.activeSegment

/-- The index lookup leads to the batch whose base offset is `off`, in a file below four gigabytes. -/
def leadsTo (c : CommitLog) (off : Int) : Bool :=
  decide ((segmentFor c off).logFile.length < 2 ^ 32) &&
    match readBatchMeta17 (segmentFor c off).logFile ((segmentFor c off).offsetIndex.lookup off) with
    | .ok m => decide (m.baseOffset = off)
    | .error _ => false

section Counting

variable {fs pre post : List StoredBatch} {f : StoredBatch}

theorem countTurn_between (wrap : Int → Int) (b : Batch) (before after : Bytes) (total : Int) :
    countTurn wrap (before ++ (b.data ++ after)) before.length total =
      .next b.data.length (wrap (total + b.count)) := by
  have long := b.long
  have countFits := b.countFits
  have count : int32At (slice b.data 0 batchHeaderReadSize) batchRecordCountOff = b.count := by
    unfold int32At
    rw [uint32At_slice (by decide), Nat.zero_add, b.counted, signed_of_lt (by omega)]
  have room : (before ++ (b.data ++ after)).length = before.length + (b.data.length + after.length) := by
    rw [List.length_append, List.length_append]
  unfold countTurn
  rw [if_neg (by simp only [batchHeaderReadSize]; omega), Int.toNat_natCast,
    b.slice_between before after (by simpa [batchHeaderReadSize] using long)]
  dsimp only
  rw [count, b.declared (by decide), if_neg (by simp only [batchLogOverhead]; omega)]
  congr 1
  simp only [batchLogOverhead]
  omega

theorem countRecords_foldl {φ : Type} (wrap : Int → Int) (batch : φ → Batch) (items : List φ) :
    countRecords wrap (items.flatMap fun x => (batch x).data) =
      .ok (items.foldl (fun total x => wrap (total + (batch x).count)) 0) := by
  refine walk_foldl LogError.diverges (fun x _ => ⟨?_, fun before after total => ?_⟩) 0
  · have long := (batch x).long
    intro empty
    rw [empty] at long
    cases long
  · exact countTurn_between wrap (batch x) before after total

theorem countRecords_batches (wrap : Int → Int)
    (exact_sum : ∀ n : Nat, n ≤ (fs.map (fun f => f.count)).sum → wrap n = n) :
    countRecords wrap (bytesOf fs) = .ok ((fs.map (fun f => f.count)).sum : Nat) := by
  have folded : ∀ (rest : List StoredBatch) (total : Nat), total + (rest.map (fun f => f.count)).sum ≤
      (fs.map (fun f => f.count)).sum →
      rest.foldl (fun (total : Int) f => wrap (total + f.count)) total =
        (total + (rest.map (fun f => f.count)).sum : Nat) := by
    intro rest
    induction rest with
    | nil => exact fun _ _ => rfl
    | cons f rest ih =>
      intro total below
      rw [List.map_cons, List.sum_cons] at below ⊢
      rw [List.foldl_cons, ← Int.natCast_add, exact_sum _ (by omega), ih _ (by omega), Nat.add_assoc]
  have total := folded fs 0 (by omega)
  rw [Nat.zero_add] at total
  exact (countRecords_foldl wrap StoredBatch.toBatch fs).trans (congrArg _ total)

theorem countFits_batches (fits : countFits (bytesOf fs) = true) : (fs.map (fun f => f.count)).sum < 2 ^ 31 := by
  unfold countFits at fits
  rw [countRecords_batches id (fun _ _ => rfl)] at fits
  exact_mod_cast of_decide_eq_true fits

theorem countRecordsInRecordBatches_batches (fits : countFits (bytesOf fs) = true) :
    countRecordsInRecordBatches (bytesOf fs) = .ok ((fs.map (fun f => f.count)).sum : Nat) := by
  have small := countFits_batches fits
  apply countRecords_batches
  intro n below
  exact wrapSigned_natCast (by decide) (by omega)

end Counting

/-! ### The answer -/

theorem fetchRecords_end {c : CommitLog} {off : Int} (past : c.nextOffset ≤ off) (maxBytes maxVisible : Int) :
    fetchRecords c off maxBytes maxVisible = none := by
  unfold fetchRecords CommitLog.findRecords
  by_cases closed : c.isClosed = true
  · rw [if_pos closed]
  · rw [if_neg closed, if_pos past]

section Answer

variable {c : CommitLog} {layout : List (List StoredBatch)} {next off i base : Nat} {s : Segment}
  {pre post : List StoredBatch} {g : StoredBatch}

theorem leadsTo_aimed (located : Located c.segments layout off i s base pre g post) (here : g.base = off)
    (leads : leadsTo c off = true) : Aimed s off pre g := by
  have segment : segmentFor c off = s := by
    unfold segmentFor
    rw [findSegmentByOffset_located located.found located.order, Int.toNat_natCast, List.getD_eq_getElem?_getD,
      located.found]
    rfl
  unfold leadsTo at leads
  rw [segment, Bool.and_eq_true, decide_eq_true_eq] at leads
  obtain ⟨small, header⟩ := leads
  obtain ⟨n, short, aim⟩ := lookup_boundary located.holds (by simp) small off
  obtain ⟨h, rest, parts⟩ : ∃ h rest, (pre ++ g :: post).drop n = h :: rest :=
    ⟨_, _, List.drop_eq_getElem_cons short⟩
  have split : pre ++ g :: post = (pre ++ g :: post).take n ++ h :: rest := by
    rw [← parts, List.take_append_drop]
  have read : readBatchMeta17 (bytesOf (pre ++ g :: post) ++ []) _ = _ := readBatchMeta17_batch split
  rw [List.append_nil, ← located.holds.file, ← aim] at read
  rw [read] at header
  have based : h.base = off := Int.ofNat.inj (of_decide_eq_true header)
  obtain ⟨last, chain⟩ := located.chain
  obtain ⟨m, first, gBase, _⟩ := chained_append.mp chain
  rw [split] at chain
  obtain ⟨m', first', hBase, _⟩ := chained_append.mp chain
  obtain rfl : m = m' := by omega
  obtain ⟨same, _⟩ := chained_cut split first first'
  exact ⟨pre, [], (List.append_nil pre).symm, by rw [aim, ← same], Or.inl rfl⟩

theorem located_flatten (located : Located c.segments layout off i s base pre g post) :
    layout.flatten = ((layout.take i).flatten ++ pre) ++ g :: (post ++ (layout.drop (i + 1)).flatten) := by
  obtain ⟨inside, same⟩ := List.getElem?_eq_some_iff.mp located.batches
  have parts : layout = layout.take i ++ (pre ++ g :: post) :: layout.drop (i + 1) := by
    rw [← same, ← List.drop_eq_getElem_cons inside, List.take_append_drop]
  nth_rewrite 1 [parts]
  simp

theorem located_starts (located : Located c.segments layout off i s base pre g post)
    (chained : Chained 0 layout.flatten next) {stored rest : List StoredBatch}
    (whole : layout.flatten = stored ++ rest) (chain : Chained 0 stored off) :
    g.base = off ∧ rest = g :: (post ++ (layout.drop (i + 1)).flatten) := by
  have low := located.low
  have high := located.high
  rw [located_flatten located] at whole chained
  obtain ⟨m, before, based, _⟩ := chained_append.mp chained
  rcases List.append_eq_append_iff.mp whole with ⟨extra, longer, behind⟩ | ⟨extra, shorter, behind⟩
  · rw [longer] at chain
    obtain ⟨n, first, second⟩ := chained_append.mp chain
    obtain rfl := chained_unique first before
    cases extra with
    | nil =>
      have ends : n = off := second
      exact ⟨by omega, behind.symm⟩
    | cons h extra =>
      obtain ⟨rfl, _⟩ := List.cons.inj behind
      have bound := chained_le second.2
      omega
  · rw [shorter] at before
    obtain ⟨n, first, second⟩ := chained_append.mp before
    obtain rfl := chained_unique first chain
    have bound := chained_le second
    have none : extra = [] := List.length_eq_zero_iff.mp (by omega)
    rw [none] at behind
    exact ⟨by omega, behind⟩

/-- An answer that starts right at the fetch offset: whole batches, and more than one only within the budget. -/
theorem fetchRecords_leads (holds : c.Holds layout next) {stored rest : List StoredBatch}
    (whole : layout.flatten = stored ++ rest) (chain : Chained 0 stored off) (inside : off < next)
    (leads : leadsTo c off = true) {maxBytes : Int} (budget : 0 < maxBytes) (maxVisible : Int) :
    ∃ lead more, rest = lead ++ more ∧ (lead.length ≤ 1 ∨ ((bytesOf lead).length : Int) ≤ maxBytes) ∧
      fetchRecords c off maxBytes maxVisible = if lead = [] then none else some (bytesOf lead) := by
  obtain ⟨i, s, base, pre, g, post, located⟩ := linked_locate holds.linked (Nat.zero_le off) inside
  obtain ⟨starts, behind⟩ := located_starts located (linked_content holds.linked).2 whole chain
  have aimed := leadsTo_aimed located starts leads
  have upper : (off : Int) < c.nextOffset := by rw [holds.next]; exact_mod_cast inside
  obtain ⟨size, answer, k, one, short, total, fitting, _⟩ := aimed_exact holds.opened upper budget located aimed
  have file : s.logFile = bytesOf pre ++ bytesOf ((g :: post).take k) ++ bytesOf ((g :: post).drop k) := by
    rw [located.holds.file, List.append_assoc, ← bytesOf_append, List.take_append_drop, bytesOf_append]
  have regionSize : size = (bytesOf ((g :: post).take k)).length := by
    rw [total, length_bytesOf, List.map_take]
  have clipped := clip_leading ⟨s.logFile, (bytesOf pre).length, size, c.nextOffset, c.oldestOffset⟩
    file rfl regionSize maxVisible
  generalize leadEq : ((g :: post).take k).takeWhile (StoredBatch.visible maxVisible) = lead at clipped
  obtain ⟨more, cut⟩ : ∃ more, (g :: post).take k = lead ++ more := by
    rw [← leadEq]
    exact ⟨_, (List.takeWhile_append_dropWhile).symm⟩
  refine ⟨lead, more ++ (g :: post).drop k ++ (layout.drop (i + 1)).flatten, ?_, ?_, ?_⟩
  · rw [behind, ← List.cons_append, ← List.append_assoc, ← List.append_assoc, ← cut, List.take_append_drop]
  · rcases fitting with single | within
    · left
      have bound := congrArg List.length cut
      rw [List.length_take, List.length_append] at bound
      omega
    · right
      rw [regionSize, cut, bytesOf_append, List.length_append] at within
      omega
  · unfold fetchRecords
    rw [answer]
    dsimp only
    rw [clipped]
    dsimp only
    by_cases empty : lead = []
    · rw [if_pos empty, if_neg (by rw [empty]; simp)]
    · have nonempty : 0 < (bytesOf lead).length := by
        have bound := length_le_bytesOf lead
        have positive := List.length_pos_of_ne_nil empty
        omega
      have sent : s.logFile = bytesOf pre ++ bytesOf lead ++ (bytesOf more ++ bytesOf ((g :: post).drop k)) := by
        rw [file, cut, bytesOf_append]
        simp only [List.append_assoc]
      rw [if_neg empty, if_pos (by exact_mod_cast nonempty)]
      exact congrArg some (bytes_batches sent rfl rfl)

theorem fetchRecords_answered (holds : c.Holds layout next) {stored rest : List StoredBatch}
    (whole : layout.flatten = stored ++ rest) (chain : Chained 0 stored off)
    (aligned : c.nextOffset ≤ (off : Int) ∨ leadsTo c off = true) {maxBytes : Int} (budget : 0 < maxBytes)
    {maxVisible : Int} {raw : Bytes} (answer : fetchRecords c off maxBytes maxVisible = some raw) :
    ∃ lead more, rest = lead ++ more ∧ (lead.length ≤ 1 ∨ ((bytesOf lead).length : Int) ≤ maxBytes) ∧ lead ≠ [] ∧
      raw = bytesOf lead := by
  have bound := holds.next
  have inside : off < next := by
    by_contra past
    rw [fetchRecords_end (by omega)] at answer
    cases answer
  have leads := aligned.resolve_left (by omega)
  obtain ⟨lead, more, parts, small, served⟩ := fetchRecords_leads holds whole chain inside leads budget maxVisible
  rw [served] at answer
  by_cases empty : lead = []
  · rw [if_pos empty] at answer
    cases answer
  · rw [if_neg empty] at answer
    exact ⟨lead, more, parts, small, empty, (Option.some.inj answer).symm⟩

end Answer

theorem fetchRecords_whole {c : CommitLog} {off maxBytes maxVisible : Int} {raw : Bytes}
    (whole : ∀ reg, c.findRecords off maxBytes = .ok (some reg) → ∃ fs, reg.Whole fs)
    (answer : fetchRecords c off maxBytes maxVisible = some raw) :
    ∃ reg fs, c.findRecords off maxBytes = .ok (some reg) ∧ reg.Whole fs ∧
      raw = bytesOf (fs.takeWhile (StoredBatch.visible maxVisible)) := by
  unfold fetchRecords at answer
  split at answer
  · rename_i reg found
    obtain ⟨fs, is_whole⟩ := whole reg found
    refine ⟨reg, fs, found, is_whole, ?_⟩
    rw [is_whole.clip] at answer
    dsimp only at answer
    split at answer
    · rw [← Option.some.inj answer]
      obtain ⟨before, tail, file, start⟩ := is_whole.bytes
      have parts := List.takeWhile_append_dropWhile (p := StoredBatch.visible maxVisible) (l := fs)
      have sent : reg.file = before ++ bytesOf (fs.takeWhile (StoredBatch.visible maxVisible)) ++
          (bytesOf (fs.dropWhile (StoredBatch.visible maxVisible)) ++ tail) := by
        nth_rewrite 1 [← parts] at file
        rw [file, bytesOf_append]
        simp only [List.append_assoc]
      exact bytes_batches sent start rfl
    · cases answer
  · cases answer

theorem visible_records {fs : List StoredBatch} {maxVisible : Int} {f : StoredBatch}
    (member : f ∈ fs.takeWhile (StoredBatch.visible maxVisible)) {offset : Int} (inside : offset < f.base + f.count) :
    offset < maxVisible := by
  have visible := List.mem_takeWhile_imp member
  rw [StoredBatch.visible, decide_eq_true_eq] at visible
  omega

/-- A region of whole batches is cut to its leading batches that end below the bound, exactly. A consumer thus gets
whole batches with records below the high watermark only. In a log built from appends, with segment files that the
positions of the index can address, every region is one of whole batches. -/
theorem consumer_fetch_visible :
    (∀ (reg : RecordsRegion) (fs : List StoredBatch) (maxVisible : Int), reg.Whole fs →
      ∃ lead rest, fs = lead ++ rest ∧
        reg.clipRegionToOffset maxVisible = .ok { reg with size := (bytesOf lead).length } ∧
        (∀ f ∈ lead, ∀ offset : Int, f.base ≤ offset → offset < f.base + f.count → offset < maxVisible) ∧
        ∀ f ∈ rest, maxVisible ≤ f.base + f.count - 1) ∧
    (∀ (c : CommitLog) (ps : PartitionState) (replicaId off maxBytes : Int) (raw : Bytes),
      isReplicated replicaId = false →
      (∀ reg, c.findRecords off maxBytes = .ok (some reg) → ∃ fs, reg.Whole fs) →
      fetchRecords c off maxBytes (visibleTo ps replicaId) = some raw →
      ∃ lead, raw = bytesOf lead ∧
        ∀ f ∈ lead, ∀ offset : Int, f.base ≤ offset → offset < f.base + f.count → offset < ps.hwm) ∧
    ∀ (c : CommitLog) (layout : List (List StoredBatch)) (next : Nat), c.Holds layout next →
      (∀ s ∈ c.segments, s.logFile.length < 2 ^ 32) → ∀ (off maxBytes : Int) (reg : RecordsRegion),
        c.findRecords off maxBytes = .ok (some reg) → ∃ fs, reg.Whole fs ∧ ∀ f ∈ fs, f ∈ layout.flatten := by
  refine ⟨?_, ?_, fun c layout next holds small off maxBytes reg found => findRecords_whole holds small found⟩
  · intro reg fs maxVisible whole
    refine ⟨_, _, (List.takeWhile_append_dropWhile (p := StoredBatch.visible maxVisible)).symm, whole.clip maxVisible,
      fun f member offset _ inside => visible_records member inside, fun f member => ?_⟩
    have high := dropWhile_visible whole.increasing maxVisible member
    omega
  · intro c ps replicaId off maxBytes raw consumer whole answer
    obtain ⟨reg, fs, _, _, rfl⟩ := fetchRecords_whole whole answer
    refine ⟨_, rfl, fun f member offset _ inside => ?_⟩
    have below := visible_records member inside
    rwa [visibleTo, consumer, if_neg (by decide)] at below

/-- Of two batches, a consumer gets the one below the high watermark. -/
theorem consumer_fetch_first : ∃ raw lead,
    fetchRecords twoRecordLog 0 1000 (visibleTo ⟨1, [1], [1], 2, 1, fun _ => none, fun _ => none⟩ 0) = some raw ∧
      raw.length = 61 ∧ raw = bytesOf lead ∧
      ∀ f ∈ lead, ∀ offset : Int, f.base ≤ offset → offset < f.base + f.count → offset < 1 := by
  obtain ⟨next, holds⟩ := built_holds twoRecordLog_built
  have whole : ∀ reg, twoRecordLog.findRecords 0 1000 = .ok (some reg) → ∃ fs, reg.Whole fs := by
    intro reg found
    obtain ⟨fs, whole, _⟩ := consumer_fetch_visible.2.2 twoRecordLog _ next holds (by decide +kernel) 0 1000 reg found
    exact ⟨fs, whole⟩
  obtain ⟨raw, answer, size⟩ : ∃ raw, fetchRecords twoRecordLog 0 1000
      (visibleTo ⟨1, [1], [1], 2, 1, fun _ => none, fun _ => none⟩ 0) = some raw ∧ raw.length = 61 := by
    refine ⟨_, rfl, ?_⟩
    decide +kernel
  obtain ⟨lead, same, below⟩ := consumer_fetch_visible.2.1 twoRecordLog _ 0 0 1000 raw rfl whole answer
  exact ⟨raw, lead, answer, size, same, below⟩

end KafGo.Server
