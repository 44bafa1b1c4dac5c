import KafGo.Storage.Clip
import KafGo.Storage.Contiguous
import KafGo.Storage.Progress
import KafGo.Storage.Region

/-!
# Regions of whole batches

In a segment that holds batches the scans stay on the boundaries between them, so that every region is a run of
whole batches, and clipping it keeps the leading ones that are visible.
-/

namespace KafGo.Storage
open Lib

/-- The region is a concatenation of well-formed batches with increasing offsets. -/
structure RecordsRegion.Whole (reg : RecordsRegion) (fs : List StoredBatch) : Prop where
  bytes : ∃ before tail, reg.file = before ++ bytesOf fs ++ tail ∧ reg.fileOffset = before.length
  size : reg.size = (bytesOf fs).length
  increasing : fs.Pairwise fun f g => f.base + f.count ≤ g.base

theorem dropWhile_visible {fs : List StoredBatch} (increasing : fs.Pairwise fun f g => f.base + f.count ≤ g.base)
    (maxVisible : Int) {f : StoredBatch} (member : f ∈ fs.dropWhile (StoredBatch.visible maxVisible)) :
    maxVisible < f.base + f.count := by
  induction fs with
  | nil => cases member
  | cons g fs ih =>
    obtain ⟨later, increasing⟩ := List.pairwise_cons.mp increasing
    rw [List.dropWhile_cons] at member
    split at member
    · exact ih increasing member
    · rename_i hidden
      have high : maxVisible < g.base + g.count := by
        unfold StoredBatch.visible at hidden
        rw [decide_eq_true_eq] at hidden
        omega
      rcases List.mem_cons.mp member with rfl | behind
      · exact high
      · have order := later f behind
        have positive := f.positive
        omega

theorem RecordsRegion.Whole.clip {reg : RecordsRegion} {fs : List StoredBatch} (whole : reg.Whole fs)
    (maxVisible : Int) :
    reg.clipRegionToOffset maxVisible =
      .ok { reg with size := (bytesOf (fs.takeWhile (StoredBatch.visible maxVisible))).length } := by
  obtain ⟨before, tail, file, start⟩ := whole.bytes
  exact clip_leading reg file start whole.size maxVisible

/-! ### Regions on batch boundaries -/

theorem chained_pairwise {b e : Nat} {fs : List StoredBatch} (chain : Chained b fs e) :
    fs.Pairwise fun f g => f.base + f.count ≤ g.base := by
  induction fs generalizing b with
  | nil => exact List.Pairwise.nil
  | cons f fs ih =>
    obtain ⟨rfl, rest⟩ := chain
    exact List.Pairwise.cons (fun g member => (chained_mem rest member).1) (ih rest)

def boundary (fs : List StoredBatch) (n : Nat) : Int := (bytesOf (fs.take n)).length

section Boundaries

variable {s : Segment} {fs : List StoredBatch} {off maxBytes pos start : Int} {n : Nat}

theorem boundary_end : boundary fs fs.length = (bytesOf fs).length := by
  unfold boundary
  rw [List.take_length]

theorem boundary_succ (inside : n < fs.length) : boundary fs (n + 1) = boundary fs n + (fs.get ⟨n, inside⟩).length := by
  unfold boundary
  rw [List.take_succ_eq_append_getElem inside, bytesOf_append, bytesOf_cons, bytesOf_nil, List.append_nil,
    List.length_append, Int.natCast_add]
  rfl

theorem lengthAt_boundary (inside : n < fs.length) :
    boundary fs n + (12 + lengthAt (bytesOf fs) (boundary fs n)) = boundary fs (n + 1) := by
  have split : fs = fs.take n ++ fs.get ⟨n, inside⟩ :: fs.drop (n + 1) := by
    rw [List.get_eq_getElem, ← List.drop_eq_getElem_cons inside, List.take_append_drop]
  have read : readBatchMeta17 (bytesOf fs ++ []) _ = _ := readBatchMeta17_batch split
  have room := batch_room [] split
  rw [List.append_nil] at read room
  rw [readBatchMeta17_ok (by omega) room] at read
  have length := congrArg BatchMeta.totalLen (Except.ok.inj read)
  rw [boundary_succ inside]
  unfold boundary
  dsimp only at length
  omega

theorem boundary_inside (short : n ≤ fs.length) (room : boundary fs n + headerSizeUpToMagic ≤ (bytesOf fs).length) :
    n < fs.length := by
  rcases Nat.lt_or_eq_of_le short with inside | rfl
  · exact inside
  · rw [boundary_end] at room
    simp only [headerSizeUpToMagic] at room
    omega

theorem scanned_boundary (file : s.logFile = bytesOf fs)
    (aim : ∃ n ≤ fs.length, (s.offsetIndex.lookup off : Int) = boundary fs n) {pre : Option Int}
    (scanned : Scanned s off pre pos) :
    (∃ n ≤ fs.length, pos = boundary fs n) ∧ ∀ b, pre = some b → ∃ n ≤ fs.length, b = boundary fs n := by
  induction scanned with
  | first => exact ⟨aim, nofun⟩
  | next before behind ih =>
    obtain ⟨n, short, rfl⟩ := ih.1
    have room := behind.inside
    rw [file] at room
    have inside := boundary_inside short (by simp only [headerSizeWithDelta, headerSizeUpToMagic] at room ⊢; omega)
    refine ⟨⟨n + 1, inside, ?_⟩, ?_⟩
    · rw [file, lengthAt_boundary inside]
    · intro b same
      exact ⟨n, short, (Option.some.inj same).symm⟩

theorem starts_boundary (file : s.logFile = bytesOf fs)
    (aim : ∃ n ≤ fs.length, (s.offsetIndex.lookup off : Int) = boundary fs n) (starts : StartsAt s off start) :
    ∃ n ≤ fs.length, start = boundary fs n := by
  cases starts with
  | last scanned => exact (scanned_boundary file aim scanned).2 _ rfl
  | @above pre pos scanned =>
    cases pre with
    | none => exact (scanned_boundary file aim scanned).1
    | some b => exact (scanned_boundary file aim scanned).2 b rfl
  | within scanned => exact (scanned_boundary file aim scanned).1

theorem collected_boundary (short : n ≤ fs.length) (collected : Collected (bytesOf fs) maxBytes (boundary fs n) pos) :
    ∃ m, n ≤ m ∧ m ≤ fs.length ∧ pos = boundary fs m := by
  induction collected with
  | first => exact ⟨n, Nat.le_refl n, short, rfl⟩
  | next _ _ room _ ih =>
    obtain ⟨m, order, short, rfl⟩ := ih
    have inside := boundary_inside short room
    exact ⟨m + 1, by omega, inside, lengthAt_boundary inside⟩

theorem accumulateTurn_stop {file : Bytes} {acc sum : Int} (stops : accumulateTurn file maxBytes pos acc = .stop sum)
    (inside : pos + headerSizeUpToMagic ≤ file.length) : sum = acc ∨ sum = acc + (12 + lengthAt file pos) := by
  unfold accumulateTurn at stops
  by_cases nonneg : 0 ≤ pos
  · rw [readBatchMeta17_ok nonneg inside] at stops
    dsimp only at stops
    split at stops
    · exact Or.inl (Move.stop.inj stops).symm
    · split at stops
      · exact Or.inr (Move.stop.inj stops).symm
      · cases stops
  · rw [readBatchMeta17_negative (by omega)] at stops
    cases stops

theorem sums_boundary (file : s.logFile = bytesOf fs) (short : n ≤ fs.length) {sum : Int}
    (sums : s.Sums maxBytes (boundary fs n) (.ok sum)) :
    ∃ m, n ≤ m ∧ m ≤ fs.length ∧ sum = boundary fs m - boundary fs n := by
  obtain ⟨p, acc, visits, ending⟩ := ends_visits sums
  obtain ⟨rfl, collected⟩ := visits_collected visits
  rw [file] at collected ending
  obtain ⟨m, order, short', rfl⟩ := collected_boundary short collected
  rcases ending with ⟨_, rfl⟩ | ⟨room, stops⟩
  · exact ⟨m, order, short', rfl⟩
  · have inside := boundary_inside short' room
    have next := lengthAt_boundary inside
    rcases accumulateTurn_stop stops room with rfl | rfl
    · exact ⟨m, order, short', rfl⟩
    · exact ⟨m + 1, by omega, inside, by omega⟩

theorem findRawRegion_boundary (file : s.logFile = bytesOf fs)
    (aim : ∃ n ≤ fs.length, (s.offsetIndex.lookup off : Int) = boundary fs n) {filePos size : Int}
    (found : s.findRawRegion off maxBytes = .ok (filePos, size)) :
    ∃ n m, n ≤ m ∧ m ≤ fs.length ∧ filePos = boundary fs n ∧ size = boundary fs m - boundary fs n := by
  have empty : ∀ r : Int × Int, r = (0, 0) → r = (filePos, size) →
      ∃ n m, n ≤ m ∧ m ≤ fs.length ∧ filePos = boundary fs n ∧ size = boundary fs m - boundary fs n := by
    rintro _ rfl same
    obtain ⟨rfl, rfl⟩ := Prod.mk.inj same
    exact ⟨0, 0, Nat.le_refl 0, Nat.zero_le _, rfl, by omega⟩
  unfold Segment.findRawRegion at found
  cases scan : s.findStart off with
  | error e =>
    rw [scan] at found
    cases found
  | ok st =>
    rw [scan] at found
    simp only [bind, Except.bind] at found
    have scans : s.Scans off (.ok st) := walk_ends scan
    cases begins : st.start with
    | none =>
      have unset : (if st.startPos < 0 then st.preMeta.map BatchMeta.filePos else some st.startPos) = none := begins
      rw [unset] at found
      exact empty _ rfl (Except.ok.inj found)
    | some start =>
      have chosen : (if st.startPos < 0 then st.preMeta.map BatchMeta.filePos else some st.startPos) =
        some start := begins
      rw [chosen] at found
      dsimp only at found
      obtain ⟨n, short, rfl⟩ := starts_boundary file aim (scans_starts scans begins)
      cases total : s.accumulate (boundary fs n) maxBytes with
      | error e =>
        rw [total] at found
        cases found
      | ok sum =>
        rw [total] at found
        dsimp only at found
        split at found
        · exact empty _ rfl (Except.ok.inj found)
        · obtain ⟨rfl, rfl⟩ := Prod.mk.inj (Except.ok.inj found)
          obtain ⟨m, order, inside, same⟩ := sums_boundary file short (walk_ends total)
          exact ⟨n, m, order, inside, rfl, same⟩

theorem boundary_whole {b e m : Nat} (chain : Chained b fs e) (order : n ≤ m) (leo logStart : Int) :
    RecordsRegion.Whole ⟨bytesOf fs, boundary fs n, boundary fs m - boundary fs n, leo, logStart⟩
      ((fs.take m).drop n) := by
  have lead : fs.take m = fs.take n ++ (fs.take m).drop n := by
    have cut := List.take_append_drop n (fs.take m)
    rw [List.take_take, Nat.min_eq_left order] at cut
    exact cut.symm
  refine ⟨⟨bytesOf (fs.take n), bytesOf (fs.drop m), ?_, rfl⟩, ?_, ?_⟩
  · rw [← bytesOf_append, ← lead, ← bytesOf_append, List.take_append_drop]
  · dsimp only
    unfold boundary
    nth_rewrite 1 [lead]
    rw [bytesOf_append, List.length_append]
    omega
  · exact (chained_pairwise chain).sublist ((List.drop_sublist _ _).trans (List.take_sublist _ _))

theorem lookup_aim {base : Nat} (holds : s.Holds base fs) (small : s.logFile.length < 2 ^ 32) (off : Int) :
    ∃ n ≤ fs.length, (s.offsetIndex.lookup off : Int) = boundary fs n := by
  by_cases empty : fs = []
  · subst empty
    obtain ⟨marks, indexed⟩ := holds.indexed
    rcases s.offsetIndex.lookup_entry off with zero | ⟨i, below, _⟩
    · exact ⟨0, Nat.le_refl 0, by rw [zero]; rfl⟩
    · obtain ⟨m, mark⟩ := entry_mark indexed below
      obtain ⟨_, _, _, inside, _⟩ := indexed.entry i m mark
      exact absurd inside (Nat.not_lt_zero m)
  · obtain ⟨n, inside, aim⟩ := lookup_boundary holds empty small off
    exact ⟨n, Nat.le_of_lt inside, congrArg Int.ofNat aim⟩

end Boundaries

theorem findRecords_whole {c : CommitLog} {layout : List (List StoredBatch)} {next : Nat} (holds : c.Holds layout next)
    (small : ∀ s ∈ c.segments, s.logFile.length < 2 ^ 32) {off maxBytes : Int} {reg : RecordsRegion}
    (found : c.findRecords off maxBytes = .ok (some reg)) : ∃ fs, reg.Whole fs ∧ ∀ f ∈ fs, f ∈ layout.flatten := by
  unfold CommitLog.findRecords at found
  split at found
  · cases found
  split at found
  · cases found
  dsimp only at found
  split at found
  · cases found
  generalize place : (c.findSegmentByOffset off).toNat = i at found
  have inside : ∃ j : Nat, c.segments[j]? = some (c.segments.getD i c.activeSegment) := by
    by_cases within : i < c.segments.length
    · exact ⟨i, by rw [List.getD_eq_getElem?_getD, List.getElem?_eq_getElem within]; rfl⟩
    · have last : c.segments.getD i c.activeSegment = c.activeSegment := by
        rw [List.getD_eq_getElem?_getD, List.getElem?_eq_none (by omega)]
        rfl
      exact ⟨c.sealedSegments.length, by rw [last, CommitLog.segments, List.getElem?_concat_length]⟩
  obtain ⟨j, at_j⟩ := inside
  generalize c.segments.getD i c.activeSegment = s at found at_j
  obtain ⟨base, m, fs, batches, held, chain, _⟩ := linked_segment holds.linked at_j
  have aim := lookup_aim held (small s (List.mem_of_getElem? at_j)) off
  cases region : s.findRawRegion off maxBytes with
  | error e =>
    rw [region] at found
    cases found
  | ok r =>
    obtain ⟨filePos, size⟩ := r
    rw [region] at found
    obtain rfl := Option.some.inj (Except.ok.inj found)
    obtain ⟨n, k, order, _, rfl, rfl⟩ := findRawRegion_boundary held.file aim region
    refine ⟨(fs.take k).drop n, ?_, ?_⟩
    · rw [held.file]
      exact boundary_whole chain order _ _
    · intro f member
      exact List.mem_flatten.mpr ⟨fs, List.mem_of_getElem? batches, List.mem_of_mem_take (List.mem_of_mem_drop member)⟩

end KafGo.Storage
